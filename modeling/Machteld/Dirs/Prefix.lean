import Machteld.Dirs.Walk
import Machteld.WideText

namespace Machteld

/-- `GetFullPathNameW`: the size it asks for, and what it answers and writes
for a buffer of some size. -/
structure FullPathName where
  need : Wide → Nat
  fill : Wide → Nat → Nat × Wide

/-- What `dirs_prefix` makes of a root, with the size of its buffer. -/
structure DirsPrefixed where
  path : Wide
  unc : Bool
  units : Nat

def wideAscii (s : String) : Wide := s.toList.map fun c => UInt16.ofNat c.toNat

def wideIsSep (u : UInt16) : Bool := u == wideSlash || u == 0x2F

def wideColon : UInt16 := 0x3A

def wideLower (u : UInt16) : UInt16 := if 0x41 ≤ u ∧ u ≤ 0x5A then u + 0x20 else u

def extendedPrefix : Wide := wideAscii "\\\\?\\"

def uncPrefix : Wide := wideAscii "\\\\?\\UNC"

/-- A root like `C:` or `C:sub`. -/
def driveRelative : Bytes → Bool
  | letter :: colon :: rest =>
    (decide (0x41 ≤ letter ∧ letter ≤ 0x5A) || decide (0x61 ≤ letter ∧ letter ≤ 0x7A)) && colon == 0x3A &&
      rest.head? != some 0x5C && rest.head? != some 0x2F
  | _ => false

def devicePath (given : Bytes) : Bool := (ascii "\\\\.\\").isPrefixOf given || (ascii "//./").isPrefixOf given

/-- The test of the prefix before and after the normalisation. -/
def dirsExtended (path : Wide) : Bool := extendedPrefix.isPrefixOf path

/-- A component that normalisation rewrites. -/
def dirsRewritten (seg : Wide) : Bool :=
  !seg.isEmpty && !dotName seg && (seg.getLast? == some 0x2E || seg.getLast? == some 0x20)

def driveRoot (already : Bool) (full : Wide) (fl : Nat) : Bool :=
  fl == 3 && full[1]? == some wideColon || already && fl == 7 && full[5]? == some wideColon

/-- The loop over the trailing separators: the length it leaves. -/
def dirsTrim (already : Bool) (full : Wide) : Nat → Nat
  | 0 => 0
  | fl + 1 =>
    if 1 < fl + 1 ∧ full[fl]? = some wideSlash ∧ driveRoot already full (fl + 1) =
      false then dirsTrim already full fl
    else fl + 1

/-- `_wcsnicmp` with the prefix of a UNC path. -/
def dirsUnc (path : Wide) : Bool := (path.take 8).map wideLower == wideAscii "\\\\?\\unc\\"

/-- From the full path on, in a buffer of some size. -/
def dirsPrefixFull (already : Bool) (full : Wide) (units : Nat) : DirsPrefixed :=
  let fl := dirsTrim already full full.length
  let full := full.take fl
  if already then ⟨full, dirsUnc full, units⟩
  else if (wideAscii "\\\\").isPrefixOf full then ⟨uncPrefix ++ full.drop 1, true, fl + 8⟩
  else ⟨extendedPrefix ++ full, false, fl + 5⟩

/-- `dirs_prefix`, where memory is not short. -/
def dirsPrefix (g : FullPathName) (root : Bytes) : Except TclError DirsPrefixed :=
  let given := cString root
  if given = [] then .error (dirsError "badvalue" "the root must not be empty")
  else if driveRelative given then
    .error (dirsError "badvalue"
      "a drive-relative root resolves against hidden per-drive state -- write C:/ instead of C:")
  else if devicePath given then .error (dirsError "badvalue" "a device path is not a directory tree")
  else
    match mtUtf8ToWide true root with
    | none => .error (dirsError "badvalue" "the root is not valid text")
    | some raw =>
      if dirsExtended raw then .ok (dirsPrefixFull true raw (raw.length + 1))
      else if (raw.splitOnP wideIsSep).any dirsRewritten then
        .error (dirsError "badvalue"
          ("a path component ending in '.' or a space is rewritten by Win32 normalisation and would name a " ++
            "different directory -- spell the root \\\\?\\C:\\... to reach it"))
      else if g.need raw = 0 then .error (dirsError "badvalue" "the root is not a usable path")
      else
        let filled := g.fill raw (g.need raw)
        if filled.1 = 0 ∨ g.need raw ≤ filled.1 then .error (dirsError "badvalue" "the root is not a usable path")
        else .ok (dirsPrefixFull (dirsExtended filled.2) filled.2 (g.need raw))

end Machteld
