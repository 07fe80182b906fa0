import Machteld.Dirs.Names
import Machteld.Dirs.Prefix

namespace Machteld

def sepUnit (slash : Bool) : UInt16 := if slash then 0x2F else wideSlash

/-- A name of a path with the separators before it, each of which may be a
forward slash. -/
structure SpelledName where
  slash : Bool
  more : List Bool
  name : Wide

def SpelledName.text (p : SpelledName) : Wide := sepUnit p.slash :: (p.more.map sepUnit ++ p.name)

/-- A name behind one backslash. -/
def SpelledName.Plain (p : SpelledName) : Prop := p.slash = false ∧ p.more = []

/-- The ways to write an absolute path: plain, as a UNC path, and both with
the extended prefix. -/
inductive RootSpelling
  | drive (letter : UInt16) (names : List SpelledName) (trailing : List Bool)
  | unc (a b : Bool) (server : Wide) (share : SpelledName) (names : List SpelledName) (trailing : List Bool)
  | extendedDrive (a b c : Bool) (letter : UInt16) (names : List SpelledName) (trailing : List Bool)
  | extendedUnc (a b c : Bool) (letters : Wide) (server share : SpelledName) (names : List SpelledName)
    (trailing : List Bool)

def spelledRest (names : List SpelledName) (trailing : List Bool) : Wide :=
  names.flatMap SpelledName.text ++ trailing.map sepUnit

def spelledPrefix (a b c : Bool) : Wide := [sepUnit a, sepUnit b, 0x3F, sepUnit c]

def RootSpelling.text : RootSpelling → Wide
  | .drive letter names trailing => letter :: wideColon :: spelledRest names trailing
  | .unc a b server share names trailing =>
    sepUnit a :: sepUnit b :: (server ++ spelledRest (share :: names) trailing)
  | .extendedDrive a b c letter names trailing =>
    spelledPrefix a b c ++ letter :: wideColon :: spelledRest names trailing
  | .extendedUnc a b c letters server share names trailing =>
    spelledPrefix a b c ++ (letters ++ spelledRest (server :: share :: names) trailing)

/-- The prefix with which a path is not normalised. -/
def RootSpelling.verbatim : RootSpelling → Bool
  | .drive _ _ _ => false
  | .unc _ _ _ _ _ _ => false
  | .extendedDrive a b c _ _ _ => !a && !b && !c
  | .extendedUnc a b c _ _ _ _ _ => !a && !b && !c

/-- The names without dot components, which never leave the root. -/
def resolveNames (names : List Wide) : List Wide :=
  names.foldl (fun before n => if n = [0x2E] then before else if n =
    [0x2E, 0x2E] then before.dropLast else before ++ [n]) []

/-- Whether the dot components stay below the root, with the depth so far.
-/
def staysBelow : Nat → List Wide → Bool
  | _, [] => true
  | depth, n :: names =>
    if n = [0x2E] then staysBelow depth names
    else if n = [0x2E, 0x2E] then decide (0 < depth) && staysBelow (depth - 1) names
    else staysBelow (depth + 1) names

/-- Where a path leads. -/
inductive DirsLocation
  | drive (letter : UInt16) (names : List Wide)
  | unc (server share : Wide) (names : List Wide)

def RootSpelling.resolved (s : RootSpelling) (names : List SpelledName) : List Wide :=
  if s.verbatim then names.map SpelledName.name else resolveNames (names.map SpelledName.name)

def RootSpelling.location (s : RootSpelling) : DirsLocation :=
  match s with
  | .drive letter names _ => .drive letter (s.resolved names)
  | .unc _ _ server share names _ => .unc server share.name (s.resolved names)
  | .extendedDrive _ _ _ letter names _ => .drive letter (s.resolved names)
  | .extendedUnc _ _ _ _ server share names _ => .unc server.name share.name (s.resolved names)

def wideUnc : Wide := wideAscii "UNC"

/-- The letters of the UNC prefix, in the case in which they are written. -/
def RootSpelling.letters : RootSpelling → Wide
  | .extendedUnc _ _ _ letters _ _ _ _ => letters
  | _ => wideUnc

def wideLetter (u : UInt16) : Prop := 0x41 ≤ u ∧ u ≤ 0x5A ∨ 0x61 ≤ u ∧ u ≤ 0x7A

/-- A server or a share. -/
structure ShareName (n : Wide) : Prop where
  name : DirsName n
  noDot : dotName n = false
  noPrefix : n ≠ [0x3F]

/-- What a path with the extended prefix has to be: as it is meant where the
prefix has backslashes only, else without dot components above the root. -/
def ExtendedRest (a b c : Bool) (fixed names : List SpelledName) (trailing : List Bool) : Prop :=
  if !a && !b && !c then (∀ p ∈ fixed ++ names, p.Plain) ∧ ∀ t ∈ trailing, t = false
  else staysBelow 0 (names.map SpelledName.name) = true

/-- An absolute path whose names have no separators. -/
def RootSpelling.Valid : RootSpelling → Prop
  | .drive letter names trailing =>
    wideLetter letter ∧ (∀ p ∈ names, DirsName p.name) ∧ (names = [] → trailing ≠ [])
  | .unc _ _ server share names _ => ShareName server ∧ ShareName share.name ∧ ∀ p ∈ names, DirsName p.name
  | .extendedDrive a b c letter names trailing =>
    wideLetter letter ∧ (∀ p ∈ names, DirsName p.name) ∧ (names = [] → trailing ≠ []) ∧
      ExtendedRest a b c [] names trailing
  | .extendedUnc a b c letters server share names trailing =>
    letters.map wideLower = wideAscii "unc" ∧ ShareName server.name ∧ ShareName share.name ∧
      (∀ p ∈ names, DirsName p.name) ∧ ExtendedRest a b c [server, share] names trailing

def wideJoined (names : List Wide) : Wide := names.flatMap (wideSlash :: ·)

/-- A location with backslashes and no separator at the end. -/
def DirsLocation.plain : DirsLocation → Wide
  | .drive letter names => letter :: wideColon :: wideJoined names
  | .unc server share names => wideSlash :: wideJoined (server :: share :: names)

def DirsLocation.extended (letters : Wide) : DirsLocation → Wide
  | .drive letter names => extendedPrefix ++ letter :: wideColon :: wideJoined names
  | .unc server share names => extendedPrefix ++ (letters ++ wideJoined (server :: share :: names))

def DirsLocation.isDriveRoot : DirsLocation → Bool
  | .drive _ names => names.isEmpty
  | .unc _ _ _ => false

def DirsLocation.isUnc : DirsLocation → Bool
  | .drive _ _ => false
  | .unc _ _ _ => true

/-- The separator that a drive root keeps. -/
def DirsLocation.kept (l : DirsLocation) : Wide := if l.isDriveRoot then [wideSlash] else []

def wideSlashed (w : Wide) : Wide := w.map fun u => if u = wideSlash then 0x2F else u

/-- A location with forward slashes. -/
def DirsLocation.shown (l : DirsLocation) : Wide := wideSlashed (l.plain ++ l.kept)

/-- The full path, with some separators at its end. -/
def RootSpelling.full (s : RootSpelling) (trailing : Nat) : Wide :=
  (match s with
    | .drive _ _ _ => s.location.plain
    | .unc _ _ _ _ _ _ => s.location.plain
    | .extendedDrive _ _ _ _ _ _ => s.location.extended s.letters
    | .extendedUnc _ _ _ _ _ _ _ _ => s.location.extended s.letters) ++ List.replicate trailing wideSlash

/-- `GetFullPathNameW` returns the absolute path of a root with backslashes,
where it is asked at all. -/
def FullPathName.Tells (g : FullPathName) (s : RootSpelling) : Prop :=
  s.verbatim = false → ∃ n, (s.location.isDriveRoot = true → 0 < n) ∧ g.need s.text = (s.full n).length + 1 ∧
    g.fill s.text (g.need s.text) = ((s.full n).length, s.full n)

end Machteld
