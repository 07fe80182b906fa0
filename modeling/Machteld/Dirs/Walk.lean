import Machteld.Json.Value
import Machteld.Prog
import Machteld.Utf16
import Mathlib.Data.List.Sort

namespace Machteld

abbrev Wide := List UInt16

abbrev wideSlash : UInt16 := 0x5C

def dirsSurrogate : UInt32 := 0x20000000

def dirsTagDfs : UInt32 := 0x8000000A

def dirsTagDfsr : UInt32 := 0x80000012

def dirsHasSurrogate (tag : UInt32) : Bool := decide (tag &&& dirsSurrogate ≠ 0)

/-- `dirs_isname` -/
def dirsIsname (tag : UInt32) : Bool :=
  dirsHasSurrogate tag || decide (tag = dirsTagDfs) || decide (tag = dirsTagDfsr)

def errorAccessDenied : Nat := 5

def errorNotSupported : Nat := 50

def errorMoreData : Nat := 234

def errorNoUnicodeTranslation : Nat := 1113

/-- `FILE_ATTRIBUTE_TAG_INFO` -/
structure AttributeTag where
  directory : Bool
  reparse : Bool
  tag : UInt32

/-- `FILE_ID_BOTH_DIR_INFO`, as far as it is looked at. -/
structure DirEntry where
  name : Wide
  directory : Bool
  reparse : Bool
  eaSize : UInt32

/-- What an enumeration call leaves in the buffer: a chain of entries, and
whether it leaves the buffer behind them. -/
structure DirBatch where
  entries : List DirEntry
  overrun : Bool

/-- The calls of the walk, with handles of some kind. The last two are
`links_target` and `links_nlinks`. -/
inductive DirsCall (H : Type)
  | createFile (path : Wide) (follow : Bool)
  | attributeTag (h : H)
  | restart (h : H) (bufsz : Nat)
  | next (h : H) (bufsz : Nat)
  | closeHandle (h : H)
  | findFirst (path : Wide)
  | linkTarget (path : Wide) (isdir : Bool)
  | linkCount (path : Wide)

abbrev DirsCall.Answer {H : Type} : DirsCall H → Type
  | .createFile _ _ => Except Nat H
  | .attributeTag _ => Except Nat AttributeTag
  | .restart _ _ => Except Nat DirBatch
  | .next _ _ => Except Nat DirBatch
  | .closeHandle _ => Unit
  | .findFirst _ => Option AttributeTag
  | .linkTarget _ _ => Option Bytes
  | .linkCount _ => Except Nat Nat

abbrev DirsProg (H α : Type) := Prog (DirsCall H) DirsCall.Answer α

section

variable {H : Type}

/-- `dirs_open` -/
def dirsOpen (path : Wide) (follow : Bool) : DirsProg H (Except Nat H) := .call (.createFile path follow) .done

def attributeTagInfo (h : H) : DirsProg H (Except Nat AttributeTag) := .call (.attributeTag h) .done

def restartInfo (h : H) (bufsz : Nat) : DirsProg H (Except Nat DirBatch) := .call (.restart h bufsz) .done

def nextInfo (h : H) (bufsz : Nat) : DirsProg H (Except Nat DirBatch) := .call (.next h bufsz) .done

def closeHandle (h : H) : DirsProg H Unit := .call (.closeHandle h) .done

def findFirstFile (path : Wide) : DirsProg H (Option AttributeTag) := .call (.findFirst path) .done

/-- `links_target` -/
def linksTarget (path : Wide) (isdir : Bool) : DirsProg H (Option Bytes) := .call (.linkTarget path isdir) .done

/-- A count of zero links is a failure, with an error of its own. -/
def nlinksOf : Except Nat Nat → Except Nat Nat
  | .ok 0 => .error errorAccessDenied
  | answer => answer

/-- `links_nlinks` -/
def linksNlinks (path : Wide) : DirsProg H (Except Nat Nat) :=
  .call (.linkCount path) fun answer => .done (nlinksOf answer)

end

structure DirsItem where
  path : Wide
  depth : Nat
  reparse : Bool
  tag : UInt32
  surrogate : Bool
  noenter : Bool
  pruned : Bool

structure DirsChild where
  name : Bytes
  wname : Wide
  tag : UInt32
  reparse : Bool
  surrogate : Bool
  noenter : Bool
  pruned : Bool

inductive DirsMode
  | dirs
  | links
deriving DecidableEq

/-- What the caller asks for, with the texts of `FormatMessage` and the
matcher of Tcl. No cap is -1. -/
structure DirsOptions where
  mode : DirsMode
  depthcap : Option Nat
  prune : List Bytes
  hardlinks : Bool
  unc : Bool
  reason : Nat → Bytes
  caseMatch : Bytes → Bytes → Bool

inductive DirsAction
  | descended
  | depthlimited
  | pruned
  | nofollow
  | failed
deriving DecidableEq

structure DirsLinkRow where
  path : Bytes
  tag : UInt32
  surrogate : Bool
  action : DirsAction

structure DirsErrRow where
  path : Bytes
  win32 : Nat
  reason : Bytes

/-- A row of `links`: a type or a target that is not known is empty. -/
structure LinksEntry where
  path : Bytes
  type : Bytes
  target : Bytes
  tag : UInt32

structure DirsWalk where
  paths : List Bytes
  links : List DirsLinkRow
  errors : List DirsErrRow
  count : Nat
  pruned : Nat
  depthlimited : Nat
  maxdepth : Nat
  entries : List LinksEntry
  multi : List (Bytes × Nat)
  entered : List DirsLinkRow
  files : Nat
  multilink : Nat

/-- `dirs_init` -/
def DirsWalk.init : DirsWalk := ⟨[], [], [], 0, 0, 0, 0, [], [], [], 0, 0⟩

/-- `dirs_join` -/
def dirsJoin (parent name : Wide) : Wide :=
  parent ++ ((if parent ≠ [] ∧ parent.getLast? ≠ some wideSlash then [wideSlash] else []) ++ name)

/-- `dirs_strip` -/
def dirsStrip (unc : Bool) (path : Wide) : Option Bytes :=
  (Utf16.decode (path.drop (if unc then 8 else 4))).map fun cs =>
    ((if unc then [0x2F, 0x2F] else []) ++ cs.flatMap Utf8.encode).map fun c => if c = backslash then 0x2F else c

/-- `dirs_namecmp`, as far as it is below or equal. -/
def dirsNamecmp (x y : DirsChild) : Bool := (compare (cString x.name) (cString y.name)).isLE

/-- `links_type` -/
def linksType (tag : UInt32) (isdir : Bool) : Option Bytes :=
  if tag = 0xA000000C then some (ascii (if isdir then "directory symlink" else "file symlink"))
  else if tag = 0xA0000003 then some (ascii "junction")
  else none

section

variable {H : Type} (o : DirsOptions)

/-- `dirs_fault` -/
def DirsWalk.fault (w : DirsWalk) (path : Wide) (e : Nat) : DirsWalk :=
  { w with errors := w.errors ++ [⟨(dirsStrip o.unc path).getD [], e, o.reason e⟩] }

def DirsWalk.faults (w : DirsWalk) (path : Wide) (es : List Nat) : DirsWalk :=
  es.foldl (fun w e => w.fault o path e) w

/-- `links_record` -/
def linksRecord (w : DirsWalk) (full : Wide) (shown : Option Bytes) (tag : UInt32) (isdir : Bool) :
    DirsProg H DirsWalk := do
  let target ← linksTarget full isdir
  let type := linksType tag isdir
  let w := { w with entries := w.entries ++ [⟨shown.getD [], type.getD [], target.getD [], tag⟩] }
  return if type = none then w.fault o full errorNotSupported
    else if target = none then w.fault o full errorInvalidData
    else w

def dotName (name : Wide) : Bool := decide (name = [0x2E]) || decide (name = [0x2E, 0x2E])

/-- A file of a directory that is enumerated. -/
def dirsFile (it : DirsItem) (w : DirsWalk) (e : DirEntry) : DirsProg H DirsWalk :=
  match o.mode with
  | .dirs => return w
  | .links => do
    let w := { w with files := w.files + 1 }
    if dotName e.name then return w
    let fp := dirsJoin it.path e.name
    let fshown := dirsStrip o.unc fp
    if e.reparse then
      if dirsIsname e.eaSize then linksRecord o w fp fshown e.eaSize false else return w
    else if o.hardlinks then
      match ← linksNlinks fp with
      | .error err => return w.fault o fp err
      | .ok nl =>
        return if 1 < nl then { w with multilink := w.multilink + 1, multi := w.multi ++
          [(fshown.getD [], nl)] } else w
    else return w

/-- The child an entry makes; none where its name cannot be converted. -/
def dirsChild (e : DirEntry) : Option DirsChild :=
  (mtWideToUtf8 true e.name).map fun name =>
    { name := name
      wname := e.name
      tag := if e.reparse then e.eaSize else 0
      reparse := e.reparse
      surrogate := e.reparse && dirsHasSurrogate e.eaSize
      noenter := e.reparse && dirsIsname e.eaSize
      pruned := o.prune.any fun pattern => o.caseMatch name pattern }

/-- What `dirs_children` has so far: the walk, the children and the number
of names that could not be converted. -/
structure DirsScan where
  walk : DirsWalk
  kids : List DirsChild
  badName : Nat

/-- One entry of a buffer. -/
def dirsEntry (it : DirsItem) (s : DirsScan) (e : DirEntry) : DirsProg H DirsScan :=
  if e.directory then
    if dotName e.name then return s
    else
      match dirsChild o e with
      | some k => return { s with kids := s.kids ++ [k] }
      | none => return { s with badName := s.badName + 1 }
  else do
    let w ← dirsFile o it s.walk e
    return { s with walk := w }

def dirsEntries (it : DirsItem) : DirsScan → List DirEntry → DirsProg H DirsScan
  | s, [] => return s
  | s, e :: es => do dirsEntries it (← dirsEntry o it s e) es

/-- The restart call, with a buffer that is doubled up to 16 MB where it is
too small. -/
def dirsRestart (h : H) : Nat → Nat → DirsProg H (Except Nat DirBatch × Nat)
  | 0, bufsz => do return (← restartInfo h bufsz, bufsz)
  | k + 1, bufsz => do
    match ← restartInfo h bufsz with
    | .ok batch => return (.ok batch, bufsz)
    | .error e =>
      if e = errorMoreData ∨ e = errorNotEnoughMemory then dirsRestart h k (bufsz * 2) else return (.error e, bufsz)

/-- A turn of the loop over the buffers: it ends with the error rows of the
enumeration itself. -/
def dirsBatchTurn (it : DirsItem) (h : H) (bufsz : Nat) :
    DirsScan × DirBatch → DirsProg H ((DirsScan × DirBatch) ⊕ (DirsScan × List Nat)) := fun (s, batch) => do
  let s ← dirsEntries o it s batch.entries
  if batch.overrun then return .inr (s, [errorInvalidData])
  match ← nextInfo h bufsz with
  | .ok batch => return .inl (s, batch)
  | .error last => return .inr (s, if last = errorNoMoreFiles then [] else [last])

/-- `dirs_children`, where memory is not short. -/
def dirsChildren (w : DirsWalk) (h : H) (it : DirsItem) : DirsProg H (DirsWalk × Option (List DirsChild)) := do
  match ← dirsRestart h 8 65536 with
  | (.error e, _) =>
    if e = errorNoMoreFiles then return (w, some []) else return (w.fault o it.path e, none)
  | (.ok batch, bufsz) =>
    let (s, es) ← Prog.iterate (dirsBatchTurn o it h bufsz) (⟨w, [], 0⟩, batch)
    let w := s.walk.faults o it.path (es ++ List.replicate s.badName errorNoUnicodeTranslation)
    return (w, some (s.kids.insertionSort fun x y => dirsNamecmp x y = true))

/-- The reasons for which a directory is not opened, in their order. -/
def dirsRefusal (it : DirsItem) : Option DirsAction :=
  if o.depthcap.any fun cap => decide (cap ≤ it.depth) then some .depthlimited
  else if it.pruned then some .pruned
  else if it.noenter && decide (0 < it.depth) then some .nofollow
  else none

/-- What a handle says about an item. -/
def DirsItem.classified (it : DirsItem) (tag : UInt32) : DirsItem :=
  { it with reparse := true, tag := tag, surrogate := dirsHasSurrogate tag, noenter := dirsIsname tag }

/-- The item and the walk after a directory was opened, with the handle or
the action where there is none. -/
structure DirsOpened (H : Type) where
  item : DirsItem
  walk : DirsWalk
  handle : Except DirsAction H

/-- The opening of a directory, which the root is exempt from the second
half of. -/
def dirsOpenItem (w : DirsWalk) (it : DirsItem) : DirsProg H (DirsOpened H) := do
  match ← dirsOpen it.path (decide (it.depth = 0)) with
  | .error e => return ⟨it, w.fault o it.path e, .error .failed⟩
  | .ok h =>
    if it.depth = 0 then return ⟨it, w, .ok h⟩
    match ← attributeTagInfo h with
    | .error _ => return ⟨it, w, .ok h⟩
    | .ok ati =>
      if ati.reparse then
        closeHandle h
        let it := it.classified ati.tag
        if it.noenter then return ⟨it, w, .error .nofollow⟩
        match ← dirsOpen it.path true with
        | .error e => return ⟨it, w.fault o it.path e, .error .failed⟩
        | .ok h => return ⟨it, w, .ok h⟩
      else return ⟨it, w, .ok h⟩

/-- The item a child is pushed as. -/
def DirsChild.item (parent : DirsItem) (k : DirsChild) : DirsItem where
  path := dirsJoin parent.path k.wname
  depth := parent.depth + 1
  reparse := k.reparse
  tag := k.tag
  surrogate := k.surrogate
  noenter := k.noenter
  pruned := k.pruned

/-- How the visit of a directory ends: the item as it is known by then, the
walk, the action and the children to push. -/
structure DirsVisit where
  item : DirsItem
  walk : DirsWalk
  action : DirsAction
  entered : Bool
  kids : List DirsChild

/-- From the refusals to the enumeration. -/
def dirsDescend (w : DirsWalk) (it : DirsItem) : DirsProg H DirsVisit :=
  match dirsRefusal o it with
  | some .depthlimited => return ⟨it, { w with depthlimited := w.depthlimited + 1 }, .depthlimited, false, []⟩
  | some .pruned => return ⟨it, { w with pruned := w.pruned + 1 }, .pruned, false, []⟩
  | some action => return ⟨it, w, action, false, []⟩
  | none => do
    let opened ← dirsOpenItem o w it
    match opened.handle with
    | .error action => return ⟨opened.item, opened.walk, action, false, []⟩
    | .ok h =>
      let (w, got) ← dirsChildren o opened.walk h opened.item
      closeHandle h
      match got with
      | none => return ⟨opened.item, w, .failed, false, []⟩
      | some kids => return ⟨opened.item, w, .descended, true, kids⟩

/-- The line of a directory, before anything is decided about it. -/
def DirsWalk.emit (w : DirsWalk) (it : DirsItem) (shown : Option Bytes) : DirsWalk :=
  let w := match shown with
    | some s => { w with paths := if o.mode = .dirs then w.paths ++ [s] else w.paths, count := w.count + 1 }
    | none => w.fault o it.path errorNotEnoughMemory
  if w.maxdepth < it.depth then { w with maxdepth := it.depth } else w

/-- The rows of a reparse directory, after everything is decided about it.
-/
def dirsDisclose (v : DirsVisit) (shown : Option Bytes) : DirsProg H DirsWalk :=
  let row : DirsLinkRow := ⟨shown.getD [], v.item.tag, v.item.surrogate, v.action⟩
  if v.item.reparse then
    let w := { v.walk with links := v.walk.links ++ [row] }
    match o.mode with
    | .dirs => return w
    | .links =>
      if dirsIsname v.item.tag then linksRecord o w v.item.path shown v.item.tag true
      else return if v.entered then { w with entered := w.entered ++ [row] } else w
  else return v.walk

/-- One turn of `dirs_walk`: the children are pushed from the last to the
first. -/
def dirsWalkTurn : List DirsItem × DirsWalk → DirsProg H ((List DirsItem × DirsWalk) ⊕ DirsWalk)
  | ([], w) => return .inr w
  | (it :: stack, w) => do
    let shown := dirsStrip o.unc it.path
    let v ← dirsDescend o (w.emit o it shown) it
    let w ← dirsDisclose o v shown
    return .inl (v.kids.foldr (fun k stack => k.item v.item :: stack) stack, w)

/-- The root as it is put on the stack. -/
def dirsRoot (rootw : Wide) (reparse : Bool) (tag : UInt32) : DirsItem where
  path := rootw
  depth := 0
  reparse := reparse
  tag := if reparse then tag else 0
  surrogate := reparse && dirsHasSurrogate tag
  noenter := reparse && dirsIsname tag
  pruned := false

/-- `dirs_walk` -/
def dirsWalk (w : DirsWalk) (rootw : Wide) (reparse : Bool) (tag : UInt32) : DirsProg H DirsWalk :=
  Prog.iterate (dirsWalkTurn o) ([dirsRoot rootw reparse tag], w)

def dirsError (code message : String) : TclError :=
  ⟨ascii message, [ascii "MACHTELD", ascii "DIRS", ascii code]⟩

/-- What the raw handle of the root says: its tag, where it is a reparse
point, and the error where that cannot be told. -/
def dirsRootTag (rootw : Wide) : DirsProg H (Option UInt32 × Option Nat) := do
  match ← dirsOpen rootw false with
  | .error e => return (none, some e)
  | .ok h =>
    let answer ← attributeTagInfo h
    closeHandle h
    match answer with
    | .error e => return (none, some e)
    | .ok info => return (if info.reparse then some info.tag else none, none)

/-- The tag of the root by its handle or else by the scan of its parent. -/
def dirsRootScanned (rootw : Wide) : Option UInt32 → DirsProg H (Option UInt32)
  | some tag => return some tag
  | none => do
    match ← findFirstFile rootw with
    | none => return none
    | some info => return if info.reparse && info.directory then some info.tag else none

/-- `dirs_core`, from the prefixed root on. -/
def dirsCore (rootw : Wide) : DirsProg H (Except TclError DirsWalk) := do
  match ← dirsOpen rootw true with
  | .error _ => return .error (dirsError "notfound" "no such directory")
  | .ok h =>
    let answer ← attributeTagInfo h
    closeHandle h
    match answer with
    | .error _ => return .error (dirsError "notfound" "the root is not a directory")
    | .ok info =>
      if info.directory = false then return .error (dirsError "notfound" "the root is not a directory")
      let (raw, classfail) ← dirsRootTag rootw
      let tag ← dirsRootScanned rootw raw
      let w := match classfail with
        | some e => DirsWalk.init.fault o rootw e
        | none => DirsWalk.init
      return .ok (← dirsWalk o w rootw tag.isSome (tag.getD 0))

end

end Machteld
