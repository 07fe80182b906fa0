import Machteld.DepthFirst
import Machteld.Dirs.Walk
import Mathlib.Logic.Function.Basic

namespace Machteld

/-- An enumeration: its buffers and the error it ends with. -/
structure DirStream where
  first : DirBatch
  more : List DirBatch
  last : Nat

/-- A system that nobody changes, by what it answers: the error of an open,
what the handle of a path tells, what is in it for some size of the buffer,
the record in the parent, the target of a link and the number of links. -/
structure DirsFs where
  opened : Wide → Bool → Option Nat
  attributes : Wide → Bool → Except Nat AttributeTag
  stream : Wide → Bool → Nat → Except Nat DirStream
  found : Wide → Option AttributeTag
  target : Wide → Bool → Option Bytes
  links : Wide → Except Nat Nat

/-- What is left of the enumeration of each handle. -/
abbrev DirsPending := Wide × Bool → List DirBatch × Nat

def DirsFs.act (fs : DirsFs) : (c : DirsCall (Wide × Bool)) → DirsPending → c.Answer × DirsPending
  | .createFile path follow, v =>
    match fs.opened path follow with
    | some e => (.error e, v)
    | none => (.ok (path, follow), v)
  | .attributeTag h, v => (fs.attributes h.1 h.2, v)
  | .restart h bufsz, v =>
    match fs.stream h.1 h.2 bufsz with
    | .error e => (.error e, v)
    | .ok s => (.ok s.first, Function.update v h (s.more, s.last))
  | .next h _, v =>
    match v h with
    | ([], last) => (.error last, v)
    | (batch :: more, last) => (.ok batch, Function.update v h (more, last))
  | .closeHandle _, v => ((), v)
  | .findFirst path, v => (fs.found path, v)
  | .linkTarget path isdir, v => (fs.target path isdir, v)
  | .linkCount path, v => (fs.links path, v)

def dirsHost (fs : DirsFs) : Host (DirsCall (Wide × Bool)) DirsCall.Answer where
  World := DirsPending
  Choice := Unit
  act c _ v := some (fs.act c v)
  Move := Empty
  move m _ := m.elim

/-- The directories that are looked at, apart from the directory itself and
its parent. -/
def DirEntry.subdirectory (e : DirEntry) : Bool := e.directory && !dotName e.name

def dirsKids (o : DirsOptions) (es : List DirEntry) : List DirsChild :=
  (es.filter DirEntry.subdirectory).filterMap (dirsChild o)

/-- The names that are not converted. -/
def dirsBad (o : DirsOptions) (es : List DirEntry) : Nat :=
  (es.filter DirEntry.subdirectory).countP fun e => (dirsChild o e).isNone

/-- The first answer that is not about the size of the buffer. -/
def dirsGrown {α : Type} (answer : Nat → Except Nat α) : Nat → Nat → Except Nat α
  | 0, bufsz => answer bufsz
  | k + 1, bufsz =>
    match answer bufsz with
    | .ok a => .ok a
    | .error e => if e = errorMoreData ∨ e = errorNotEnoughMemory then dirsGrown answer k (bufsz * 2) else .error e

/-- What is read of an enumeration, with its error rows. -/
def dirsRead (last : Nat) : DirBatch → List DirBatch → List DirEntry × List Nat
  | batch, [] =>
    (batch.entries, if batch.overrun then [errorInvalidData] else if last = errorNoMoreFiles then [] else [last])
  | batch, next :: more =>
    if batch.overrun then (batch.entries, [errorInvalidData])
    else (batch.entries ++ (dirsRead last next more).1, (dirsRead last next more).2)

/-- The listing of a directory, with the errors in the middle of it. -/
def DirsFs.listing (fs : DirsFs) (path : Wide) (follow : Bool) : Except Nat (List DirEntry × List Nat) :=
  match dirsGrown (fs.stream path follow) 8 65536 with
  | .error e => if e = errorNoMoreFiles then .ok ([], []) else .error e
  | .ok s => .ok (dirsRead s.last s.first s.more)

/-- How a directory is opened: the item as its handle tells it, and whether
its reparse point is followed or why it is not opened. -/
def DirsFs.opening (fs : DirsFs) (it : DirsItem) : DirsItem × Except (DirsAction × List Nat) Bool :=
  match fs.opened it.path (decide (it.depth = 0)) with
  | some e => (it, .error (.failed, [e]))
  | none =>
    if it.depth = 0 then (it, .ok true)
    else
      match fs.attributes it.path false with
      | .error _ => (it, .ok false)
      | .ok info =>
        if info.reparse then
          if dirsIsname info.tag then (it.classified info.tag, .error (.nofollow, []))
          else
            match fs.opened it.path true with
            | some e => (it.classified info.tag, .error (.failed, [e]))
            | none => (it.classified info.tag, .ok true)
        else (it, .ok false)

/-- What becomes of a directory: the item in the end, the action, the
entries that are seen, the errors of its rows and the children. -/
structure DirsReport where
  item : DirsItem
  action : DirsAction
  seen : List DirEntry
  errors : List Nat
  kids : List DirsChild

/-- The policy of the walk. -/
def DirsFs.report (fs : DirsFs) (o : DirsOptions) (it : DirsItem) : DirsReport :=
  match dirsRefusal o it with
  | some action => ⟨it, action, [], [], []⟩
  | none =>
    match fs.opening it with
    | (it, .error (action, errors)) => ⟨it, action, [], errors, []⟩
    | (it, .ok follow) =>
      match fs.listing it.path follow with
      | .error e => ⟨it, .failed, [], [e], []⟩
      | .ok (es, errors) =>
        ⟨it, .descended, es, errors ++ List.replicate (dirsBad o es) errorNoUnicodeTranslation,
          (dirsKids o es).insertionSort fun x y => dirsNamecmp x y = true⟩

section

variable {fs : DirsFs} {o : DirsOptions} {it it' : DirsItem}

theorem DirsFs.report_refused {action : DirsAction} (refused : dirsRefusal o it = some action) :
    fs.report o it = ⟨it, action, [], [], []⟩ := by rw [report, refused]

theorem DirsFs.report_unopened {action : DirsAction} {errors : List Nat} (kept : dirsRefusal o it = none)
    (unopened : fs.opening it = (it', .error (action, errors))) :
    fs.report o it = ⟨it', action, [], errors, []⟩ := by
  rw [report, kept, unopened]

theorem DirsFs.report_unlisted {follow : Bool} {e : Nat} (kept : dirsRefusal o it = none)
    (opened : fs.opening it = (it', .ok follow)) (unlisted : fs.listing it'.path follow = .error e) :
    fs.report o it = ⟨it', .failed, [], [e], []⟩ := by
  simp only [report, kept, opened, unlisted]

theorem DirsFs.report_listed {follow : Bool} {es : List DirEntry} {errors : List Nat}
    (kept : dirsRefusal o it = none)
    (opened : fs.opening it = (it', .ok follow)) (listed : fs.listing it'.path follow = .ok (es, errors)) :
    fs.report o it = ⟨it', .descended, es, errors ++ List.replicate (dirsBad o es) errorNoUnicodeTranslation,
      (dirsKids o es).insertionSort fun x y => dirsNamecmp x y = true⟩ := by
  simp only [report, kept, opened, listed]

/-- A handle does not move an item. -/
theorem DirsFs.opening_placed (fs : DirsFs) (it : DirsItem) :
    (fs.opening it).1.path = it.path ∧ (fs.opening it).1.depth = it.depth := by
  unfold DirsFs.opening
  split
  · exact ⟨rfl, rfl⟩
  · split
    · exact ⟨rfl, rfl⟩
    · split
      · exact ⟨rfl, rfl⟩
      · split
        · split
          · exact ⟨rfl, rfl⟩
          · split <;> exact ⟨rfl, rfl⟩
        · exact ⟨rfl, rfl⟩

/-- What is not opened is a name for something else or has failed with an
error. -/
theorem DirsFs.opening_error {action : DirsAction} {errors : List Nat}
    (unopened : fs.opening it = (it', .error (action, errors))) :
    action = .nofollow ∧ errors = [] ∧ it'.reparse = true ∨ action = .failed ∧ errors ≠ [] := by
  unfold DirsFs.opening at unopened
  split at unopened
  · cases unopened
    exact .inr ⟨rfl, List.cons_ne_nil _ _⟩
  · split at unopened
    · cases unopened
    · split at unopened
      · cases unopened
      · split at unopened
        · split at unopened
          · cases unopened
            exact .inl ⟨rfl, rfl, rfl⟩
          · split at unopened
            · cases unopened
              exact .inr ⟨rfl, List.cons_ne_nil _ _⟩
            · cases unopened
        · cases unopened

end

def DirsFs.kids (fs : DirsFs) (o : DirsOptions) (it : DirsItem) : List DirsItem :=
  (fs.report o it).kids.map fun k => k.item (fs.report o it).item

/-- The row of a reparse directory. -/
def DirsReport.row (r : DirsReport) (shown : Option Bytes) : DirsLinkRow :=
  ⟨shown.getD [], r.item.tag, r.item.surrogate, r.action⟩

/-- `links_record` -/
def DirsFs.recorded (fs : DirsFs) (o : DirsOptions) (w : DirsWalk) (full : Wide)
    (shown : Option Bytes) (tag : UInt32)
    (isdir : Bool) : DirsWalk :=
  let target := fs.target full isdir
  let type := linksType tag isdir
  let w := { w with entries := w.entries ++ [⟨shown.getD [], type.getD [], target.getD [], tag⟩] }
  if type = none then w.fault o full errorNotSupported else if target =
    none then w.fault o full errorInvalidData else w

/-- What `links_nlinks` says of a file. -/
def DirsFs.nlinks (fs : DirsFs) (path : Wide) : Except Nat Nat := nlinksOf (fs.links path)

/-- A file that is asked for its links. -/
def DirsFs.counted (fs : DirsFs) (o : DirsOptions) (w : DirsWalk) (full : Wide) : DirsWalk :=
  match fs.nlinks full with
  | .error e => w.fault o full e
  | .ok n =>
    if 1 < n then { w with multilink := w.multilink + 1, multi := w.multi ++
      [((dirsStrip o.unc full).getD [], n)] } else w

/-- An entry that is a file. -/
def DirsFs.filed (fs : DirsFs) (o : DirsOptions) (path : Wide) (w : DirsWalk) (e : DirEntry) : DirsWalk :=
  match o.mode with
  | .dirs => w
  | .links =>
    let w := { w with files := w.files + 1 }
    let full := dirsJoin path e.name
    if dotName e.name then w
    else if e.reparse then
      if dirsIsname e.eaSize then fs.recorded o w full (dirsStrip o.unc full) e.eaSize false else w
    else if o.hardlinks then fs.counted o w full
    else w

/-- An entry of either kind. -/
def DirsFs.looked (fs : DirsFs) (o : DirsOptions) (path : Wide) (w : DirsWalk) (e : DirEntry) : DirsWalk :=
  if e.directory then w else fs.filed o path w e

/-- The counters, the files and the error rows of a directory. -/
def DirsFs.booked (fs : DirsFs) (o : DirsOptions) (w : DirsWalk) (path : Wide) (r : DirsReport) : DirsWalk :=
  match r.action with
  | .depthlimited => { w with depthlimited := w.depthlimited + 1 }
  | .pruned => { w with pruned := w.pruned + 1 }
  | _ => (r.seen.foldl (fs.looked o path) w).faults o path r.errors

/-- The rows of a reparse directory. -/
def DirsFs.disclosed (fs : DirsFs) (o : DirsOptions) (w : DirsWalk) (path : Wide) (r : DirsReport)
    (shown : Option Bytes) :
    DirsWalk :=
  if r.item.reparse then
    let w := { w with links := w.links ++ [r.row shown] }
    match o.mode with
    | .dirs => w
    | .links =>
      if dirsIsname r.item.tag then fs.recorded o w path shown r.item.tag true
      else if r.action = .descended then { w with entered := w.entered ++ [r.row shown] }
      else w
  else w

/-- The tally of a walk that meets one more directory. -/
def DirsFs.note (fs : DirsFs) (o : DirsOptions) (w : DirsWalk) (it : DirsItem) : DirsWalk :=
  let shown := dirsStrip o.unc it.path
  fs.disclosed o (fs.booked o (w.emit o it shown) it.path (fs.report o it)) it.path (fs.report o it) shown

/-- What the handle of the root itself tells: its tag, and the error where
that fails. -/
def DirsFs.rootTag (fs : DirsFs) (rootw : Wide) : Option UInt32 × Option Nat :=
  match fs.opened rootw false with
  | some e => (none, some e)
  | none =>
    match fs.attributes rootw false with
    | .error e => (none, some e)
    | .ok info => (if info.reparse then some info.tag else none, none)

/-- The tag of the root in the end. -/
def DirsFs.rootScanned (fs : DirsFs) (rootw : Wide) : Option UInt32 :=
  match (fs.rootTag rootw).1 with
  | some tag => some tag
  | none => (fs.found rootw).bind fun info => if info.reparse && info.directory then some info.tag else none

def DirsFs.root (fs : DirsFs) (rootw : Wide) : DirsItem :=
  dirsRoot rootw (fs.rootScanned rootw).isSome ((fs.rootScanned rootw).getD 0)

/-- The tally before the walk, with the row of a root that cannot be
classified. -/
def DirsFs.rootWalk (fs : DirsFs) (o : DirsOptions) (rootw : Wide) : DirsWalk :=
  match (fs.rootTag rootw).2 with
  | some e => DirsWalk.init.fault o rootw e
  | none => DirsWalk.init

/-- A root that is a directory. -/
structure DirsFs.Opens (fs : DirsFs) (rootw : Wide) : Prop where
  opened : fs.opened rootw true = none
  directory : ∃ info, fs.attributes rootw true = .ok info ∧ info.directory = true

end Machteld
