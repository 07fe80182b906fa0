import Mathlib.Logic.Function.Basic
import Machteld.Publish.State

namespace Machteld

/-- Names with the files they stand for, and the open handles, each with its
file and the name it follows. The last four fields are a record: the markers
made with the names they got, the files that a successful `ReplaceFileW`
moved to the backup name, and the files whose name a call has deleted. -/
structure PublishWorld (Path : Type) where
  names : Path → Option FileId
  attrs : FileId → FileAttrs
  volume : FileId → Nat
  handles : Nat → Option (FileId × Option Path)
  nextHandle : Nat
  nextFile : FileId
  made : List FileId
  reserved : List Path
  displaced : List FileId
  deleted : List FileId

/-- How a call ends. A failing `ReplaceFileW` may have lost what had the
backup name, or have moved the old destination there. -/
inductive PublishChoice
  | works
  | fails (error : Nat)
  | loses (error : Nat)
  | moves (error : Nat)
  | random (bytes : Bytes)

/-- What other processes do. -/
inductive PublishMove (Path : Type)
  | create (path : Path) (attrs : FileAttrs)
  | delete (path : Path)
  | rename (source target : Path) (replace : Bool)

namespace PublishWorld

variable {Path : Type} [DecidableEq Path]

/-- A name is gone, and handles no longer follow it. -/
def unlink (w : PublishWorld Path) (path : Path) : PublishWorld Path :=
  { w with
    names := Function.update w.names path none
    handles := fun h => (w.handles h).map fun r => (r.1, if r.2 = some path then none else r.2) }

/-- A name is another one, and handles follow it. -/
def rename (w : PublishWorld Path) (source target : Path) : PublishWorld Path :=
  { w with
    names := Function.update (Function.update w.names source none) target (w.names source)
    handles := fun h => (w.handles h).map fun r => (r.1, if r.2 = some source then some target else r.2) }

/-- A name is deleted by a call. -/
def remove (w : PublishWorld Path) (path : Path) : PublishWorld Path :=
  match w.names path with
  | none => w
  | some f => { w.unlink path with deleted := f :: w.deleted }

def opened (w : PublishWorld Path) (path : Path) (f : FileId) : PublishWorld Path :=
  { w with handles := Function.update w.handles w.nextHandle (some (f, some path)), nextHandle := w.nextHandle + 1 }

def closed (w : PublishWorld Path) (h : Nat) : PublishWorld Path :=
  { w with handles := Function.update w.handles h none }

/-- A new file without contents. -/
def made' (w : PublishWorld Path) (path : Path) (attrs : FileAttrs) : PublishWorld Path :=
  { w with
    names := Function.update w.names path (some w.nextFile)
    attrs := Function.update w.attrs w.nextFile attrs
    nextFile := w.nextFile + 1 }

def regularAttrs : FileAttrs := ⟨true, false, false, false⟩

/-- A marker. -/
def marked (w : PublishWorld Path) (path : Path) : PublishWorld Path :=
  { w.made' path regularAttrs with made := w.nextFile :: w.made, reserved := path :: w.reserved }

/-- The name a handle follows is deleted. -/
def disposed (w : PublishWorld Path) (h : Nat) : PublishWorld Path :=
  match w.handles h with
  | some (_, some path) => w.remove path
  | _ => w

/-- The first half of `ReplaceFileW`. -/
def backedUp (w : PublishWorld Path) (replaced backup : Path) : PublishWorld Path :=
  (w.remove backup).rename replaced backup

/-- `ReplaceFileW` as a whole. -/
def replaced (w : PublishWorld Path) (destination candidate backup : Path) (f : FileId) : PublishWorld Path :=
  { (w.backedUp destination backup).rename candidate destination with displaced := f :: w.displaced }

def writable (w : PublishWorld Path) (f : FileId) : PublishWorld Path :=
  { w with attrs := Function.update w.attrs f { w.attrs f with readonly := false } }

end PublishWorld

section

variable {Path : Type} [DecidableEq Path]

/-- `ReplaceFileW` opens the replacement for itself alone: it is another
file than the replaced one, which is open. -/
def publishReplaces (w : PublishWorld Path) (destination candidate backup : Path) :
    PublishChoice → Option (Except Nat Unit × PublishWorld Path)
  | .fails e => some (.error e, w)
  | choice =>
    match w.names destination, w.names candidate with
    | some f, some g =>
      if f ≠ g ∧ backup ≠ destination ∧ backup ≠ candidate then
        match choice with
        | .works => some (.ok (), w.replaced destination candidate backup f)
        | .loses e => some (.error e, w.remove backup)
        | .moves e => some (.error e, w.backedUp destination backup)
        | _ => none
      else none
    | _, _ => none

def publishAct (c : PublishCall Path) (choice : PublishChoice) (w : PublishWorld Path) :
    Option (c.Answer × PublishWorld Path) :=
  match c with
  | .openExisting path =>
    match choice, w.names path with
    | .works, some f => some (.ok w.nextHandle, w.opened path f)
    | .fails e, _ => some (.error e, w)
    | _, _ => none
  | .createNew path =>
    match choice, w.names path with
    | .works, none => some (.ok w.nextHandle, (w.marked path).opened path w.nextFile)
    | .fails e, _ => some (.error e, w)
    | _, _ => none
  | .getFileType h =>
    match choice with
    | .works => some (((w.handles h).map fun r => (w.attrs r.1).disk).getD false, w)
    | .fails _ => some (false, w)
    | _ => none
  | .getFileInformation h =>
    match choice, w.handles h with
    | .works, some (f, _) => some (.ok (w.attrs f, w.volume f, f), w)
    | .fails e, _ => some (.error e, w)
    | _, _ => none
  | .getAttributeTag h =>
    match choice, w.handles h with
    | .works, some (f, _) => some (.ok (w.attrs f), w)
    | .fails e, _ => some (.error e, w)
    | _, _ => none
  | .getFileIdInfo h =>
    match choice, w.handles h with
    | .works, some (f, _) => some (.ok (w.volume f, f), w)
    | .fails e, _ => some (.error e, w)
    | _, _ => none
  | .closeHandle h => some ((), w.closed h)
  | .deleteFile path =>
    match choice with
    | .works => some (.ok (), w.remove path)
    | .fails e => some (.error e, w)
    | _ => none
  | .getBasicInfo h =>
    match choice, w.handles h with
    | .works, some (f, _) => some (.ok (w.attrs f), w)
    | .fails e, _ => some (.error e, w)
    | _, _ => none
  | .setBasicInfo h =>
    match choice, w.handles h with
    | .works, some (f, _) => some (.ok (), w.writable f)
    | .fails e, _ => some (.error e, w)
    | _, _ => none
  | .setDisposition h =>
    match choice with
    | .works => some (.ok (), w.disposed h)
    | .fails e => some (.error e, w)
    | _ => none
  | .moveFile source target =>
    match choice, w.names source, w.names target with
    | .works, some _, none => some (.ok (), w.rename source target)
    | .fails e, _, _ => some (.error e, w)
    | _, _, _ => none
  | .replaceFile destination candidate backup => publishReplaces w destination candidate backup choice
  | .genRandom =>
    match choice with
    | .random bytes => some (some bytes, w)
    | .fails _ => some (none, w)
    | _ => none
  | .malloc =>
    match choice with
    | .works => some (true, w)
    | .fails _ => some (false, w)
    | _ => none

def publishMove (m : PublishMove Path) (w : PublishWorld Path) : Option (PublishWorld Path) :=
  match m with
  | .create path attrs => if w.names path = none then some (w.made' path attrs) else none
  | .delete path => if w.names path = none then none else some (w.unlink path)
  | .rename source target replace =>
    if w.names source = none ∨ source = target then none
    else if w.names target = none then some (w.rename source target)
    else if replace then some ((w.unlink target).rename source target)
    else none

/-- The file system under publication: other processes may be there or not,
and the calls may be those alone that meet a condition. -/
def publishHost (others : Bool) (meets : PublishCall Path → PublishChoice → PublishWorld Path → Bool) :
    Host (PublishCall Path) PublishCall.Answer where
  World := PublishWorld Path
  Choice := PublishChoice
  act c choice w := if meets c choice w then publishAct c choice w else none
  Move := PublishMove Path
  move m w := if others then publishMove m w else none

end

end Machteld
