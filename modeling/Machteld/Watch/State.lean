import Machteld.Json.Value
import Machteld.Run
import Machteld.Utf16

namespace Machteld

structure WatchEvent where
  action : Nat
  path : Bytes
  deriving DecidableEq

def watchQueueMax : Nat := 8192

/-- What `watch_t` holds. The last two fields are not in it: the watch
thread stands between the lock and `SetEvent` of `watch_fail`; the drops
since the queue was last taken. -/
structure Watch where
  token : Bytes
  dirPath : Option Bytes
  recursive : Bool
  armed : Bool
  failed : Bool
  error : Nat
  ev : List WatchEvent
  cap : Nat
  dropped : Int32
  dataEv : Bool
  signalling : Bool
  lost : Nat

/-- A watch that `watch start` returned. -/
def watchStart (token dirPath : Bytes) (recursive : Bool) : Watch where
  token := token
  dirPath := some dirPath
  recursive := recursive
  armed := true
  failed := false
  error := 0
  ev := []
  cap := 0
  dropped := 0
  dataEv := false
  signalling := false
  lost := 0

/-- Whether each allocation made for one record succeeds. -/
structure WatchAllocs where
  utf8 : Bool
  realloc : Bool
  strdup : Bool

/-- `w->dropped++` -/
def watchDrop (w : Watch) : Watch := { w with dropped := w.dropped + 1, lost := w.lost + 1 }

def watchAppend (w : Watch) (strdup : Bool) (action : Nat) (path : Bytes) : Watch :=
  if strdup then { w with ev := w.ev ++ [⟨action, cString path⟩] } else watchDrop w

def watchPush (w : Watch) (allocs : WatchAllocs) (action : Nat) (path : Bytes) : Watch :=
  if watchQueueMax ≤ w.ev.length then watchDrop w
  else if w.ev.length = w.cap then
    if allocs.realloc then
      watchAppend { w with cap := if w.cap = 0 then 64 else w.cap * 2 } allocs.strdup action path
    else watchDrop w
  else watchAppend w allocs.strdup action path

/-- `for (char *c = u8; *c; c++) { if (*c == '\\') *c = '/'; }` -/
def watchSlashes : Bytes → Bytes
  | [] => []
  | c :: s => if c = 0 then c :: s else (if c = backslash then 0x2F else c) :: watchSlashes s

/-- One record, its length already checked. -/
def watchRecord (w : Watch) (allocs : WatchAllocs) (action : Nat) (name : List UInt16) : Watch :=
  if name = [] then w
  else
    match mtWideToUtf8 allocs.utf8 name with
    | none => watchDrop w
    | some u8 => watchPush w allocs action (watchSlashes u8)

/-- A little-endian DWORD. -/
def dword (buf : Bytes) (off : Nat) : Nat :=
  (buf.getD off 0).toNat + 0x100 * (buf.getD (off + 1) 0).toNat + 0x10000 * (buf.getD (off + 2) 0).toNat +
    0x1000000 * (buf.getD (off + 3) 0).toNat

/-- The little-endian UTF-16 units of a byte string. -/
def wideUnits : Bytes → List UInt16
  | a :: b :: rest => UInt16.ofNat (a.toNat + 0x100 * b.toNat) :: wideUnits rest
  | _ => []

/-- `offsetof(FILE_NOTIFY_INFORMATION, FileName)` -/
def notifyHeader : Nat := 12

def nextEntryOffset (record : Bytes) : Nat := dword record 0

def notifyAction (record : Bytes) : Nat := dword record 4

def fileNameLength (record : Bytes) : Nat := dword record 8

def notifyName (record : Bytes) : List UInt16 :=
  wideUnits ((record.drop notifyHeader).take (fileNameLength record))

def errorGenFailure : Nat := 31

def watchInvalid (w : Watch) : Watch := { w with failed := true, error := errorInvalidData }

/-- The loop over the records of a buffer, from the bytes that are left and
the number of the next record. -/
def watchRecords (allocs : Nat → WatchAllocs) (i : Nat) (rest : Bytes) (w : Watch) : Watch :=
  if short : rest.length < notifyHeader then w
  else if fileNameLength rest % 2 ≠ 0 ∨ rest.length - notifyHeader < fileNameLength rest then watchInvalid w
  else
    let w := watchRecord w (allocs i) (notifyAction rest) (notifyName rest)
    if nextEntryOffset rest = 0 then w
    else if outside : nextEntryOffset rest < notifyHeader ∨ rest.length < nextEntryOffset rest then watchInvalid w
    else watchRecords allocs (i + 1) (rest.drop (nextEntryOffset rest)) w
termination_by rest.length
decreasing_by
  simp only [not_or, Nat.not_lt, notifyHeader] at outside short
  rw [List.length_drop]
  omega

/-- What the watch thread does with a buffer under the lock. -/
def watchBatch (w : Watch) (buf : Bytes) (allocs : Nat → WatchAllocs) : Watch :=
  let w := if buf = [] then watchDrop w else watchRecords allocs 0 buf w
  if w.ev ≠ [] ∨ 0 < w.dropped ∨ w.failed then { w with dataEv := true } else w

/-- `watch_fail` up to its `SetEvent`. -/
def watchFail (w : Watch) (error : Nat) : Watch :=
  { w with failed := true, error := if error = 0 then errorGenFailure else error, signalling := true }

def watchError (code : String) (message : Bytes) : TclError :=
  ⟨message, [ascii "MACHTELD", ascii "WATCH", ascii code]⟩

def watchActionName : Nat → Bytes
  | 1 => ascii "added"
  | 2 => ascii "removed"
  | 3 => ascii "modified"
  | 4 => ascii "renamed-old"
  | 5 => ascii "renamed-new"
  | _ => ascii "unknown"

def watchEventObj (path action : Bytes) : List (Bytes × Obj) :=
  [(ascii "path", .str path), (ascii "action", .str action)]

/-- A row of `watch read -raw`. -/
def watchRow (event : WatchEvent) : List (Bytes × Obj) := watchEventObj event.path (watchActionName event.action)

def overflowRow (count : Nat) : List (Bytes × Obj) :=
  watchEventObj [] (ascii "overflow") ++ [(ascii "count", .str (decimal count))]

/-- `watch read -raw` from its lock on. -/
def watchRead (w : Watch) : Watch × Except TclError (List (List (Bytes × Obj))) :=
  if w.failed then
    (w, .error (watchError "oserror" (ascii "directory watch failed (error " ++ (decimal w.error ++ ascii ")"))))
  else
    ({ w with ev := [], cap := 0, dropped := 0, dataEv := false, lost := 0 },
      .ok ((if 0 < w.dropped then [overflowRow w.dropped.toNatClampNeg] else []) ++ w.ev.map watchRow))

structure WatchInfo where
  token : Bytes
  directory : Bytes
  recursive : Bool
  armed : Bool
  pending : Nat
  dropped : Int32
  failed : Bool
  win32 : Nat

def watchInfo (w : Watch) : WatchInfo where
  token := w.token
  directory := w.dirPath.getD []
  recursive := w.recursive
  armed := w.armed
  pending := w.ev.length
  dropped := w.dropped
  failed := w.failed
  win32 := w.error

/-- A step of the watch thread or of the interpreter thread, each under the
lock, apart from `SetEvent` of `watch_fail`. -/
inductive WatchOp
  | batch (buf : Bytes) (allocs : Nat → WatchAllocs)
  | fail (error : Nat)
  | signal
  | read
  | info

/-- The watch thread is gone once it has failed. -/
def watchStep (w : Watch) : WatchOp → Option (Watch × List (Except TclError (List (List (Bytes × Obj)))))
  | .batch buf allocs =>
    if w.failed ∨ 0x10000 < buf.length then none else some (watchBatch w buf allocs, [])
  | .fail error => if w.failed then none else some (watchFail w error, [])
  | .signal => if w.signalling then some ({ w with signalling := false, dataEv := true }, []) else none
  | .read => some ((watchRead w).1, [(watchRead w).2])
  | .info => some (w, [])

/-- A run, with what its reads returned. -/
def watchRun (w : Watch) (ops : List WatchOp) :
    Option (Watch × List (Except TclError (List (List (Bytes × Obj))))) := runSteps watchStep w ops

end Machteld
