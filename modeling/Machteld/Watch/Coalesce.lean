import Machteld.Watch.State
import Mathlib.Data.List.Perm.Basic

namespace Machteld

def fileActionAdded : Nat := 1

def fileActionRemoved : Nat := 2

def fileActionModified : Nat := 3

def fileActionRenamedOldName : Nat := 4

def fileActionRenamedNewName : Nat := 5

/-- A `wevent`: `source` is the number of the event whose path `from`
borrows. -/
structure Wevent where
  action : Nat
  path : Bytes
  source : Option Nat
  done : Bool

/-- A batch as the watch thread queued it. -/
def wevents (batch : List WatchEvent) : List Wevent :=
  batch.map fun event => ⟨event.action, event.path, none, false⟩

/-- The inner loop of the pairing, up to its `break`. -/
def watchPartner (events : List Wevent) (i : Nat) : Option Nat :=
  (List.range events.length).find? fun j =>
    decide (i < j) && events[j]?.any fun event => !event.done && event.action == fileActionRenamedNewName

/-- The event that a turn of the pairing loop pairs the `i`-th event with.
-/
def watchPairing (events : List Wevent) (i : Nat) : Option Nat :=
  match events[i]? with
  | none => none
  | some event =>
    if event.action ≠ fileActionRenamedOldName ∨ event.done then none else watchPartner events i

def watchPairTurn (events : List Wevent) (i : Nat) : List Wevent :=
  match watchPairing events i with
  | none => events
  | some j =>
    (events.modify j fun event => { event with source := some i }).modify i fun event => { event with done := true }

/-- The batch when the pairing loop has come to an event. -/
def watchPairs (batch : List WatchEvent) (i : Nat) : List Wevent :=
  (List.range i).foldl watchPairTurn (wevents batch)

/-- The batch after the pairing. -/
def watchPaired (batch : List WatchEvent) : List Wevent := watchPairs batch batch.length

structure WatchFlags where
  removed : Bool
  added : Bool
  renamed : Bool
  source : Option Nat

def WatchFlags.clear : WatchFlags := ⟨false, false, false, none⟩

def WatchFlags.observe (flags : WatchFlags) (event : Wevent) : WatchFlags :=
  if event.action = fileActionRemoved then { flags with removed := true }
  else if event.action = fileActionAdded then { flags with added := true }
  else if event.action = fileActionRenamedNewName then
    { flags with renamed := true, source := event.source.or flags.source }
  else flags

/-- The inner loop of the coalescing after its first event. -/
def watchGather (path : Bytes) (flags : WatchFlags) : List Wevent → WatchFlags × List Wevent
  | [] => (flags, [])
  | event :: rest =>
    if event.done ∨ event.path ≠ path then
      ((watchGather path flags rest).1, event :: (watchGather path flags rest).2)
    else
      ((watchGather path (flags.observe event) rest).1,
        { event with done := true } :: (watchGather path (flags.observe event) rest).2)

theorem watchGather_length (path : Bytes) (flags : WatchFlags) (rest : List Wevent) :
    (watchGather path flags rest).2.length = rest.length := by
  induction rest generalizing flags with
  | nil => rfl
  | cons event rest ih =>
    rw [watchGather]
    split
    · rw [List.length_cons, List.length_cons, ih]
    · rw [List.length_cons, List.length_cons, ih]

/-- What `watch_event_obj` is given. -/
structure WatchChange where
  path : Bytes
  action : Bytes
  source : Option Nat

def watchAct (flags : WatchFlags) (action : Nat) : Bytes :=
  if flags.removed then ascii "removed"
  else if flags.added then ascii "added"
  else if flags.renamed then ascii "renamed"
  else watchActionName action

/-- The coalescing loop from an event on. -/
def watchChanges : List Wevent → List WatchChange
  | [] => []
  | event :: rest =>
    if event.done then watchChanges rest
    else
      let flags := (watchGather event.path (WatchFlags.clear.observe event) rest).1
      ⟨event.path, watchAct flags event.action, flags.source⟩ ::
        watchChanges (watchGather event.path (WatchFlags.clear.observe event) rest).2
termination_by events => events.length
decreasing_by
  · exact Nat.lt_add_one _
  · rw [watchGather_length]
    exact Nat.lt_add_one _

/-- The rows of a batch. -/
def watchCoalesce (batch : List WatchEvent) : List WatchChange := watchChanges (watchPaired batch)

def watchChangeRow (batch : List WatchEvent) (change : WatchChange) : List (Bytes × Obj) :=
  watchEventObj change.path change.action ++
    match change.source.bind fun i => batch[i]? with
    | none => []
    | some old => [(ascii "from", .str old.path)]

/-- `watch read` without `-raw`, from its lock on. -/
def watchReadCoalesced (w : Watch) : Watch × Except TclError (List (List (Bytes × Obj))) :=
  if w.failed then watchRead w
  else
    ((watchRead w).1,
      .ok ((if 0 < w.dropped then [overflowRow w.dropped.toNatClampNeg] else []) ++
        (watchCoalesce w.ev).map (watchChangeRow w.ev)))

/-- It takes what a raw read takes, so that what is delivered does not
depend on how it is read. -/
theorem watchReadCoalesced_takes (w : Watch) : (watchReadCoalesced w).1 = (watchRead w).1 := by
  unfold watchReadCoalesced
  split
  · rfl
  · rfl

end Machteld
