import Machteld.Watch.State

namespace Machteld

/-- What the OS delivers: a record, with how the allocations for it go, or
word of an overflow. -/
inductive Arrival
  | record (action : Nat) (name : List UInt16) (allocs : WatchAllocs)
  | overflow

def Arrival.Named : Arrival → Prop
  | .record _ name _ => name ≠ []
  | .overflow => True

/-- A record whose name lies in the buffer. -/
structure NotifySized (rest : Bytes) : Prop where
  room : notifyHeader ≤ rest.length
  even : fileNameLength rest % 2 = 0
  fits : fileNameLength rest ≤ rest.length - notifyHeader

def notifyArrival (allocs : WatchAllocs) (rest : Bytes) : Arrival :=
  .record (notifyAction rest) (notifyName rest) allocs

/-- A chain of records: the first entry offset of zero ends it. -/
inductive Notified (allocs : Nat → WatchAllocs) : Nat → Bytes → List Arrival → Prop
  | short {i : Nat} {rest : Bytes} (short : rest.length < notifyHeader) : Notified allocs i rest []
  | last {i : Nat} {rest : Bytes} (sized : NotifySized rest) (ends : nextEntryOffset rest = 0) :
    Notified allocs i rest [notifyArrival (allocs i) rest]
  | more {i : Nat} {rest : Bytes} {arrivals : List Arrival} (sized : NotifySized rest)
    (after : notifyHeader ≤ nextEntryOffset rest) (within : nextEntryOffset rest ≤ rest.length)
    (later : Notified allocs (i + 1) (rest.drop (nextEntryOffset rest)) arrivals) :
    Notified allocs i rest (notifyArrival (allocs i) rest :: arrivals)

/-- What becomes of an arrival where so many events are queued: it is queued
as an event, or dropped for one of the reasons. -/
inductive Fate (queued : Nat) : Arrival → Option WatchEvent → Prop
  | overflow : Fate queued .overflow none
  | full {action : Nat} {name : List UInt16} {allocs : WatchAllocs} (full : queued = watchQueueMax) :
    Fate queued (.record action name allocs) none
  | unrepresentable {action : Nat} {name : List UInt16} {allocs : WatchAllocs}
    (refused : Utf16.decode name = none) :
    Fate queued (.record action name allocs) none
  | allocation {action : Nat} {name : List UInt16} {allocs : WatchAllocs}
    (failed : allocs.utf8 = false ∨ allocs.realloc = false ∨ allocs.strdup = false) :
    Fate queued (.record action name allocs) none
  | kept {action : Nat} {name : List UInt16} {allocs : WatchAllocs} {points : List Nat}
    (room : queued < watchQueueMax)
    (read : Utf16.decode name = some points) :
    Fate queued (.record action name allocs) (some ⟨action, cString (watchSlashes (points.flatMap Utf8.encode))⟩)

def keptOf (gots : List (Option WatchEvent)) : List WatchEvent := gots.filterMap id

def lostOf (gots : List (Option WatchEvent)) : Nat := gots.countP Option.isNone

def Fates : Nat → List (Arrival × Option WatchEvent) → Prop
  | _, [] => True
  | queued, (arrival, got) :: seg => Fate queued arrival got ∧ Fates (queued + got.toList.length) seg

/-- The queue takes some of what arrives and counts the rest. -/
structure Watch.Takes (w w' : Watch) (gots : List (Option WatchEvent)) : Prop where
  ev : w'.ev = w.ev ++ keptOf gots
  lost : w'.lost = w.lost + lostOf gots
  dropped : w'.dropped = w.dropped + Int32.ofNat (lostOf gots)
  dataEv : w'.dataEv = w.dataEv
  signalling : w'.signalling = w.signalling

theorem keptOf_append (a b : List (Option WatchEvent)) : keptOf (a ++ b) = keptOf a ++ keptOf b :=
  List.filterMap_append

theorem lostOf_append (a b : List (Option WatchEvent)) : lostOf (a ++ b) = lostOf a + lostOf b := List.countP_append

theorem lostOf_le (gots : List (Option WatchEvent)) : lostOf gots ≤ gots.length := List.countP_le_length

/-- What happens to arrivals in a row: the later ones meet the queue that
the first ones have left, so that two runs of arrivals are put together by
the length of the queue between them. -/
theorem Fates.append {queued : Nat} {a b : List (Arrival × Option WatchEvent)} (first : Fates queued a)
    (second : Fates (queued + (keptOf (a.map Prod.snd)).length) b) : Fates queued (a ++ b) := by
  induction a generalizing queued with
  | nil => exact second
  | cons entry a ih =>
    obtain ⟨arrival, got⟩ := entry
    refine ⟨first.1, ih first.2 ?_⟩
    have count : (keptOf (((arrival, got) :: a).map Prod.snd)).length =
        got.toList.length + (keptOf (a.map Prod.snd)).length := by
      cases got with
      | none => simp [keptOf]
      | some event => simp [keptOf, Nat.add_comm]
    rw [count, ← Nat.add_assoc] at second
    exact second

namespace Watch.Takes

theorem refl (w : Watch) : w.Takes w [] := ⟨by simp [keptOf], rfl, by simp [lostOf], rfl, rfl⟩

theorem trans {w w' w'' : Watch} {a b : List (Option WatchEvent)} (first : w.Takes w' a) (second : w'.Takes w'' b) :
    w.Takes w'' (a ++ b) where
  ev := by rw [second.ev, first.ev, keptOf_append, List.append_assoc]
  lost := by rw [second.lost, first.lost, lostOf_append, Nat.add_assoc]
  dropped := by rw [second.dropped, first.dropped, lostOf_append, Int32.ofNat_add, Int32.add_assoc]
  dataEv := second.dataEv.trans first.dataEv
  signalling := second.signalling.trans first.signalling

theorem invalid {w w' : Watch} {gots : List (Option WatchEvent)} (takes : w.Takes w' gots) :
    w.Takes (watchInvalid w') gots := ⟨takes.ev, takes.lost, takes.dropped, takes.dataEv, takes.signalling⟩

theorem drop (w : Watch) : w.Takes (watchDrop w) [none] := ⟨by simp [keptOf, watchDrop], rfl, rfl, rfl, rfl⟩

end Watch.Takes

/-- An arrival is queued or counted, and failure does not begin here. -/
def Watch.Queues (w w' : Watch) (arrival : Arrival) : Prop :=
  ∃ got, Fate w.ev.length arrival got ∧ w.Takes w' [got] ∧ w'.failed = w.failed ∧ w'.ev.length ≤ watchQueueMax

theorem Watch.Queues.drop {w : Watch} {arrival : Arrival} (bounded : w.ev.length ≤ watchQueueMax)
    (reason : Fate w.ev.length arrival none) : w.Queues (watchDrop w) arrival :=
  ⟨none, reason, Watch.Takes.drop w, rfl, bounded⟩

/-- An event with room is queued behind the others, or dropped where memory
fails; in either case it is told of. -/
theorem watchAppend_queues {w : Watch} (room : w.ev.length < watchQueueMax) (allocs : WatchAllocs) (action : Nat)
    {name : List UInt16} {points : List Nat} (read : Utf16.decode name = some points) :
    w.Queues (watchAppend w allocs.strdup action (watchSlashes (points.flatMap Utf8.encode)))
      (.record action name allocs) := by
  by_cases memory : allocs.strdup = true
  · rw [watchAppend, if_pos memory]
    refine ⟨_, .kept room read, ⟨by simp [keptOf], rfl, by simp [lostOf], rfl, rfl⟩, rfl, ?_⟩
    rw [List.length_append, List.length_singleton]
    exact room
  · rw [watchAppend, if_neg memory]
    exact .drop (Nat.le_of_lt room) (.allocation (Or.inr (Or.inr (by simpa using memory))))

/-- An event is queued where there is room and memory for it, and otherwise
counted as dropped. -/
theorem watchPush_queues {w : Watch} (bounded : w.ev.length ≤ watchQueueMax) (allocs : WatchAllocs) (action : Nat)
    {name : List UInt16} {points : List Nat} (read : Utf16.decode name = some points) :
    w.Queues (watchPush w allocs action (watchSlashes (points.flatMap Utf8.encode)))
      (.record action name allocs) := by
  unfold watchPush
  by_cases full : watchQueueMax ≤ w.ev.length
  · rw [if_pos full]
    exact .drop bounded (.full (Nat.le_antisymm bounded full))
  · have room : w.ev.length < watchQueueMax := Nat.lt_of_not_le full
    rw [if_neg full]
    by_cases grows : w.ev.length = w.cap
    · rw [if_pos grows]
      by_cases memory : allocs.realloc = true
      · rw [if_pos memory]
        obtain ⟨got, fate, takes, failed, within⟩ :=
          watchAppend_queues (w := { w with cap := if w.cap = 0 then 64 else w.cap * 2 }) room allocs action read
        exact ⟨got, fate, ⟨takes.ev, takes.lost, takes.dropped, takes.dataEv, takes.signalling⟩, failed, within⟩
      · rw [if_neg memory]
        exact .drop bounded (.allocation (Or.inr (Or.inl (by simpa using memory))))
    · rw [if_neg grows]
      exact watchAppend_queues room allocs action read

theorem watchRecord_empty (w : Watch) (allocs : WatchAllocs) (action : Nat) : watchRecord w allocs action [] = w :=
  if_pos rfl

/-- A record with a name is queued or counted, never neither. -/
theorem watchRecord_queues {w : Watch} (bounded : w.ev.length ≤ watchQueueMax) (allocs : WatchAllocs) (action : Nat)
    {name : List UInt16} (named : name ≠ []) :
    w.Queues (watchRecord w allocs action name) (.record action name allocs) := by
  rw [watchRecord, if_neg named]
  by_cases memory : allocs.utf8 = true
  · have converted : mtWideToUtf8 allocs.utf8 name = (Utf16.decode name).map fun cs => cs.flatMap Utf8.encode :=
      if_neg (by simp [named, memory])
    rw [converted]
    cases read : Utf16.decode name with
    | none => exact .drop bounded (.unrepresentable read)
    | some points => exact watchPush_queues bounded allocs action read
  · rw [mtWideToUtf8, if_pos (Or.inr (by simpa using memory))]
    exact .drop bounded (.allocation (Or.inl (by simpa using memory)))

theorem notifyArrival_queues {w : Watch} (bounded : w.ev.length ≤ watchQueueMax)
    (allocs : WatchAllocs) {rest : Bytes}
    (named : (notifyArrival allocs rest).Named) :
    w.Queues (watchRecord w allocs (notifyAction rest) (notifyName rest)) (notifyArrival allocs rest) :=
  watchRecord_queues bounded allocs (notifyAction rest) named

theorem Fates.cons {queued : Nat} {arrival : Arrival} {got : Option WatchEvent}
    {seg : List (Arrival × Option WatchEvent)}
    (fate : Fate queued arrival got) (later : Fates (queued + (keptOf [got]).length) seg) :
    Fates queued ((arrival, got) :: seg) := by
  have count : (keptOf [got]).length = got.toList.length := by cases got <;> rfl
  rw [count] at later
  exact ⟨fate, later⟩

/-- The loop over any buffer: it takes no more than the buffer has bytes. -/
theorem watchRecords_takes (allocs : Nat → WatchAllocs) (i : Nat) (rest : Bytes) {w : Watch}
    (bounded : w.ev.length ≤ watchQueueMax) :
    ∃ gots, w.Takes (watchRecords allocs i rest w) gots ∧ gots.length ≤ rest.length ∧
      (watchRecords allocs i rest w).ev.length ≤ watchQueueMax := by
  have record : ∀ w : Watch, w.ev.length ≤ watchQueueMax → ∀ i rest, ∃ gots,
      w.Takes (watchRecord w (allocs i) (notifyAction rest) (notifyName rest)) gots ∧ gots.length ≤ 1 ∧
        (watchRecord w (allocs i) (notifyAction rest) (notifyName rest)).ev.length ≤ watchQueueMax := by
    intro w bounded i rest
    by_cases named : notifyName rest = []
    · rw [named, watchRecord_empty]
      exact ⟨[], .refl w, Nat.zero_le _, bounded⟩
    · obtain ⟨got, _, takes, _, within⟩ := watchRecord_queues bounded (allocs i) (notifyAction rest) named
      exact ⟨[got], takes, Nat.le_refl _, within⟩
  induction size : rest.length using Nat.strongRecOn generalizing i rest w with
  | ind size' ih =>
    obtain ⟨gots, takes, few, within⟩ := record w bounded i rest
    rw [watchRecords]
    by_cases short : rest.length < notifyHeader
    · rw [dif_pos short]
      exact ⟨[], .refl w, Nat.zero_le _, bounded⟩
    rw [dif_neg short]
    by_cases malformed : fileNameLength rest % 2 ≠ 0 ∨ rest.length - notifyHeader < fileNameLength rest
    · rw [if_pos malformed]
      exact ⟨[], (Watch.Takes.refl w).invalid, Nat.zero_le _, bounded⟩
    rw [if_neg malformed]
    generalize watchRecord w (allocs i) (notifyAction rest) (notifyName rest) = w' at takes within ⊢
    generalize nextEntryOffset rest = next
    simp only [notifyHeader, Nat.not_lt] at short
    by_cases ends : next = 0
    · rw [if_pos ends]
      exact ⟨gots, takes, by omega, within⟩
    rw [if_neg ends]
    by_cases outside : next < notifyHeader ∨ rest.length < next
    · rw [dif_pos outside]
      exact ⟨gots, takes.invalid, by omega, within⟩
    rw [dif_neg outside]
    simp only [notifyHeader] at outside
    have shorter : (rest.drop next).length < size' := by
      rw [List.length_drop]
      omega
    obtain ⟨later, taken, count, bound⟩ := ih _ shorter (i + 1) (rest.drop next) within rfl
    refine ⟨gots ++ later, takes.trans taken, ?_, bound⟩
    rw [List.length_append]
    omega

/-- The records of a buffer are taken in their order, each to its own fate. The
induction is on the chain, with the queue that is left as the start of the rest.
-/
theorem watchRecords_notified {allocs : Nat → WatchAllocs} {i : Nat} {rest : Bytes} {arrivals : List Arrival}
    (notified : Notified allocs i rest arrivals) {w : Watch} (named : ∀ arrival ∈ arrivals, arrival.Named)
    (bounded : w.ev.length ≤ watchQueueMax) :
    (watchRecords allocs i rest w).failed = w.failed ∧ ∃ seg, seg.map Prod.fst = arrivals ∧ Fates w.ev.length seg ∧
      w.Takes (watchRecords allocs i rest w) (seg.map Prod.snd) := by
  induction notified generalizing w with
  | short short =>
    rw [watchRecords, dif_pos short]
    exact ⟨rfl, [], rfl, trivial, .refl w⟩
  | @last i rest sized ends =>
    obtain ⟨got, fate, takes, failed, _⟩ := notifyArrival_queues bounded (allocs i)
      (named (notifyArrival (allocs i) rest) (List.mem_cons_self ..))
    rw [watchRecords, dif_neg (Nat.not_lt.mpr sized.room),
      if_neg (not_or.mpr ⟨not_not.mpr sized.even, Nat.not_lt.mpr sized.fits⟩)]
    generalize watchRecord w (allocs i) (notifyAction rest) (notifyName rest) = w' at takes failed ⊢
    rw [if_pos ends]
    exact ⟨failed, [(notifyArrival (allocs i) rest, got)], rfl, .cons fate trivial, takes⟩
  | @more i rest arrivals sized after within later ih =>
    have goesOn : nextEntryOffset rest ≠ 0 := Nat.ne_of_gt (Nat.lt_of_lt_of_le (by decide) after)
    obtain ⟨got, fate, takes, failed, bound⟩ := notifyArrival_queues bounded (allocs i)
      (named (notifyArrival (allocs i) rest) (List.mem_cons_self ..))
    rw [watchRecords, dif_neg (Nat.not_lt.mpr sized.room),
      if_neg (not_or.mpr ⟨not_not.mpr sized.even, Nat.not_lt.mpr sized.fits⟩)]
    generalize watchRecord w (allocs i) (notifyAction rest) (notifyName rest) = w' at takes failed bound ⊢
    rw [if_neg goesOn, dif_neg (not_or.mpr ⟨Nat.not_lt.mpr after, Nat.not_lt.mpr within⟩)]
    obtain ⟨healthy, seg, same, fates, taken⟩ :=
      ih (fun arrival member => named arrival (List.mem_cons_of_mem _ member)) bound
    rw [takes.ev, List.length_append] at fates
    exact ⟨healthy.trans failed, (notifyArrival (allocs i) rest, got) :: seg, by rw [List.map_cons, same],
      .cons fate fates, takes.trans taken⟩

/-- A buffer over which the watch does not fail is a chain of records or an
overflow. -/
theorem watchRecords_healthy (allocs : Nat → WatchAllocs) (i : Nat) (rest : Bytes) {w : Watch}
    (healthy : (watchRecords allocs i rest w).failed = false) : ∃ arrivals, Notified allocs i rest arrivals := by
  fun_induction watchRecords allocs i rest w with
  | case1 i rest w short => exact ⟨[], .short short⟩
  | case2 i rest w room malformed => cases healthy
  | case3 i rest w room sized w' ends =>
    simp only [not_or, not_not, Nat.not_lt] at sized
    exact ⟨_, .last ⟨Nat.not_lt.mp room, sized.1, sized.2⟩ ends⟩
  | case4 i rest w room sized w' more outside => cases healthy
  | case5 i rest w room sized w' more inside ih =>
    obtain ⟨arrivals, later⟩ := ih healthy
    simp only [not_or, not_not, Nat.not_lt] at sized inside
    exact ⟨_, .more ⟨Nat.not_lt.mp room, sized.1, sized.2⟩ inside.1 inside.2 later⟩

end Machteld
