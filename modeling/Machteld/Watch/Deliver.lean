import Mathlib.Algebra.Group.Nat.Defs
import Machteld.Watch.Records

namespace Machteld

/-- What arrives in a run before its first read, between two reads, and
behind the last one, where something has arrived already. -/
inductive Arrives : List Arrival → List WatchOp → List (List Arrival) → Prop
  | nil {seg : List Arrival} : Arrives seg [] [seg]
  | overflow {allocs : Nat → WatchAllocs} {ops : List WatchOp} {seg : List Arrival} {segs : List (List Arrival)}
    (later : Arrives (seg ++ [.overflow]) ops segs) : Arrives seg (.batch [] allocs :: ops) segs
  | batch {buf : Bytes} {allocs : Nat → WatchAllocs} {ops : List WatchOp} {arrivals seg : List Arrival}
    {segs : List (List Arrival)} (nonempty : buf ≠ []) (notified : Notified allocs 0 buf arrivals)
    (later : Arrives (seg ++ arrivals) ops segs) : Arrives seg (.batch buf allocs :: ops) segs
  | read {ops : List WatchOp} {seg : List Arrival} {segs : List (List Arrival)} (later : Arrives [] ops segs) :
    Arrives seg (.read :: ops) (seg :: segs)
  | info {ops : List WatchOp} {seg : List Arrival} {segs : List (List Arrival)} (later : Arrives seg ops segs) :
    Arrives seg (.info :: ops) segs

/-- What a read is to return: the number of the drops, where there are any,
and the events. -/
def watchReport (gots : List (Option WatchEvent)) : List (List (Bytes × Obj)) :=
  (if 0 < lostOf gots then [overflowRow (lostOf gots)] else []) ++ (keptOf gots).map watchRow

/-- What has arrived since the last read is in the queue or counted. -/
structure Watch.Holds (w : Watch) (seg : List (Arrival × Option WatchEvent)) : Prop where
  fates : Fates 0 seg
  kept : w.ev = keptOf (seg.map Prod.snd)
  lost : w.lost = lostOf (seg.map Prod.snd)

/-- Every arrival before a read is in what it returns, in order, or counted
there; the others are in the queue or counted for the next read. -/
def DeliveredFrom (seg : List (Arrival × Option WatchEvent)) (ops : List WatchOp)
    (answers : List (Except TclError (List (List (Bytes × Obj))))) (w : Watch) : Prop :=
  ∃ segs last, Arrives (seg.map Prod.fst) ops ((segs ++ [last]).map fun seg => seg.map Prod.fst) ∧
    (∀ seg ∈ segs, Fates 0 seg) ∧ answers = segs.map (fun seg => .ok (watchReport (seg.map Prod.snd))) ∧
      w.Holds last

def Delivered (ops : List WatchOp) (answers : List (Except TclError (List (List (Bytes × Obj)))))
    (w : Watch) : Prop :=
  DeliveredFrom [] ops answers w

/-- What holds of every watch: the event tells whether there is anything to
read, but for the moment `watch_fail` has not signalled yet. -/
structure Watch.Sound (w : Watch) : Prop where
  bounded : w.ev.length ≤ watchQueueMax
  counted : w.dropped = Int32.ofNat w.lost
  signals : w.signalling = false → (w.dataEv = true ↔ w.ev ≠ [] ∨ 0 < w.lost ∨ w.failed = true)
  failing : w.signalling = true → w.failed = true

theorem watchStart_sound (token dirPath : Bytes) (recursive : Bool) :
    (watchStart token dirPath recursive).Sound where
  bounded := Nat.zero_le _
  counted := rfl
  signals _ := by simp [watchStart]
  failing signalling := nomatch signalling

/-- The buffer as the loop sees it, an empty one included. -/
def watchTaken (w : Watch) (buf : Bytes) (allocs : Nat → WatchAllocs) : Watch :=
  if buf = [] then watchDrop w else watchRecords allocs 0 buf w

/-- One buffer queues at most as many events as it has bytes, and one
overflow more. The bound on the queue holds behind it as before it, whatever
its records say. -/
theorem watchTaken_takes {w : Watch} (bounded : w.ev.length ≤ watchQueueMax) (buf : Bytes)
    (allocs : Nat → WatchAllocs) :
    ∃ gots, w.Takes (watchTaken w buf allocs) gots ∧ gots.length ≤ buf.length + 1 ∧
      (watchTaken w buf allocs).ev.length ≤ watchQueueMax := by
  by_cases empty : buf = []
  · rw [watchTaken, if_pos empty]
    exact ⟨[none], .drop w, Nat.le_add_left _ _, bounded⟩
  · rw [watchTaken, if_neg empty]
    obtain ⟨gots, takes, few, within⟩ := watchRecords_takes allocs 0 buf bounded
    exact ⟨gots, takes, Nat.le_succ_of_le few, within⟩

/-- Reissuing the read changes neither the queue nor what is counted. All
that it adds is the event, which is set where there is something to read. -/
theorem watchBatch_ev (w : Watch) (buf : Bytes) (allocs : Nat → WatchAllocs) :
    (watchBatch w buf allocs).ev = (watchTaken w buf allocs).ev ∧
      (watchBatch w buf allocs).lost = (watchTaken w buf allocs).lost ∧
      (watchBatch w buf allocs).dropped = (watchTaken w buf allocs).dropped ∧
      (watchBatch w buf allocs).failed = (watchTaken w buf allocs).failed ∧
      (watchBatch w buf allocs).signalling = (watchTaken w buf allocs).signalling ∧
      ((watchBatch w buf allocs).dataEv = true ↔ (watchTaken w buf allocs).dataEv = true ∨
        (watchTaken w buf allocs).ev ≠ [] ∨ 0 < (watchTaken w buf allocs).dropped ∨
          (watchTaken w buf allocs).failed = true) := by
  have same : watchBatch w buf allocs =
      if (watchTaken w buf allocs).ev ≠ [] ∨ 0 < (watchTaken w buf allocs).dropped ∨
        (watchTaken w buf allocs).failed then
        { watchTaken w buf allocs with dataEv := true } else watchTaken w buf allocs := rfl
  rw [same]
  split_ifs with available
  · exact ⟨rfl, rfl, rfl, rfl, rfl, by simp [available]⟩
  · exact ⟨rfl, rfl, rfl, rfl, rfl, by simp [available]⟩

/-- A buffer, of 64 KiB at most, keeps the bounds of the queue and the state
of the event, and the count of what was dropped. -/
theorem watchBatch_sound {w : Watch} (sound : w.Sound) (healthy : w.failed = false) {buf : Bytes}
    (within : buf.length ≤ 0x10000) (allocs : Nat → WatchAllocs) : (watchBatch w buf allocs).Sound := by
  obtain ⟨gots, takes, few, bounded⟩ := watchTaken_takes sound.bounded buf allocs
  obtain ⟨ev, lost, dropped, failed, signalling, dataEv⟩ := watchBatch_ev w buf allocs
  have quiet : w.signalling = false := by
    cases signalling : w.signalling with
    | false => rfl
    | true =>
      rw [sound.failing signalling] at healthy
      cases healthy
  have counted : (watchTaken w buf allocs).dropped = Int32.ofNat (watchTaken w buf allocs).lost := by
    rw [takes.dropped, takes.lost, sound.counted, Int32.ofNat_add]
  refine ⟨by rw [ev]; exact bounded, by rw [dropped, lost, counted], fun _ => ?_, fun bad => ?_⟩
  · rw [dataEv, ev, lost, failed]
    have before := sound.signals quiet
    rw [takes.dataEv, takes.ev, takes.lost, takes.dropped, sound.counted]
    by_cases idle : w.ev = [] ∧ w.lost = 0
    · have atOnce : w.dataEv ≠ true := by
        rw [Ne, before, idle.1, idle.2, healthy]
        decide
      have small : lostOf gots < 2 ^ 31 := by
        have := lostOf_le gots
        omega
      rw [idle.1, idle.2]
      have positive : (0 < Int32.ofNat 0 + Int32.ofNat (lostOf gots)) ↔ 0 < 0 + lostOf gots := by
        rw [← Int32.ofNat_add, Nat.zero_add]
        exact Int32.ofNat_lt_iff_lt (by decide) small
      rw [positive]
      simp only [atOnce, Bool.false_eq_true, false_or]
    · have available : w.ev ≠ [] ∨ 0 < w.lost := by
        by_cases empty : w.ev = []
        · exact Or.inr (Nat.pos_of_ne_zero fun zero => idle ⟨empty, zero⟩)
        · exact Or.inl empty
      have already : w.dataEv = true := before.mpr (available.imp_right Or.inl)
      have still : w.ev ++ keptOf gots ≠ [] ∨ 0 < w.lost + lostOf gots := by
        rcases available with queued | counted
        · exact Or.inl fun empty => queued (List.append_eq_nil_iff.mp empty).1
        · exact Or.inr (Nat.lt_add_right _ counted)
      exact ⟨fun _ => still.imp_right Or.inl, fun _ => Or.inl already⟩
  · rw [signalling, takes.signalling, quiet] at bad
    cases bad

/-- One step of a session keeps them, whichever it is: a buffer that comes
in, a read, a look, or the end of the watch. -/
theorem watchStep_sound {w w' : Watch} {op : WatchOp} {answers : List (Except TclError (List (List (Bytes × Obj))))}
    (sound : w.Sound) (step : watchStep w op = some (w', answers)) : w'.Sound := by
  cases op with
  | batch buf allocs =>
    simp only [watchStep] at step
    split_ifs at step with refused
    obtain ⟨healthy, within⟩ := not_or.mp refused
    obtain ⟨rfl, -⟩ := Prod.mk.inj (Option.some.inj step)
    exact watchBatch_sound sound (by simpa using healthy) (Nat.not_lt.mp within) allocs
  | fail error =>
    simp only [watchStep] at step
    split_ifs at step
    obtain ⟨rfl, -⟩ := Prod.mk.inj (Option.some.inj step)
    exact { bounded := sound.bounded, counted := sound.counted, signals := nofun, failing := fun _ => rfl }
  | signal =>
    simp only [watchStep] at step
    split_ifs at step with signalling
    obtain ⟨rfl, -⟩ := Prod.mk.inj (Option.some.inj step)
    have failed := sound.failing signalling
    exact ⟨sound.bounded, sound.counted, fun _ => ⟨fun _ => Or.inr (Or.inr failed), fun _ => rfl⟩, fun _ => failed⟩
  | read =>
    obtain ⟨rfl, -⟩ := Prod.mk.inj (Option.some.inj step)
    by_cases failed : w.failed = true
    · rw [watchRead, if_pos failed]
      exact sound
    · rw [watchRead, if_neg failed]
      exact ⟨Nat.zero_le _, rfl, fun _ => by simp [failed], sound.failing⟩
  | info =>
    obtain ⟨rfl, -⟩ := Prod.mk.inj (Option.some.inj step)
    exact sound

/-- A watch that has failed stays so. -/
theorem watchStep_failed {w w' : Watch} {op : WatchOp}
    {answers : List (Except TclError (List (List (Bytes × Obj))))}
    (step : watchStep w op = some (w', answers)) (healthy : w'.failed = false) : w.failed = false := by
  cases failed : w.failed with
  | false => rfl
  | true =>
    cases op with
    | batch buf allocs => simp [watchStep, failed] at step
    | fail error => simp [watchStep, failed] at step
    | signal =>
      simp only [watchStep] at step
      split_ifs at step
      obtain ⟨rfl, -⟩ := Prod.mk.inj (Option.some.inj step)
      exact failed ▸ healthy
    | read =>
      obtain ⟨rfl, -⟩ := Prod.mk.inj (Option.some.inj step)
      rw [watchRead, if_pos failed] at healthy
      exact failed ▸ healthy
    | info =>
      obtain ⟨rfl, -⟩ := Prod.mk.inj (Option.some.inj step)
      exact failed ▸ healthy

theorem watchRun_sound {w w' : Watch} {ops : List WatchOp}
    {answers : List (Except TclError (List (List (Bytes × Obj))))}
    (sound : w.Sound) (run : watchRun w ops = some (w', answers)) : w'.Sound :=
  runSteps_invariant (fun _ _ _ _ sound step => watchStep_sound sound step) sound run

/-- By induction on the steps. -/
theorem watchRun_failed {w w' : Watch} {ops : List WatchOp}
    {answers : List (Except TclError (List (List (Bytes × Obj))))}
    (run : watchRun w ops = some (w', answers)) (healthy : w'.failed = false) : w.failed = false := by
  cases failed : w.failed with
  | false => rfl
  | true =>
    have still : w'.failed = true := runSteps_invariant (I := fun w => w.failed = true)
      (fun v op v' answers failed step => by
        cases after : v'.failed with
        | true => rfl
        | false => exact (Bool.noConfusion (failed.symm.trans (watchStep_failed step after)))) failed run
    rw [healthy] at still
    cases still

/-- `watch info` shows how much the next read returns. -/
theorem Watch.Holds.info {w : Watch} {seg : List (Arrival × Option WatchEvent)} (holds : w.Holds seg)
    (sound : w.Sound) :
    (watchInfo w).pending = (keptOf (seg.map Prod.snd)).length ∧
      (watchInfo w).dropped = Int32.ofNat (lostOf (seg.map Prod.snd)) :=
  ⟨congrArg List.length holds.kept, by rw [← holds.lost]; exact sound.counted⟩

/-- The steps that lose nothing: a batch whose records all have a name, a
read before the count has left its type. -/
def WatchMeets (w : Watch) : WatchOp → Prop
  | .batch buf allocs => ∀ arrivals, Notified allocs 0 buf arrivals → ∀ arrival ∈ arrivals, arrival.Named
  | .read => w.lost < 2 ^ 31
  | _ => True

def WatchRunMeets (w : Watch) (ops : List WatchOp) : Prop := RunMeets watchStep WatchMeets w ops

theorem Watch.Holds.takes {w w' : Watch} {seg more : List (Arrival × Option WatchEvent)} (holds : w.Holds seg)
    (fates : Fates w.ev.length more) (takes : w.Takes w' (more.map Prod.snd)) : w'.Holds (seg ++ more) where
  fates := holds.fates.append (by rw [Nat.zero_add, ← holds.kept]; exact fates)
  kept := by rw [takes.ev, holds.kept, List.map_append, keptOf_append]
  lost := by rw [takes.lost, holds.lost, List.map_append, lostOf_append]

/-- A batch that does not fail is a chain of records, and each is taken. -/
theorem watchBatch_holds {w : Watch} {seg : List (Arrival × Option WatchEvent)} (sound : w.Sound)
    (holds : w.Holds seg)
    {buf : Bytes} {allocs : Nat → WatchAllocs} (meets : WatchMeets w (.batch buf allocs))
    (healthy : (watchBatch w buf allocs).failed = false) :
    ∃ more, (watchBatch w buf allocs).Holds (seg ++ more) ∧ ∀ ops segs,
      Arrives ((seg ++ more).map Prod.fst) ops segs → Arrives (seg.map Prod.fst)
        (.batch buf allocs :: ops) segs := by
  obtain ⟨ev, lost, -, failed, -⟩ := watchBatch_ev w buf allocs
  rw [failed] at healthy
  have lift : ∀ {more}, (watchTaken w buf allocs).Holds more → (watchBatch w buf allocs).Holds more :=
    fun taken => ⟨taken.fates, ev.trans taken.kept, lost.trans taken.lost⟩
  by_cases empty : buf = []
  · subst empty
    refine ⟨[(.overflow, none)], lift (holds.takes ⟨.overflow, trivial⟩ (Watch.Takes.drop w)),
      fun ops segs later => ?_⟩
    rw [List.map_append] at later
    exact .overflow later
  · rw [watchTaken, if_neg empty] at healthy
    obtain ⟨arrivals, notified⟩ := watchRecords_healthy allocs 0 buf healthy
    obtain ⟨-, more, same, fates, takes⟩ := watchRecords_notified notified (meets arrivals notified) sound.bounded
    have taken : w.Takes (watchTaken w buf allocs) (more.map Prod.snd) := by
      rw [watchTaken, if_neg empty]
      exact takes
    refine ⟨more, lift (holds.takes fates taken), fun ops segs later => ?_⟩
    rw [List.map_append, same] at later
    exact .batch empty notified later

/-- A read shows the events that are held, in their order, and empties the
queue. What was dropped is told by one overflow row in front of them. -/
theorem watchRead_report {w : Watch} {seg : List (Arrival × Option WatchEvent)} (sound : w.Sound)
    (holds : w.Holds seg)
    (few : w.lost < 2 ^ 31) (healthy : w.failed = false) :
    (watchRead w).2 = .ok (watchReport (seg.map Prod.snd)) ∧ (watchRead w).1.Holds [] := by
  have positive : 0 < w.dropped ↔ 0 < lostOf (seg.map Prod.snd) := by
    rw [sound.counted, ← holds.lost]
    exact Int32.ofNat_lt_iff_lt (by decide) few
  have count : w.dropped.toNatClampNeg = lostOf (seg.map Prod.snd) := by
    rw [sound.counted, Int32.toNatClampNeg_ofNat_of_lt few, holds.lost]
  have working : ¬ w.failed = true := by simp [healthy]
  rw [watchRead, if_neg working]
  refine ⟨?_, trivial, rfl, rfl⟩
  simp only [watchReport, positive, count, holds.kept]

/-- The run lemma: each read shows what arrived behind the read before it.
The induction is on the steps, with what is held now as its invariant; what
has been read is in the answers already. -/
theorem watchRun_delivered {w w' : Watch} {seg : List (Arrival × Option WatchEvent)} {ops : List WatchOp}
    {answers : List (Except TclError (List (List (Bytes × Obj))))} (sound : w.Sound) (holds : w.Holds seg)
    (meets : WatchRunMeets w ops) (run : watchRun w ops = some (w', answers)) (healthy : w'.failed = false) :
    DeliveredFrom seg ops answers w' := by
  induction ops generalizing w seg answers with
  | nil =>
    obtain ⟨rfl, rfl⟩ := runSteps_nil run
    exact ⟨[], seg, .nil, List.forall_mem_nil _, rfl, holds⟩
  | cons op ops ih =>
    obtain ⟨w₁, here, later, step, rest, rfl⟩ := runSteps_cons run
    have sound₁ := watchStep_sound sound step
    have healthy₁ := watchRun_failed rest healthy
    have meets₁ := meets.2 w₁ here step
    cases op with
    | batch buf allocs =>
      simp only [watchStep] at step
      split_ifs at step
      obtain ⟨rfl, rfl⟩ := Prod.mk.inj (Option.some.inj step)
      obtain ⟨more, holds₁, arrives⟩ := watchBatch_holds sound holds meets.1 healthy₁
      obtain ⟨segs, last, order, fates, returned, final⟩ := ih sound₁ holds₁ meets₁ rest
      exact ⟨segs, last, arrives _ _ order, fates, returned, final⟩
    | fail error =>
      simp only [watchStep] at step
      split_ifs at step
      obtain ⟨rfl, -⟩ := Prod.mk.inj (Option.some.inj step)
      cases healthy₁
    | signal =>
      simp only [watchStep] at step
      split_ifs at step with signalling
      obtain ⟨rfl, -⟩ := Prod.mk.inj (Option.some.inj step)
      exact absurd (sound.failing signalling) (by rw [show w.failed = false from healthy₁]; decide)
    | read =>
      have healthy₀ := watchStep_failed step healthy₁
      obtain ⟨rfl, rfl⟩ := Prod.mk.inj (Option.some.inj step)
      obtain ⟨report, holds₁⟩ := watchRead_report sound holds meets.1 healthy₀
      obtain ⟨segs, last, order, fates, returned, final⟩ := ih sound₁ holds₁ meets₁ rest
      exact ⟨seg :: segs, last, .read order, List.forall_mem_cons.mpr ⟨holds.fates, fates⟩,
        by rw [report, returned, List.map_cons, List.singleton_append], final⟩
    | info =>
      obtain ⟨rfl, rfl⟩ := Prod.mk.inj (Option.some.inj step)
      obtain ⟨segs, last, order, fates, returned, final⟩ := ih sound₁ holds meets₁ rest
      exact ⟨segs, last, .info order, fates, returned, final⟩

/-- In every run: the queue is bounded, looking takes nothing, the event is
set where there is something to read, and up to the first failure each
arrival is returned or counted. -/
theorem watch_delivers {token dirPath : Bytes} {recursive : Bool} {ops : List WatchOp} {w : Watch}
    {answers : List (Except TclError (List (List (Bytes × Obj))))}
    (meets : WatchRunMeets (watchStart token dirPath recursive) ops)
    (run : watchRun (watchStart token dirPath recursive) ops = some (w, answers)) :
    w.ev.length ≤ watchQueueMax ∧ watchStep w .info = some (w, []) ∧
      (w.signalling = false → (w.dataEv = true ↔ w.ev ≠ [] ∨ 0 < w.lost ∨ w.failed = true)) ∧
      (w.failed = false → Delivered ops answers w) := by
  have start := watchStart_sound token dirPath recursive
  have sound := watchRun_sound start run
  exact ⟨sound.bounded, rfl, sound.signals, fun healthy =>
    watchRun_delivered start ⟨trivial, rfl, rfl⟩ meets run healthy⟩

def allocsOk : Nat → WatchAllocs := fun _ => ⟨true, true, true⟩

/-- One record: a file `a` was added. -/
def notifyA : Bytes := [0, 0, 0, 0, 1, 0, 0, 0, 2, 0, 0, 0, 0x61, 0]

/-- One record whose name is empty. -/
def notifyNameless : Bytes := [0, 0, 0, 0, 1, 0, 0, 0, 0, 0, 0, 0]

theorem watchRecords_single (allocs : Nat → WatchAllocs) {rest : Bytes} (w : Watch) (sized : NotifySized rest)
    (ends : nextEntryOffset rest = 0) :
    watchRecords allocs 0 rest w = watchRecord w (allocs 0) (notifyAction rest) (notifyName rest) := by
  rw [watchRecords, dif_neg (Nat.not_lt.mpr sized.room),
    if_neg (not_or.mpr ⟨not_not.mpr sized.even, Nat.not_lt.mpr sized.fits⟩), if_pos ends]

theorem notified_single {allocs : Nat → WatchAllocs} {i : Nat} {rest : Bytes} {arrivals : List Arrival}
    (sized : NotifySized rest) (ends : nextEntryOffset rest = 0) (notified : Notified allocs i rest arrivals) :
    arrivals = [notifyArrival (allocs i) rest] := by
  cases notified with
  | short short => exact absurd short (Nat.not_lt.mpr sized.room)
  | last => rfl
  | more _ after => exact absurd after (by rw [ends]; decide)

theorem notifyA_sized : NotifySized notifyA := ⟨by decide, by decide, by decide⟩

theorem notifyNameless_sized : NotifySized notifyNameless := ⟨by decide, by decide, by decide⟩

def watchSample : Watch := watchStart (ascii "watch#1") (ascii "C:/w") false

theorem watchSample_batch (buf : Bytes) (sized : NotifySized buf) (ends : nextEntryOffset buf = 0)
    (short : buf.length ≤ 0x10000) : watchBatch watchSample buf allocsOk =
      (let w := watchRecord watchSample ⟨true, true, true⟩ (notifyAction buf) (notifyName buf)
       if w.ev ≠ [] ∨ 0 < w.dropped ∨ w.failed then { w with dataEv := true } else w) := by
  have nonempty : buf ≠ [] := by
    rintro rfl
    exact absurd sized.room (by decide)
  rw [watchBatch, if_neg nonempty, watchRecords_single allocsOk watchSample sized ends]
  rfl

theorem watchStep_batch {w : Watch} (healthy : w.failed = false) {buf : Bytes} (within : buf.length ≤ 0x10000)
    (allocs : Nat → WatchAllocs) : watchStep w (.batch buf allocs) = some (watchBatch w buf allocs, []) :=
  if_neg (not_or.mpr ⟨by simp [healthy], Nat.not_lt.mpr within⟩)

/-- A report is empty only where nothing was queued and nothing dropped. -/
theorem watchReport_nil {gots : List (Option WatchEvent)} (silent : watchReport gots = []) : gots = [] := by
  obtain ⟨uncounted, unkept⟩ := List.append_eq_nil_iff.mp silent
  cases gots with
  | nil => rfl
  | cons got gots =>
    cases got with
    | none =>
      have counted : 0 < lostOf (none :: gots) := by simp [lostOf]
      rw [if_pos counted] at uncounted
      cases uncounted
    | some event => cases unkept

/-- A first read that returns nothing loses what had arrived before it. -/
theorem Delivered.silent {ops : List WatchOp} {w : Watch} {first : List Arrival} {segs : List (List Arrival)}
    (delivered : Delivered ops [.ok []] w) (only : ∀ all, Arrives [] ops all → all = first :: segs)
    (returned : segs ≠ []) : first = [] := by
  obtain ⟨kept, last, order, -, answers, -⟩ := delivered
  have same := only _ order
  cases kept with
  | nil => exact absurd (List.cons.inj same).2.symm returned
  | cons seg kept =>
    have report := watchReport_nil (Except.ok.inj (List.cons.inj answers).1).symm
    rw [← (List.cons.inj same).1, List.map_eq_nil_iff.mp report]
    rfl

theorem Arrives.empties {allocs : Nat → WatchAllocs} {ops : List WatchOp} {segs : List (List Arrival)} :
    ∀ (n : Nat) {seg : List Arrival}, Arrives seg (List.replicate n (.batch [] allocs) ++ ops) segs →
      Arrives (seg ++ List.replicate n .overflow) ops segs
  | 0, seg, arrives => by simpa using arrives
  | n + 1, seg, arrives => by
    rw [List.replicate_succ, List.cons_append] at arrives
    cases arrives with
    | overflow later =>
      have arrived := Arrives.empties n later
      rwa [List.append_assoc, List.singleton_append, ← List.replicate_succ] at arrived
    | batch nonempty => exact absurd rfl nonempty

theorem Arrives.last_read {seg : List Arrival} {segs : List (List Arrival)} (arrives : Arrives seg [.read] segs) :
    segs = [seg, []] := by
  cases arrives with
  | read later =>
    cases later
    rfl

theorem watchRun_empties (n : Nat) {w : Watch} (healthy : w.failed = false) :
    ∃ w', watchRun w (List.replicate n (.batch [] allocsOk)) = some (w', []) ∧ w'.failed = false ∧ w'.ev = w.ev ∧
      w'.dropped = w.dropped + Int32.ofNat n := by
  induction n generalizing w with
  | zero => exact ⟨w, rfl, healthy, rfl, (Int32.add_zero _).symm⟩
  | succ n ih =>
    obtain ⟨ev, -, dropped, failed, -⟩ := watchBatch_ev w [] allocsOk
    obtain ⟨w', run, healthy', ev', dropped'⟩ := ih (failed.trans healthy)
    refine ⟨w', runSteps_step (watchStep_batch healthy (Nat.zero_le _) allocsOk) run, healthy', ev'.trans ev, ?_⟩
    · rw [dropped', dropped, watchTaken, if_pos rfl, Nat.add_comm, Int32.ofNat_add, ← Int32.add_assoc]
      rfl

/-- A count that has left its type is not reported. -/
theorem watchRun_wrapped {n : Nat} (positive : 0 < n) (wrapped : ¬ 0 < Int32.ofNat n) :
    ∃ w, watchRun watchSample (List.replicate n (.batch [] allocsOk) ++ [.read]) = some (w, [.ok []]) ∧
      w.failed = false ∧ ¬ Delivered (List.replicate n (.batch [] allocsOk) ++ [.read]) [.ok []] w := by
  obtain ⟨w', run, healthy, ev, dropped⟩ := watchRun_empties n (w := watchSample) rfl
  have working : ¬ w'.failed = true := by simp [healthy]
  have none : ¬ 0 < w'.dropped := by
    rw [dropped, show watchSample.dropped = 0 from rfl, Int32.zero_add]
    exact wrapped
  have step : watchStep w' .read =
      some ({ w' with ev := [], cap := 0, dropped := 0, dataEv := false, lost := 0 }, [.ok []]) := by
    rw [watchStep, watchRead, if_neg working, if_neg none, ev]
    rfl
  refine ⟨_, runSteps_append run (runSteps_single step), healthy, fun delivered => ?_⟩
  have first := delivered.silent (fun all arrives => (Arrives.empties n arrives).last_read) (by simp)
  have count := congrArg List.length first
  simp only [List.nil_append, List.length_replicate, List.length_nil] at count
  omega

theorem watchRun_nameless : ∃ w, watchRun watchSample [.batch notifyNameless allocsOk, .read] = some (w, [.ok []]) ∧
    w.failed = false ∧ ¬ Delivered [.batch notifyNameless allocsOk, .read] [.ok []] w := by
  have ends : nextEntryOffset notifyNameless = 0 := by decide
  have same : watchBatch watchSample notifyNameless allocsOk = watchSample := by
    rw [watchSample_batch _ notifyNameless_sized ends (by decide), show notifyName notifyNameless = [] by decide,
      watchRecord_empty]
    rfl
  have step := watchStep_batch (w := watchSample) rfl (show notifyNameless.length ≤ 0x10000 by decide) allocsOk
  rw [same] at step
  refine ⟨watchSample, runSteps_step step (runSteps_single
    (show watchStep watchSample .read = some (watchSample, [.ok []]) from rfl)), rfl, fun delivered => ?_⟩
  have order : ∀ all, Arrives [] [.batch notifyNameless allocsOk, .read] all →
      all = [notifyArrival (allocsOk 0) notifyNameless] :: [[]] := by
    intro all arrives
    cases arrives with
    | batch nonempty notified later =>
      rw [notified_single notifyNameless_sized ends notified] at later
      exact later.last_read
  cases delivered.silent order (by simp)

/-- A record whose name is empty is neither returned nor counted; nor are
2³¹ overflows between two reads; and a failure is there before its signal.
-/
theorem watch_loses :
    (∃ w, watchRun watchSample [.batch notifyNameless allocsOk, .read] = some (w, [.ok []]) ∧ w.failed = false ∧
      ¬ Delivered [.batch notifyNameless allocsOk, .read] [.ok []] w) ∧
    (∃ w, watchRun watchSample (List.replicate (2 ^ 31) (.batch [] allocsOk) ++ [.read]) = some (w, [.ok []]) ∧
      w.failed = false ∧ ¬ Delivered (List.replicate (2 ^ 31) (.batch [] allocsOk) ++ [.read]) [.ok []] w) ∧
    ∃ w, watchRun watchSample [.fail 5] = some (w, []) ∧
      ¬ (w.dataEv = true ↔ w.ev ≠ [] ∨ 0 < w.lost ∨ w.failed = true) :=
  ⟨watchRun_nameless, watchRun_wrapped (by decide) (by decide),
    watchFail watchSample 5, rfl, fun signals => Bool.noConfusion (signals.mpr (Or.inr (Or.inr rfl)))⟩

theorem watch_delivers_sample : ∃ w, watchRun watchSample [.batch notifyA allocsOk, .read] =
      some (w, [.ok [watchRow ⟨1, ascii "a"⟩]]) ∧
    Delivered [.batch notifyA allocsOk, .read] [.ok [watchRow ⟨1, ascii "a"⟩]] w := by
  have ends : nextEntryOffset notifyA = 0 := by decide
  have name : notifyName notifyA = [0x61] := by decide
  have step := watchStep_batch (w := watchSample) rfl (show notifyA.length ≤ 0x10000 by decide) allocsOk
  rw [watchSample_batch _ notifyA_sized ends (by decide), name] at step
  have run := runSteps_step step (runSteps_single (e := .read) rfl)
  have named : WatchMeets watchSample (.batch notifyA allocsOk) := by
    intro arrivals notified arrival member
    rw [notified_single notifyA_sized ends notified] at member
    rw [List.mem_singleton.mp member]
    show notifyName notifyA ≠ []
    rw [name]
    decide
  have meets : WatchRunMeets watchSample [.batch notifyA allocsOk, .read] := by
    refine ⟨named, fun w answers same => ?_⟩
    rw [step] at same
    obtain ⟨rfl, -⟩ := Prod.mk.inj (Option.some.inj same)
    exact ⟨show (0 : Nat) < 2 ^ 31 by decide, fun _ _ _ => trivial⟩
  exact ⟨_, run, (watch_delivers meets run).2.2.2 rfl⟩

end Machteld
