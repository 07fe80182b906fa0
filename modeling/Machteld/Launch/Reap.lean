import Machteld.Launch.Spawned

namespace Machteld

/-- What the threads of a child have left where it is reaped. -/
structure ThreadFlags where
  monitorFailed : Bool
  readFailed : Bool
  writeFailed : Bool
  killed : Bool

inductive Reaped
  | done
  | running
  | failed (err : String)
  deriving DecidableEq

/-- The threads are waited for one by one; the result is whether each wait
succeeded. -/
def joinThreads : List (Option Nat) → LaunchM Bool
  | [] => return true
  | t :: threads => do
    let joined ← joinThread t
    let others ← joinThreads threads
    return joined && others

def reapError (flags : ThreadFlags) (joined : Bool) : Option String :=
  if joined = false then some "joining child I/O thread failed"
  else if flags.monitorFailed then some "child monitor failed"
  else if flags.readFailed then some "reading child output failed"
  else if flags.writeFailed && !flags.killed then some "writing child input failed"
  else none

/-- A child that is done: its threads and its handles are gone. -/
def ChildRecord.reap (c : ChildRecord) : ChildRecord :=
  { c with
    monitor := none
    tIn := none
    tOut := none
    tErr := none
    proc := none
    outR := none
    errR := none
    doneEv := none
    reaped := true }

/-- `child_reap`; without a time it waits for ever. -/
def childReap (c : ChildRecord) (ms : Option Nat) (flags : ThreadFlags) : LaunchM (Reaped × ChildRecord) :=
  if c.reaped then return (.done, c)
  else do
    match ← LaunchCall.ask (.waitEvent (c.doneEv.getD 0) ms) with
    | .timeout => return (.running, c)
    | .failed => return (.failed "waiting for child completion failed", c)
    | .object => do
      let joined ← joinThreads [c.monitor, c.tIn, c.tOut, c.tErr]
      closeHeld c.proc
      closeHeld c.outR
      closeHeld c.errR
      closeHeld c.doneEv
      return ((reapError flags joined).elim .done .failed, c.reap)

/-- A job whose processes cannot be ended is closed. -/
def killJob : Option Nat → LaunchM Unit
  | none => pure ()
  | some j => do
    match ← LaunchCall.ask (.jobTerminate j) with
    | true => return ()
    | false => LaunchCall.ask (.jobClose j)

/-- What `child_free` gives back of a child that is done. -/
def childGiveBack (address : Nat) (c : ChildRecord) : LaunchM Unit := do
  freeBlock c.roBuf
  freeBlock c.reBuf
  freeBlock c.wiBuf
  closeHeld c.inW
  closeHeld c.doneEv
  freeJob c.job
  LaunchCall.ask (.free address)

/-- `child_free`; the result is the record of a child that had to be left to
its threads. -/
def freeChild (address : Nat) (c : ChildRecord) (flags : ThreadFlags) : LaunchM (Option ChildRecord) :=
  if c.reaped then do
    childGiveBack address c
    return none
  else do
    killJob c.job
    let r ← childReap c none flags
    if r.1 ≠ .done ∧ r.2.reaped = false then return some r.2
    else do
      childGiveBack address r.2
      return none

/-- What a child holds once it is started. -/
def ChildRecord.held (c : ChildRecord) : Multiset Asset := heldHandle c.inW + (c.threads + c.kept)

/-- A child that was started, and perhaps reaped since. -/
structure ChildRecord.Tracked (c : ChildRecord) : Prop where
  job : c.job.isSome = true
  alive : c.reaped = false → c.Sound ∧ c.doneEv.isSome = true ∧ c.proc.isSome = true
  done : c.reaped = true → c.Still ∧ c.proc = none ∧ c.outR = none ∧ c.errR = none

section

variable {x : LaunchWorld} {F : Multiset Asset} {ts : List (Task Asset)} {lore : Lore}
  {c : ChildRecord} {address : Nat}

theorem ChildRecord.Tracked.keeps (tracked : c.Tracked) (own : .block address ∈ F) :
    Kept (c.tasks address) (c.held + F) := by
  cases known : c.reaped with
  | true =>
    rw [(tracked.done known).1.tasks]
    exact fun _ none' => absurd none' List.not_mem_nil
  | false =>
    obtain ⟨sound, done, proc⟩ := tracked.alive known
    obtain ⟨j, job⟩ := Option.isSome_iff_exists.mp tracked.job
    obtain ⟨ev, done⟩ := Option.isSome_iff_exists.mp done
    obtain ⟨p, proc⟩ := Option.isSome_iff_exists.mp proc
    have part : c.threads + c.kept ≤ c.held := Multiset.le_add_left _ _
    refine Kept.append (fun task member r used => ?_) ((sound.keeps own).within (by
      gcongr
      exact (Multiset.le_add_left _ _).trans part))
    obtain ⟨t, -, rfl⟩ := Option.map_eq_some_iff.mp (Option.mem_toList.mp member)
    rw [job, proc, done] at used
    refine Multiset.mem_of_le ?_ (monitor_uses job proc done own r used)
    gcongr

theorem ChildRecord.reap_still (c : ChildRecord) : c.reap.Still := ⟨rfl, rfl, rfl, rfl⟩

def heldThreads : List (Option Nat × List (Task Asset)) → Multiset Asset
  | [] => 0
  | t :: threads => heldHandle t.1 + heldThreads threads

/-- Threads that were waited for are gone, with their handles. -/
theorem joinThreads_runs {threads : List (Option Nat × List (Task Asset))}
    (named : ∀ t ∈ threads, ∀ task ∈ t.2, t.1.map Asset.handle = some task.name)
    (has : Has (heldThreads threads + F) (threads.flatMap Prod.snd ++ ts) lore x)
    (kept : Kept (threads.tail.flatMap Prod.snd ++ ts) F) :
    Runs (joinThreads (threads.map Prod.fst)) (fun _ y => Has F ts lore y) x := by
  induction threads generalizing x with
  | nil => exact Safely.done (has.swap (zero_add F)) (Kernel.Knows.stable lore) fun _ later => later
  | cons t threads ih =>
    rw [List.flatMap_cons, List.append_assoc] at has
    rw [List.tail_cons] at kept
    have rest : Kept (threads.tail.flatMap Prod.snd ++ ts) F := by
      cases threads with
      | nil => exact kept
      | cons u threads =>
        rw [List.flatMap_cons, List.append_assoc] at kept
        exact kept.of_append
    have has : Has (heldHandle t.1 + (heldThreads threads + F)) (t.2 ++ (threads.flatMap Prod.snd ++ ts)) lore x :=
      has.swap (add_assoc _ _ _)
    refine Safely.andThen (joinThread_runs (named t List.mem_cons_self) has (kept.add _)) fun joined y has => ?_
    refine Safely.andThen (ih (fun t member => named t (List.mem_cons_of_mem _ member)) has rest)
      fun others y has => ?_
    exact Safely.done has (Kernel.Knows.stable lore) fun _ later => later

/-- A child that is reaped has given back its threads and the handles it
worked with. -/
theorem childReap_runs {ms : Option Nat} {flags : ThreadFlags}
    (has : Has (c.held + ({.block address} + F)) (c.tasks address ++ ts) lore x) (tracked : c.Tracked)
    (kept : Kept ts F) :
    Runs (childReap c ms flags) (fun r y => Has (r.2.held + ({.block address} + F))
      (r.2.tasks address ++ ts) lore y ∧
      ((r.2 = c ∧ c.reaped = false ∧ r.1 ≠ .done) ∨ (r.2 = c ∧ c.reaped = true) ∨
        (r.2 = c.reap ∧ c.reaped = false))) x := by
  unfold childReap
  split
  · rename_i reaped
    exact Safely.done has (Kernel.Knows.stable lore) fun _ later => ⟨later, .inr (.inl ⟨rfl, reaped⟩)⟩
  rename_i alive
  have alive : c.reaped = false := by simpa using alive
  obtain ⟨sound, done, proc⟩ := tracked.alive alive
  obtain ⟨ev, done⟩ := Option.isSome_iff_exists.mp done
  rw [done, Option.getD_some]
  refine Runs.use (c := .waitEvent ev ms) (P := fun _ => True) trivial has (fun _ _ => rfl) (fun r needed => ?_)
    (fun _ _ _ _ _ => trivial) fun a y _ _ has => ?_
  · rw [Multiset.mem_singleton.mp needed]
    simp only [ChildRecord.held, ChildRecord.kept, done, heldHandle, Option.elim_some, Multiset.mem_add,
      Multiset.mem_singleton,
      true_or, or_true]
  cases a with
  | timeout => exact Safely.done has (Kernel.Knows.stable lore) fun _ later => ⟨later, .inl ⟨rfl, alive, by simp⟩⟩
  | failed => exact Safely.done has (Kernel.Knows.stable lore) fun _ later => ⟨later, .inl ⟨rfl, alive, by simp⟩⟩
  | object =>
    obtain ⟨threads, same⟩ : ∃ threads, threads = [(c.monitor, c.observer address), (c.tIn, c.writer address),
        (c.tOut, c.reader address), (c.tErr, c.errReader address)] := ⟨_, rfl⟩
    have named : ∀ t ∈ threads, ∀ task ∈ t.2, t.1.map Asset.handle = some task.name := by
      rw [same]
      simp only [List.forall_mem_cons, List.not_mem_nil, false_imp_iff, implies_true, and_true]
      exact ⟨task_named, task_named, task_named, task_named⟩
    have tasks : c.tasks address ++ ts = threads.flatMap Prod.snd ++ ts := by
      rw [same, ChildRecord.tasks]
      simp only [List.flatMap_cons, List.flatMap_nil, List.append_nil, List.append_assoc]
    have held : c.held + ({.block address} + F) = heldThreads threads +
      (c.kept + (heldHandle c.inW + ({.block address} + F))) := by
      rw [same, ChildRecord.held, ChildRecord.threads]
      simp only [heldThreads]
      abel
    have working : Kept (threads.tail.flatMap Prod.snd ++ ts)
      (c.kept + (heldHandle c.inW + ({.block address} + F))) := by
      rw [same]
      simp only [List.tail_cons, List.flatMap_cons, List.flatMap_nil, List.append_nil]
      exact (sound.keeps (by simp)).append (((kept.add _).add _).add _)
    have fst : threads.map Prod.fst = [c.monitor, c.tIn, c.tOut, c.tErr] := by
      rw [same]
      rfl
    rw [tasks] at has
    rw [← fst]
    refine Safely.andThen (joinThreads_runs named (has.swap held) working) fun joined y has => ?_
    obtain ⟨R, rest⟩ : ∃ R, R = heldJob c.job + (heldBlock c.wiBuf + (heldBlock c.roBuf + (heldBlock c.reBuf +
        (heldHandle c.inW + ({.block address} + F))))) := ⟨_, rfl⟩
    have order : c.kept + (heldHandle c.inW + ({.block address} + F)) =
        heldHandle c.proc + (heldHandle c.outR + (heldHandle c.errR + (heldHandle c.doneEv + R))) := by
      rw [rest, ChildRecord.kept]
      abel
    have keptR : Kept ts R := by
      rw [rest]
      exact (((((kept.add _).add _).add _).add _).add _).add _
    refine Safely.andThen (closeHeld_runs (has.swap order) (((keptR.add _).add _).add _)) fun _ y has => ?_
    refine Safely.andThen (closeHeld_runs has ((keptR.add _).add _)) fun _ y has => ?_
    refine Safely.andThen (closeHeld_runs has (keptR.add _)) fun _ y has => ?_
    refine Safely.andThen (closeHeld_runs (has.swap (by rw [done])) keptR) fun _ y has => ?_
    refine Safely.done has (Kernel.Knows.stable lore) fun _ later => ⟨?_, .inr (.inr ⟨rfl, alive⟩)⟩
    rw [c.reap_still.tasks, List.nil_append]
    refine Has.swap later ?_
    rw [rest]
    simp only [ChildRecord.reap, ChildRecord.held, ChildRecord.threads, ChildRecord.kept, heldHandle,
      Option.elim_none]
    abel

theorem ChildRecord.Tracked.reap (tracked : c.Tracked) : c.reap.Tracked :=
  ⟨tracked.job, fun alive => (by cases alive), fun _ => ⟨c.reap_still, rfl, rfl, rfl⟩⟩

/-- A job that is killed is closed where its processes cannot be ended. -/
theorem killJob_runs {j : Option Nat} (has : Has F ts lore x) (mine : ∀ a, j = some a → .job a ∈ F) :
    Runs (killJob j) (fun _ y => ∃ lore', Has F ts lore' y ∧ lore.Closes j lore') x := by
  cases j with
  | none =>
    refine Safely.done has (Kernel.Knows.stable lore) fun _ later =>
      ⟨lore, later, rfl, rfl, rfl, fun _ known => known,
      fun _ => rfl, fun _ none' => by cases none'⟩
  | some j =>
    refine Runs.jobTerminate has (mine j rfl) fun a numbers y members has => ?_
    cases a with
    | true =>
      obtain ⟨job, found, rfl⟩ := members rfl
      refine Safely.done has (Kernel.Knows.stable _) fun _ later => ⟨_, later, rfl, rfl, rfl,
        fun n known => List.mem_append_right _ known, fun none' => (by cases none'), fun a same => ?_⟩
      obtain rfl := Option.some.inj same
      refine ⟨job, found, fun b member inside => List.mem_append_left _ ?_, fun n known _ => known⟩
      exact List.mem_map_of_mem (List.mem_filter.mpr ⟨member, decide_eq_true inside⟩)
    | false =>
      refine Runs.jobClose (f := pure) has (mine j rfl) fun job y found has => ?_
      exact Safely.done has (Kernel.Knows.stable _) fun _ later => ⟨_, later, (Lore.Closes.free found).ended⟩

theorem Lore.Closes.trans {j : Option Nat} {lore' lore'' : Lore} (first : lore.Closes j lore')
    (second : lore'.Closes j lore'') :
    lore.Closes j lore'' := by
  refine ⟨second.births.trans first.births, second.ran.trans first.ran, second.jobs.trans first.jobs,
    fun n known => second.dead n (first.dead n known), fun none' => (second.none' none').trans (first.none' none'),
    fun a same => ?_⟩
  obtain ⟨job, found, members, held⟩ := first.some' a same
  obtain ⟨job', found', -, held'⟩ := second.some' a same
  rw [first.jobs] at found'
  obtain rfl := Option.some.inj (found.symm.trans found')
  exact ⟨job, found, fun b member inside => second.dead _ (members b member inside),
    fun n known other => held' n (held n known other) other⟩

/-- What a child that is done gives back is all it holds. -/
theorem childGiveBack_runs (has : Has (c.held + ({.block address} + F)) ts lore x) (still : c.Still)
    (closed : c.proc = none ∧ c.outR = none ∧ c.errR = none) (kept : Kept ts F) :
    Runs (childGiveBack address c) (fun _ y => ∃ lore', Has F ts lore' y ∧ lore.Closes c.job lore') x := by
  have order : c.held + ({.block address} + F) = heldBlock c.roBuf + (heldBlock c.reBuf + (heldBlock c.wiBuf +
      (heldHandle c.inW + (heldHandle c.doneEv + (heldJob c.job + ({.block address} + F)))))) := by
    simp only [ChildRecord.held, ChildRecord.threads, ChildRecord.kept, still.tIn, still.tOut, still.tErr,
      still.monitor, closed.1,
      closed.2.1, closed.2.2, heldHandle, Option.elim_none]
    abel
  have own := kept.add {.block address}
  have job := own.add (heldJob c.job)
  have doneEv := job.add (heldHandle c.doneEv)
  have inW := doneEv.add (heldHandle c.inW)
  have wiBuf := inW.add (heldBlock c.wiBuf)
  refine Safely.andThen (freeBlock_runs (has.swap order) (wiBuf.add _)) fun _ y has => ?_
  refine Safely.andThen (freeBlock_runs has wiBuf) fun _ y has => ?_
  refine Safely.andThen (freeBlock_runs has inW) fun _ y has => ?_
  refine Safely.andThen (closeHeld_runs has doneEv) fun _ y has => ?_
  refine Safely.andThen (closeHeld_runs has job) fun _ y has => ?_
  refine Safely.andThen (freeJob_runs has own) fun _ y done => ?_
  obtain ⟨lore', has, closes⟩ := done
  exact Runs.free (f := pure) has kept fun y has => Safely.done has (Kernel.Knows.stable lore') fun _ later =>
    ⟨lore', later, closes⟩

/-- What `child_free` leaves: nothing, or what its threads still work with.
-/
def ChildFreed (c : ChildRecord) (address : Nat) (F : Multiset Asset) (ts : List (Task Asset)) (lore : Lore)
    (left : Option ChildRecord) (y : LaunchWorld) : Prop :=
  ∃ lore', lore.Closes c.job lore' ∧ match left with
    | none => Has F ts lore' y
    | some c' => c' = c ∧ Has (c.held + ({.block address} + F)) (c.tasks address ++ ts) lore' y

theorem freeChild_runs {flags : ThreadFlags} (has : Has (c.held + ({.block address} + F))
      (c.tasks address ++ ts) lore x)
    (tracked : c.Tracked) (kept : Kept ts F) : Runs (freeChild address c flags)
    (ChildFreed c address F ts lore) x := by
  unfold freeChild
  split
  · rename_i reaped
    obtain ⟨still, closed⟩ := tracked.done reaped
    rw [still.tasks, List.nil_append] at has
    refine Safely.andThen (childGiveBack_runs has still closed kept) fun _ y done => ?_
    obtain ⟨lore', has, closes⟩ := done
    exact Safely.done has (Kernel.Knows.stable lore') fun _ later => ⟨lore', closes, later⟩
  rename_i alive
  have alive : c.reaped = false := by simpa using alive
  have job : ∀ a, c.job = some a → .job a ∈ c.held + ({.block address} + F) := fun a known => by
    simp only [ChildRecord.held, ChildRecord.kept, known, heldJob, Option.elim_some, Multiset.mem_add,
      Multiset.mem_singleton,
      true_or, or_true]
  refine Safely.andThen (killJob_runs has job) fun _ y done => ?_
  obtain ⟨lore', has, closes⟩ := done
  refine Safely.andThen (childReap_runs has tracked kept) fun r y done => ?_
  obtain ⟨has, same | same | same⟩ := done
  · rw [if_pos ⟨same.2.2, same.1 ▸ same.2.1⟩]
    exact Safely.done has (Kernel.Knows.stable lore') fun _ later => ⟨lore', closes, same.1, same.1 ▸ later⟩
  · rw [alive] at same
    cases same.2
  · obtain ⟨reaped, -⟩ := same
    rw [reaped] at has ⊢
    rw [if_neg (by simp [ChildRecord.reap])]
    rw [c.reap_still.tasks, List.nil_append] at has
    refine Safely.andThen (childGiveBack_runs has c.reap_still ⟨rfl, rfl, rfl⟩ kept) fun _ y done => ?_
    obtain ⟨lore'', has, closes'⟩ := done
    exact Safely.done has (Kernel.Knows.stable lore'') fun _ later => ⟨lore'', closes.trans closes', later⟩

end

end Machteld
