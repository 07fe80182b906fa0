import Machteld.Child.State

namespace Machteld

/-- What an answer says of a completed child agrees with its outcome. -/
def ChildAnswer.Final (outcome : Except TclError ChildDict) : ChildAnswer → Prop
  | .wait reported => reported = outcome
  | .kill _ => True
  | .info dict => dict.running = false ∧ ∀ d code, outcome = .ok d → dict.exit = some code → d.exit = some code

/-- The monitor finds the deadline of a child gone by. -/
def ChildExpires (deadline : Nat) (op : ChildOp) : Prop :=
  ∃ now terminated, op = .check now terminated ∧ deadline ≠ 0 ∧ deadline ≤ now

/-- A kill, or the monitor terminates the job itself. -/
def ChildKills (deadline : Nat) (op : ChildOp) : Prop :=
  op = .terminate true ∨ op = .direct .failed ∨ op = .active none ∨ ChildExpires deadline op

/-- What a child reports behind its completion is one outcome, and what it
says of kills and deadlines happened before. -/
def ChildFinal (c : ChildT) (before : List ChildOp) (answers : List ChildAnswer) : Prop :=
  ∃ outcome, (∀ answer ∈ answers, answer.Final outcome) ∧ ∀ d, outcome = .ok d →
    (d.status = .killed → ∃ op ∈ before, ChildKills c.deadline op) ∧
    (d.status = .timeout → ∃ op ∈ before, ChildExpires c.deadline op)

/-- The steps behind a completion that leave it alone: no kill takes a child
that was not killed, and the reaping wait finds no failure. -/
def ChildMeets (c : ChildT) : ChildOp → Prop
  | .wait answer => c.reaped = true ∨ ∃ joinFailed, answer = .object joinFailed ∧ childIoError c joinFailed = none
  | .terminate terminated => terminated = true → c.reaped = true ∨ c.killed = true
  | _ => True

/-- Completion is signalled when the threads are done. -/
structure ChildT.Sound (c : ChildT) : Prop where
  channelled : c.channels.isSome → c.ro.running = false ∧ c.re.running = false
  drained : c.monitor = .set ∨ c.monitor = .gone →
    c.ro.running = false ∧ c.re.running = false ∧ c.wi.running = false
  signalled : c.doneEv = true → c.monitor = .gone

theorem childStart_sound (token : Bytes) (pid : Nat) (channels : Option (Bytes × Bytes × Bytes)) (deadline : Nat)
    (stdin : Bool) : (childStart token pid channels deadline stdin).Sound where
  channelled given := by cases channels <;> simp_all [childStart]
  drained done := by rcases done with done | done <;> cases done
  signalled done := nomatch done

/-- What a step of the monitor does to a child. -/
structure ChildT.Monitored (c : ChildT) (op : ChildOp) (c' : ChildT) : Prop where
  io : c'.ro = c.ro ∧ c'.re = c.re ∧ c'.wi = c.wi ∧ c'.channels = c.channels
  commands : c'.reaped = c.reaped ∧ c'.killing = c.killing
  running : c.monitor ≠ .gone
  signals : c'.monitor ≠ .gone → c'.doneEv = c.doneEv
  drained : c'.monitor = .set ∨ c'.monitor = .gone → c.monitor = .set ∨
    c.wi.running = false ∧ (c.channels.isSome ∨ c.ro.running = false ∧ c.re.running = false)
  killed : c'.killed = true → c.killed = true ∨ ChildKills c.deadline op
  timeout : c'.timeout = true → c.timeout = true ∨ ChildExpires c.deadline op
  deadline : c'.deadline = c.deadline ∨ c'.deadline = 0

/-- While only the direct process is watched, the monitor notes its end or
goes on to the job. -/
theorem childMonitorStep_direct {c c' : ChildT} {directDone queryFailed : Bool} {op : ChildOp}
    (stands : c.monitor = .direct directDone queryFailed)
    (step : childMonitorStep c (.direct directDone queryFailed) op = some c') : c.Monitored op c' := by
  cases op with
  | direct answer =>
    simp only [childMonitorStep] at step
    cases directDone with
    | true =>
      obtain rfl := Option.some.inj step
      constructor <;> simp_all
    | false =>
      rcases answer with ⟨_ | code⟩ | _ | _ <;> obtain rfl := Option.some.inj step <;> constructor <;>
        simp_all [ChildKills]
  | _ => cases step

/-- In the job's wait, the monitor reads how many processes are left. -/
theorem childMonitorStep_active {c c' : ChildT} {directDone queryFailed : Bool} {op : ChildOp}
    (stands : c.monitor = .active directDone queryFailed)
    (step : childMonitorStep c (.active directDone queryFailed) op = some c') : c.Monitored op c' := by
  cases op with
  | active answer =>
    simp only [childMonitorStep] at step
    cases queryFailed with
    | true =>
      obtain rfl := Option.some.inj step
      constructor <;> simp_all
    | false => rcases answer with _ | active <;> obtain rfl := Option.some.inj step <;> constructor <;>
        simp_all [ChildKills]
  | _ => cases step

/-- The monitor ends where no process is left and the direct one has ended.
-/
theorem childMonitorStep_check {c c' : ChildT} {directDone queryFailed : Bool} {active : Nat} {op : ChildOp}
    (stands : c.monitor = .check directDone queryFailed active)
    (step : childMonitorStep c (.check directDone queryFailed active) op = some c') : c.Monitored op c' := by
  cases op with
  | check now terminated =>
    simp only [childMonitorStep] at step
    split_ifs at step with done expired went
    · obtain rfl := Option.some.inj step
      constructor <;> simp_all
    · obtain rfl := Option.some.inj step
      constructor <;> simp_all [ChildKills, ChildExpires]
    · obtain rfl := Option.some.inj step
      constructor <;> simp_all [ChildKills, ChildExpires]
    · obtain rfl := Option.some.inj step
      constructor <;> simp_all
  | _ => cases step

/-- A step of the monitor changes nothing but its own stage and the notes it
takes. -/
theorem childMonitorStep_monitored {c c' : ChildT} {op : ChildOp}
    (step : childMonitorStep c c.monitor op = some c') :
    c.Monitored op c' := by
  cases stands : c.monitor with
  | direct directDone queryFailed => exact childMonitorStep_direct stands (stands ▸ step)
  | active directDone queryFailed => exact childMonitorStep_active stands (stands ▸ step)
  | check directDone queryFailed active => exact childMonitorStep_check stands (stands ▸ step)
  | set =>
    rw [stands] at step
    cases op with
    | set =>
      obtain rfl := Option.some.inj step
      constructor <;> simp_all
    | _ => cases step
  | gone =>
    rw [stands] at step
    cases step

/-- The notes are consistent behind each step of the monitor. -/
theorem ChildT.Monitored.sound {c c' : ChildT} {op : ChildOp} (sound : c.Sound)
    (step : c.Monitored op c') : c'.Sound := by
  obtain ⟨ro, re, wi, channels⟩ := step.io
  refine ⟨by rw [channels, ro, re]; exact sound.channelled, fun done => ?_, fun signalled => ?_⟩
  · rw [ro, re, wi]
    rcases step.drained done with stood | ⟨input, given | output⟩
    · exact sound.drained (Or.inl stood)
    · exact ⟨(sound.channelled given).1, (sound.channelled given).2, input⟩
    · exact ⟨output.1, output.2, input⟩
  · by_contra unfinished
    rw [step.signals unfinished] at signalled
    exact step.running (sound.signalled signalled)

/-- The event is not set while a thread of the child runs, as the monitor
asks for them before it comes to that stage. -/
theorem ChildT.Sound.unfinished {c : ChildT} (sound : c.Sound)
    (runs : c.ro.running = true ∨ c.re.running = true ∨ c.wi.running = true) :
    c.monitor ≠ .set ∧ c.monitor ≠ .gone := by
  have busy : ∀ done : c.monitor = .set ∨ c.monitor = .gone, False := by
    intro done
    obtain ⟨out, err, input⟩ := sound.drained done
    rcases runs with runs | runs | runs
    · exact Bool.noConfusion (out.symm.trans runs)
    · exact Bool.noConfusion (err.symm.trans runs)
    · exact Bool.noConfusion (input.symm.trans runs)
  exact ⟨fun done => busy (Or.inl done), fun done => busy (Or.inr done)⟩

/-- A wait leaves the child as it is or reaps it. -/
theorem childWait_cases {c c' : ChildT} {answer : ReapWait} {outcome : Except TclError ChildDict}
    (step : childWait c answer = some (c', outcome)) :
    (c' = c ∨ c' = { c with reaped := true } ∧ c.doneEv = true) ∧
      (c.doneEv = true → ChildMeets c (.wait answer) → c'.reaped = true ∧ outcome = .ok (childDict c false)) := by
  unfold childWait at step
  by_cases reaped : c.reaped = true
  · rw [if_pos reaped] at step
    obtain ⟨rfl, rfl⟩ := Prod.mk.inj (Option.some.inj step)
    exact ⟨Or.inl rfl, fun _ _ => ⟨reaped, rfl⟩⟩
  · rw [if_neg reaped] at step
    cases answer with
    | timeout =>
      simp only at step
      split_ifs at step with done
      obtain ⟨rfl, -⟩ := Prod.mk.inj (Option.some.inj step)
      exact ⟨Or.inl rfl, fun signalled => absurd signalled done⟩
    | failed =>
      obtain ⟨rfl, -⟩ := Prod.mk.inj (Option.some.inj step)
      refine ⟨Or.inl rfl, fun _ meets => ?_⟩
      rcases meets with already | ⟨_, wrong, _⟩
      · exact absurd already reaped
      · cases wrong
    | object joinFailed =>
      simp only at step
      split_ifs at step with done
      refine ⟨?_, fun _ meets => ?_⟩
      · cases failure : childIoError c joinFailed <;> rw [failure] at step <;>
          exact Or.inr ⟨(Prod.mk.inj (Option.some.inj step)).1.symm, done⟩
      · rcases meets with already | ⟨_, same, healthy⟩
        · exact absurd already reaped
        · cases same
          rw [healthy] at step
          obtain ⟨rfl, rfl⟩ := Prod.mk.inj (Option.some.inj step)
          exact ⟨rfl, rfl⟩

/-- Every step, of whichever thread, keeps the record consistent: by cases
on the step, and for the monitor's own steps from the lemma about them. -/
theorem childStep_sound {c c' : ChildT} {op : ChildOp} {answers : List ChildAnswer} (sound : c.Sound)
    (step : childStep c op = some (c', answers)) : c'.Sound := by
  have monitored : ∀ op, (childMonitorStep c c.monitor op).map (fun c => (c, ([] : List ChildAnswer))) =
      some (c', answers) → c'.Sound := by
    intro op step
    obtain ⟨c₁, stepped, same⟩ := Option.map_eq_some_iff.mp step
    obtain ⟨rfl, -⟩ := Prod.mk.inj same
    exact (childMonitorStep_monitored stepped).sound sound
  cases op with
  | direct answer => exact monitored _ step
  | active answer => exact monitored _ step
  | check now terminated => exact monitored _ step
  | set => exact monitored _ step
  | out got =>
    simp only [childStep] at step
    split_ifs at step with runs
    obtain ⟨rfl, -⟩ := Prod.mk.inj (Option.some.inj step)
    obtain ⟨set, gone⟩ := sound.unfinished (Or.inl runs)
    exact ⟨fun given => absurd runs (by simp [(sound.channelled given).1]),
      fun done => (done.elim set gone).elim, sound.signalled⟩
  | err got =>
    simp only [childStep] at step
    split_ifs at step with runs
    obtain ⟨rfl, -⟩ := Prod.mk.inj (Option.some.inj step)
    obtain ⟨set, gone⟩ := sound.unfinished (Or.inr (Or.inl runs))
    exact ⟨fun given => absurd runs (by simp [(sound.channelled given).2]),
      fun done => (done.elim set gone).elim, sound.signalled⟩
  | input error =>
    simp only [childStep] at step
    split_ifs at step with runs
    obtain ⟨rfl, -⟩ := Prod.mk.inj (Option.some.inj step)
    obtain ⟨set, gone⟩ := sound.unfinished (Or.inr (Or.inr runs))
    exact ⟨sound.channelled, fun done => (done.elim set gone).elim, sound.signalled⟩
  | wait answer =>
    simp only [childStep] at step
    split_ifs at step
    obtain ⟨⟨c₁, outcome⟩, waited, same⟩ := Option.map_eq_some_iff.mp step
    obtain ⟨rfl, -⟩ := Prod.mk.inj same
    rcases (childWait_cases waited).1 with rfl | ⟨rfl, -⟩
    · exact sound
    · exact ⟨sound.channelled, sound.drained, sound.signalled⟩
  | terminate terminated =>
    simp only [childStep] at step
    split_ifs at step <;> obtain ⟨rfl, -⟩ := Prod.mk.inj (Option.some.inj step)
    · exact sound
    · exact ⟨sound.channelled, sound.drained, sound.signalled⟩
    · exact sound
  | killed =>
    simp only [childStep] at step
    split_ifs at step
    obtain ⟨rfl, -⟩ := Prod.mk.inj (Option.some.inj step)
    exact ⟨sound.channelled, sound.drained, sound.signalled⟩
  | info =>
    simp only [childStep] at step
    split_ifs at step
    obtain ⟨rfl, -⟩ := Prod.mk.inj (Option.some.inj step)
    exact sound

/-- What a completed child reports, a kill in progress included. -/
def childOutcome (c : ChildT) : ChildDict := childDict { c with killed := c.killed || c.killing } false

structure ChildT.Completed (c : ChildT) (d : ChildDict) : Prop where
  sound : c.Sound
  done : c.doneEv = true
  outcome : childOutcome c = d

theorem childOutcome_idle {c : ChildT} (idle : ¬ c.killing = true) : childOutcome c = childDict c false := by
  simp [childOutcome, childDict, idle]

/-- Once a child is completed, its dict is final: no step changes it, and
every later answer has it. The condition keeps a kill from coming between.
-/
theorem ChildT.Completed.step {d : ChildDict} {c c' : ChildT} {op : ChildOp} {answers : List ChildAnswer}
    (completed : c.Completed d) (meets : ChildMeets c op) (step : childStep c op = some (c', answers)) :
    c'.Completed d ∧ ∀ answer ∈ answers, answer.Final (.ok d) := by
  have sound := childStep_sound completed.sound step
  have gone := completed.sound.signalled completed.done
  obtain ⟨out, err, input⟩ := completed.sound.drained (Or.inr gone)
  have stopped : ∀ op, ¬ (childMonitorStep c c.monitor op).map (fun c => (c, ([] : List ChildAnswer))) =
      some (c', answers) := by
    intro op bad
    rw [gone] at bad
    cases bad
  cases op with
  | direct answer => exact absurd step (stopped _)
  | active answer => exact absurd step (stopped _)
  | check now terminated => exact absurd step (stopped _)
  | set => exact absurd step (stopped _)
  | out got => simp [childStep, out] at step
  | err got => simp [childStep, err] at step
  | input error => simp [childStep, input] at step
  | wait answer =>
    simp only [childStep] at step
    split_ifs at step with idle
    obtain ⟨⟨c₁, reported⟩, waited, same⟩ := Option.map_eq_some_iff.mp step
    obtain ⟨rfl, rfl⟩ := Prod.mk.inj same
    obtain ⟨kept, final⟩ := childWait_cases waited
    obtain ⟨-, rfl⟩ := final completed.done meets
    have dict : childDict c false = d := (childOutcome_idle idle).symm.trans completed.outcome
    refine ⟨⟨sound, ?_, ?_⟩, List.forall_mem_singleton.mpr (congrArg Except.ok dict)⟩
    · rcases kept with rfl | ⟨rfl, done⟩
      · exact completed.done
      · exact done
    · rcases kept with rfl | ⟨rfl, -⟩ <;> exact completed.outcome
  | terminate terminated =>
    simp only [childStep] at step
    split_ifs at step with idle reaped went <;> obtain ⟨rfl, rfl⟩ := Prod.mk.inj (Option.some.inj step)
    · exact ⟨completed, List.forall_mem_singleton.mpr trivial⟩
    · have already : c.killed = true := (meets went).resolve_left reaped
      refine ⟨⟨sound, completed.done, ?_⟩, List.forall_mem_nil _⟩
      rw [← completed.outcome, childOutcome_idle idle]
      simp [childOutcome, childDict, already]
    · exact ⟨completed, List.forall_mem_singleton.mpr trivial⟩
  | killed =>
    simp only [childStep] at step
    split_ifs at step with killing
    obtain ⟨rfl, rfl⟩ := Prod.mk.inj (Option.some.inj step)
    refine ⟨⟨sound, completed.done, ?_⟩, List.forall_mem_singleton.mpr trivial⟩
    rw [← completed.outcome]
    simp [childOutcome, childDict, killing]
  | info =>
    simp only [childStep] at step
    split_ifs at step
    obtain ⟨rfl, rfl⟩ := Prod.mk.inj (Option.some.inj step)
    refine ⟨completed,
      List.forall_mem_singleton.mpr ⟨by simp [childInfo, completed.done], fun d' code same shown => ?_⟩⟩
    obtain rfl := Except.ok.inj same
    rw [← completed.outcome]
    simp only [childInfo] at shown
    split_ifs at shown
    exact shown

/-- How a flag that tells of a kill or of the deadline comes about. -/
theorem childStep_flags {deadline : Nat} {c c' : ChildT} {op : ChildOp} {answers : List ChildAnswer}
    (bound : c.deadline = deadline ∨ c.deadline = 0) (step : childStep c op = some (c', answers)) :
    (c'.deadline = deadline ∨ c'.deadline = 0) ∧
      (c'.killed = true ∨ c'.killing = true → (c.killed = true ∨ c.killing = true) ∨ ChildKills deadline op) ∧
      (c'.timeout = true → c.timeout = true ∨ ChildExpires deadline op) := by
  have expires : ∀ {op}, ChildExpires c.deadline op → ChildExpires deadline op := by
    rintro op ⟨now, terminated, same, positive, past⟩
    rcases bound with same' | zero
    · exact ⟨now, terminated, same, same' ▸ positive, same' ▸ past⟩
    · exact absurd zero positive
  have monitored : ∀ op, (childMonitorStep c c.monitor op).map (fun c => (c, ([] : List ChildAnswer))) =
      some (c', answers) → (c'.deadline = deadline ∨ c'.deadline = 0) ∧
      (c'.killed = true ∨ c'.killing = true → (c.killed = true ∨ c.killing = true) ∨ ChildKills deadline op) ∧
      (c'.timeout = true → c.timeout = true ∨ ChildExpires deadline op) := by
    intro op step
    obtain ⟨c₁, stepped, same⟩ := Option.map_eq_some_iff.mp step
    obtain ⟨rfl, -⟩ := Prod.mk.inj same
    have moved := childMonitorStep_monitored stepped
    refine ⟨?_, fun flagged => ?_, fun late => (moved.timeout late).imp_right expires⟩
    · rcases moved.deadline with same | zero
      · exact same ▸ bound
      · exact Or.inr zero
    · rw [moved.commands.2] at flagged
      rcases flagged with killed | killing
      · rcases moved.killed killed with before | why
        · exact Or.inl (Or.inl before)
        · exact Or.inr (why.imp_right (Or.imp_right (Or.imp_right expires)))
      · exact Or.inl (Or.inr killing)
  cases op with
  | direct answer => exact monitored _ step
  | active answer => exact monitored _ step
  | check now terminated => exact monitored _ step
  | set => exact monitored _ step
  | wait answer =>
    simp only [childStep] at step
    split_ifs at step
    obtain ⟨⟨c₁, outcome⟩, waited, same⟩ := Option.map_eq_some_iff.mp step
    obtain ⟨rfl, -⟩ := Prod.mk.inj same
    rcases (childWait_cases waited).1 with rfl | ⟨rfl, -⟩ <;> exact ⟨bound, Or.inl, Or.inl⟩
  | terminate terminated =>
    simp only [childStep] at step
    split_ifs at step with idle reaped went <;> obtain ⟨rfl, -⟩ := Prod.mk.inj (Option.some.inj step)
    · exact ⟨bound, Or.inl, Or.inl⟩
    · exact ⟨bound, fun _ => Or.inr (Or.inl (by rw [went])), Or.inl⟩
    · exact ⟨bound, Or.inl, Or.inl⟩
  | killed =>
    simp only [childStep] at step
    split_ifs at step with killing
    obtain ⟨rfl, -⟩ := Prod.mk.inj (Option.some.inj step)
    exact ⟨bound, fun _ => Or.inl (Or.inr killing), Or.inl⟩
  | out got | err got | input error | info =>
    simp only [childStep] at step
    split_ifs at step
    obtain ⟨rfl, -⟩ := Prod.mk.inj (Option.some.inj step)
    exact ⟨bound, Or.inl, Or.inl⟩

theorem childDict_status {c : ChildT} :
    ((childDict c false).status = .killed → c.killed = true) ∧
      ((childDict c false).status = .timeout → c.timeout = true) := by
  simp only [childDict]
  constructor <;> intro same <;> by_contra unset <;> simp [unset] at same <;> split_ifs at same

theorem childStep_set {c c' : ChildT} {answers : List ChildAnswer} (step : childStep c .set = some (c', answers)) :
    c' = { c with doneEv := true, monitor := .gone } := by
  obtain ⟨c₁, stepped, same⟩ := Option.map_eq_some_iff.mp step
  obtain ⟨rfl, -⟩ := Prod.mk.inj same
  cases stands : c.monitor <;> rw [stands] at stepped <;> cases stepped
  rfl

/-- What a child reports behind its completion is final, where no kill takes
it between completion and the reaping wait and that wait finds no failure.
-/
theorem child_final {token : Bytes} {pid deadline : Nat} {channels : Option (Bytes × Bytes × Bytes)} {stdin : Bool}
    {c₁ c₂ c₃ : ChildT} {before after : List ChildOp} {answers reported : List ChildAnswer}
    (run : childRun (childStart token pid channels deadline stdin) before = some (c₁, answers))
    (completes : childStep c₁ .set = some (c₂, []))
    (meets : RunMeets childStep ChildMeets c₂ after) (rest : childRun c₂ after = some (c₃, reported)) :
    ChildFinal (childStart token pid channels deadline stdin) before reported := by
  have start := childStart_sound token pid channels deadline stdin
  have sound := childStep_sound
    (runSteps_invariant (fun _ _ _ _ sound step => childStep_sound sound step) start run) completes
  have set := childStep_set completes
  have completed : c₂.Completed (childOutcome c₂) := ⟨sound, by rw [set], rfl⟩
  have final := (runSteps_answers (I := fun c => c.Completed (childOutcome c₂))
    (fun _ _ _ _ completed meets step => completed.step meets step) completed meets rest).2
  have bound : ∀ c op c' here, (c.deadline = deadline ∨ c.deadline = 0) → childStep c op = some (c', here) →
      c'.deadline = deadline ∨ c'.deadline = 0 := fun _ _ _ _ bound step => (childStep_flags bound step).1
  refine ⟨.ok (childOutcome c₂), final, fun d same => ?_⟩
  obtain rfl := Except.ok.inj same
  refine ⟨fun status => ?_, fun status => ?_⟩
  · have flagged : c₁.killed = true ∨ c₁.killing = true := by
      have killed := childDict_status.1 status
      rw [set] at killed
      simpa using killed
    refine (runSteps_cause bound (fun _ _ _ _ bound step => (childStep_flags bound step).2.1) (Or.inl rfl) run
      flagged).resolve_left ?_
    rintro (killed | killing)
    · cases killed
    · cases killing
  · have late : c₁.timeout = true := by
      have late := childDict_status.2 status
      rw [set] at late
      exact late
    refine (runSteps_cause bound (fun _ _ _ _ bound step => (childStep_flags bound step).2.2) (Or.inl rfl) run
      late).resolve_left ?_
    intro early
    cases early

/-- A child without input or deadline. -/
def childSample : ChildT := childStart (ascii "child#1") 7 none 0 false

/-- It ends with code 0 when its output has been read. -/
def childEnds (got : ReaderGot) : List ChildOp :=
  [.out got, .err .ended, .direct (.object (some 0)), .active (some 0), .check 0 true]

def childDone (error : Nat) : ChildT :=
  { childSample with
    monitor := .set
    ro := { childSample.ro with error := error, running := false }
    re := { childSample.re with running := false } }

/-- Its completion is signalled. -/
def childSignalled (error : Nat) : ChildT := { childDone error with doneEv := true, monitor := .gone }

theorem child_final_sample : childRun childSample (childEnds .ended) = some (childDone 0, []) ∧
    childStep (childDone 0) .set = some (childSignalled 0, []) ∧
    ChildFinal childSample (childEnds .ended)
      [.wait (.ok (childDict (childDone 0) false)), .kill (.ok ()),
        .wait (.ok (childDict (childDone 0) false))] := by
  have run : childRun childSample (childEnds .ended) = some (childDone 0, []) := rfl
  have rest : childRun (childSignalled 0) [.wait (.object false), .terminate true, .wait .timeout] =
      some ({ childSignalled 0 with reaped := true }, [.wait (.ok (childDict (childDone 0) false)), .kill (.ok ()),
        .wait (.ok (childDict (childDone 0) false))]) := rfl
  have meets : RunMeets childStep ChildMeets (childSignalled 0)
      [.wait (.object false), .terminate true, .wait .timeout] := by
    refine ⟨Or.inr ⟨false, rfl, rfl⟩, fun c here step => ?_⟩
    obtain ⟨rfl, -⟩ := Prod.mk.inj (Option.some.inj step)
    refine ⟨fun _ => Or.inl rfl, fun c here step => ?_⟩
    obtain ⟨rfl, -⟩ := Prod.mk.inj (Option.some.inj step)
    exact ⟨Or.inl rfl, fun _ _ _ => trivial⟩
  exact ⟨run, rfl, child_final run rfl meets rest⟩

/-- A kill behind the completion turns the status into `killed`; a failure
is reported once and then forgotten. -/
theorem child_not_final :
    (childRun childSample (childEnds .ended) = some (childDone 0, []) ∧
      childStep (childDone 0) .set = some (childSignalled 0, []) ∧
      childRun (childSignalled 0) [.terminate true, .killed, .wait (.object false)] =
        some ({ childSignalled 0 with killed := true, reaped := true },
          [.kill (.ok ()), .wait (.ok { childDict (childDone 0) false with status := .killed })]) ∧
      ¬ ChildFinal childSample (childEnds .ended)
          [.kill (.ok ()), .wait (.ok { childDict (childDone 0) false with status := .killed })]) ∧
    (childRun childSample (childEnds (.failed 5)) = some (childDone 5, []) ∧
      childStep (childDone 5) .set = some (childSignalled 5, []) ∧
      childRun (childSignalled 5) [.wait (.object false), .wait (.object false)] =
        some ({ childSignalled 5 with reaped := true },
          [.wait (.error (childError "oserror" (ascii "reading child output failed"))),
            .wait (.ok (childDict (childDone 5) false))]) ∧
      ¬ ChildFinal childSample (childEnds (.failed 5))
          [.wait (.error (childError "oserror" (ascii "reading child output failed"))),
            .wait (.ok (childDict (childDone 5) false))]) := by
  refine ⟨⟨rfl, rfl, rfl, fun final => ?_⟩, ⟨rfl, rfl, rfl, fun final => ?_⟩⟩
  · obtain ⟨outcome, same, cause⟩ := final
    obtain rfl : _ = outcome := same _ (List.mem_cons_of_mem _ (List.mem_cons_self ..))
    obtain ⟨op, member, kills⟩ := (cause _ rfl).1 rfl
    rcases kills with rfl | rfl | rfl | ⟨now, terminated, -, positive, -⟩
    · simp [childEnds] at member
    · simp [childEnds] at member
    · simp [childEnds] at member
    · exact positive rfl
  · obtain ⟨outcome, same, -⟩ := final
    have first : _ = outcome := same _ (List.mem_cons_self ..)
    have second : _ = outcome := same _ (List.mem_cons_of_mem _ (List.mem_cons_self ..))
    rw [← second] at first
    cases first

end Machteld
