import Machteld.Child.Final

namespace Machteld

/-- The threads that read and write for the child have finished. -/
def ChildT.Drained (c : ChildT) : Prop :=
  c.wi.running = false ∧ (c.channels.isSome = true ∨ c.ro.running = false ∧ c.re.running = false)

/-- A step that is not one of the monitor. -/
def ChildOp.Aside : ChildOp → Prop
  | .direct _ | .active _ | .check _ _ | .set => False
  | _ => True

/-- What an iteration of the loop of `child_monitor_thread` meets, with the
steps of others before each of its own. -/
structure MonitorTurn where
  before : List ChildOp
  direct : DirectWait
  between : List ChildOp
  active : Option Nat
  after : List ChildOp
  now : Nat
  terminated : Bool

def MonitorTurn.ops (turn : MonitorTurn) : List ChildOp :=
  turn.before ++ .direct turn.direct :: (turn.between ++ .active turn.active ::
    (turn.after ++ [.check turn.now turn.terminated]))

/-- The direct process has exited and the job is empty; each query may fail.
-/
structure MonitorTurn.Over (turn : MonitorTurn) : Prop where
  before : ∀ op ∈ turn.before, op.Aside
  between : ∀ op ∈ turn.between, op.Aside
  after : ∀ op ∈ turn.after, op.Aside
  exited : turn.direct ≠ .timeout
  empty : turn.active = none ∨ turn.active = some 0

/-- The state at the top of each iteration, for as long as the loop goes on.
-/
def MonitorLoop (turns : Nat → MonitorTurn) (s : Nat → ChildT) : Prop :=
  ∀ n, (∃ d q, (s n).monitor = .direct d q) → ∃ answers, childRun (s n) (turns n).ops = some (s (n + 1), answers)

/-- The monitor has left its loop, and its next step signals completion, at
which a wait for it returns. -/
def ChildT.Leaves (c : ChildT) : Prop :=
  c.monitor = .set ∧ ∃ c', childStep c .set = some (c', []) ∧ c'.doneEv = true ∧
    ∀ joinFailed, (childWait c' (.object joinFailed)).isSome = true

/-- At its last stage the monitor sets the event, at which a wait returns.
-/
theorem ChildT.leaves_of_set {c : ChildT} (left : c.monitor = .set) : c.Leaves := by
  have step : childMonitorStep c .set .set = some { c with doneEv := true, monitor := .gone } := rfl
  refine ⟨left, { c with doneEv := true, monitor := .gone }, ?_, rfl, fun joinFailed => ?_⟩
  · change (childMonitorStep c c.monitor .set).map (fun c => (c, ([] : List ChildAnswer))) = _
    rw [left, step]
    rfl
  · unfold childWait
    split_ifs with reaped signalled
    · rfl
    · dsimp only
      split <;> rfl
    · exact absurd rfl signalled

/-- The other threads and the commands do not touch what the monitor stands
at, nor start a thread. -/
theorem childStep_aside {c c' : ChildT} {op : ChildOp} {answers : List ChildAnswer} (aside : op.Aside)
    (step : childStep c op = some (c', answers)) : c'.monitor = c.monitor ∧ (c.Drained → c'.Drained) := by
  cases op with
  | direct answer => exact aside.elim
  | active answer => exact aside.elim
  | check now terminated => exact aside.elim
  | set => exact aside.elim
  | out got =>
    simp only [childStep] at step
    split_ifs at step with runs
    obtain ⟨rfl, -⟩ := Prod.mk.inj (Option.some.inj step)
    refine ⟨rfl, fun drained => ⟨drained.1, drained.2.imp id fun ended => ?_⟩⟩
    exact absurd (ended.1.symm.trans runs) Bool.false_ne_true
  | err got =>
    simp only [childStep] at step
    split_ifs at step with runs
    obtain ⟨rfl, -⟩ := Prod.mk.inj (Option.some.inj step)
    refine ⟨rfl, fun drained => ⟨drained.1, drained.2.imp id fun ended => ?_⟩⟩
    exact absurd (ended.2.symm.trans runs) Bool.false_ne_true
  | input error =>
    simp only [childStep] at step
    split_ifs at step with runs
    obtain ⟨rfl, -⟩ := Prod.mk.inj (Option.some.inj step)
    exact ⟨rfl, fun drained => ⟨rfl, drained.2⟩⟩
  | wait answer =>
    simp only [childStep] at step
    split_ifs at step
    obtain ⟨⟨c₁, outcome⟩, waited, same⟩ := Option.map_eq_some_iff.mp step
    obtain ⟨rfl, -⟩ := Prod.mk.inj same
    rcases (childWait_cases waited).1 with rfl | ⟨rfl, -⟩
    · exact ⟨rfl, id⟩
    · exact ⟨rfl, id⟩
  | terminate terminated =>
    simp only [childStep] at step
    split_ifs at step <;> obtain ⟨rfl, -⟩ := Prod.mk.inj (Option.some.inj step) <;> exact ⟨rfl, id⟩
  | killed =>
    simp only [childStep] at step
    split_ifs at step
    obtain ⟨rfl, -⟩ := Prod.mk.inj (Option.some.inj step)
    exact ⟨rfl, id⟩
  | info =>
    simp only [childStep] at step
    split_ifs at step
    obtain ⟨rfl, -⟩ := Prod.mk.inj (Option.some.inj step)
    exact ⟨rfl, id⟩

/-- A step of the monitor behind steps of others. -/
theorem childRun_monitor {c c' : ChildT} {ops rest : List ChildOp} {op : ChildOp} {answers : List ChildAnswer}
    (aside : ∀ op ∈ ops, op.Aside)
    (kind : ∀ c : ChildT, childStep c op = (childMonitorStep c c.monitor op).map fun c => (c, []))
    (drained : c.Drained) (run : childRun c (ops ++ op :: rest) = some (c', answers)) :
    ∃ t u later, t.Drained ∧ childMonitorStep t c.monitor op = some u ∧ childRun u rest = some (c', later) := by
  induction ops generalizing c answers with
  | nil =>
    obtain ⟨u, here, later, step, others, -⟩ := runSteps_cons run
    rw [kind] at step
    obtain ⟨u', stepped, same⟩ := Option.map_eq_some_iff.mp step
    obtain ⟨rfl, -⟩ := Prod.mk.inj same
    exact ⟨c, u', later, drained, stepped, others⟩
  | cons first ops ih =>
    obtain ⟨here, others⟩ := List.forall_mem_cons.mp aside
    obtain ⟨t, now, later, step, run', -⟩ := runSteps_cons run
    obtain ⟨stands, still⟩ := childStep_aside here step
    rw [← stands]
    exact ih others (still drained) run'

/-- An iteration notes the exit unless the query for the code fails, and
leaves where it has. -/
theorem childMonitor_turn {c c' : ChildT} {turn : MonitorTurn} {answers : List ChildAnswer}
    {directDone queryFailed : Bool} (ends : turn.Over) (drained : c.Drained)
    (stands : c.monitor = .direct directDone queryFailed)
    (run : childRun c turn.ops = some (c', answers)) :
    (directDone = true ∨ turn.direct ≠ .object none) ∧ c'.monitor = .set ∨
      (directDone = false ∧ turn.direct = .object none) ∧ c'.Drained ∧
        ∃ failed, c'.monitor = .direct false failed := by
  obtain ⟨t, t₁, _, drained₁, direct, run₁⟩ := childRun_monitor ends.before (fun _ => rfl) drained run
  rw [stands] at direct
  have asked : t₁.Drained ∧ ∃ done failed, t₁.monitor = .active done failed ∧
      ((directDone = true ∨ turn.direct ≠ .object none) ∧ done = true ∨
        (directDone = false ∧ turn.direct = .object none) ∧ done = false ∧ failed = true) := by
    simp only [childMonitorStep] at direct
    cases directDone with
    | true =>
      obtain rfl := Option.some.inj direct
      exact ⟨drained₁, true, queryFailed, rfl, Or.inl ⟨Or.inl rfl, rfl⟩⟩
    | false =>
      cases wait : turn.direct with
      | timeout => exact absurd wait ends.exited
      | failed =>
        rw [wait] at direct
        obtain rfl := Option.some.inj direct
        exact ⟨drained₁, true, true, rfl, Or.inl ⟨Or.inr (by simp), rfl⟩⟩
      | object code =>
        rw [wait] at direct
        cases code with
        | some code =>
          obtain rfl := Option.some.inj direct
          exact ⟨drained₁, true, queryFailed, rfl, Or.inl ⟨Or.inr (by simp), rfl⟩⟩
        | none =>
          obtain rfl := Option.some.inj direct
          exact ⟨drained₁, false, true, rfl, Or.inr ⟨⟨rfl, rfl⟩, rfl, rfl⟩⟩
  obtain ⟨drained₂, done, failed, stands₁, noted⟩ := asked
  obtain ⟨t₂, t₃, _, drained₃, active, run₂⟩ := childRun_monitor ends.between (fun _ => rfl) drained₂ run₁
  rw [stands₁] at active
  have counted : t₃.Drained ∧ ∃ failed', t₃.monitor = .check done failed' 0 := by
    simp only [childMonitorStep] at active
    cases failed with
    | true =>
      obtain rfl := Option.some.inj active
      exact ⟨drained₃, true, rfl⟩
    | false =>
      rcases ends.empty with empty | empty <;> rw [empty] at active <;> obtain rfl := Option.some.inj active
      · exact ⟨drained₃, true, rfl⟩
      · exact ⟨drained₃, false, rfl⟩
  obtain ⟨drained₄, failed', stands₂⟩ := counted
  obtain ⟨t₄, t₅, _, drained₅, checked, run₃⟩ := childRun_monitor ends.after (fun _ => rfl) drained₄ run₂
  obtain ⟨rfl, -⟩ := runSteps_nil run₃
  rw [stands₂] at checked
  obtain ⟨input, output⟩ := drained₅
  have io : (!t₄.wi.running && (t₄.channels.isSome || (!t₄.ro.running && !t₄.re.running))) = true := by
    rcases output with given | ⟨out, err⟩
    · simp only [input, given, Bool.not_false, Bool.true_or, Bool.and_self]
    · simp only [input, out, err, Bool.not_false, Bool.and_self, Bool.or_true]
  simp only [childMonitorStep, io, Bool.and_true] at checked
  rcases noted with ⟨reason, rfl⟩ | ⟨reason, rfl, -⟩
  · rw [if_pos (by simp)] at checked
    obtain rfl := Option.some.inj checked
    exact Or.inl ⟨reason, rfl⟩
  · rw [if_neg (by simp)] at checked
    split_ifs at checked <;> obtain rfl := Option.some.inj checked
    · exact Or.inr ⟨reason, ⟨input, output⟩, failed', rfl⟩
    · exact Or.inr ⟨reason, ⟨input, output⟩, true, rfl⟩
    · exact Or.inr ⟨reason, ⟨input, output⟩, failed', rfl⟩

/-- The exit of the direct process is noted by the iteration `k`. -/
def MonitorNotes (turns : Nat → MonitorTurn) (directDone : Bool) (k : Nat) : Prop :=
  directDone = true ∨ ∃ n ≤ k, (turns n).direct ≠ .object none

/-- The loop of the monitor, turn by turn: what it has noted so far, and
that it leaves as soon as both have ended. The induction is on the number of
turns. -/
theorem childMonitor_turns {turns : Nat → MonitorTurn} {s : Nat → ChildT} {directDone queryFailed : Bool}
    (ends : ∀ n, (turns n).Over) (loop : MonitorLoop turns s) (drained : (s 0).Drained)
    (stands : (s 0).monitor = .direct directDone queryFailed) (k : Nat) :
    MonitorNotes turns directDone k ∧ (∃ n ≤ k + 1, (s n).monitor = .set) ∨
      ¬ MonitorNotes turns directDone k ∧ (∀ n ≤ k + 1, (s n).monitor ≠ .set) ∧ (s (k + 1)).Drained ∧
        ∃ failed, (s (k + 1)).monitor = .direct false failed := by
  induction k with
  | zero =>
    obtain ⟨answers, run⟩ := loop 0 ⟨directDone, queryFailed, stands⟩
    rcases childMonitor_turn (ends 0) drained stands run with
      ⟨reason, left⟩ | ⟨⟨unset, failed⟩, drained', failed', stands'⟩
    · exact Or.inl ⟨reason.imp id fun other => ⟨0, Nat.le_refl _, other⟩, 1, Nat.le_refl _, left⟩
    · refine Or.inr ⟨?_, ?_, drained', failed', stands'⟩
      · rintro (noted | ⟨n, first, other⟩)
        · exact Bool.false_ne_true (unset.symm.trans noted)
        · obtain rfl := Nat.le_zero.mp first
          exact other failed
      · intro n early left
        rcases Nat.le_one_iff_eq_zero_or_eq_one.mp early with rfl | rfl
        · rw [stands] at left
          cases left
        · rw [stands'] at left
          cases left
  | succ k ih =>
    rcases ih with ⟨reason, n, early, left⟩ | ⟨unnoted, stays, drained', failed, stands'⟩
    · exact Or.inl ⟨reason.imp id fun ⟨m, soon, other⟩ => ⟨m, Nat.le_succ_of_le soon, other⟩, n,
        Nat.le_succ_of_le early, left⟩
    · obtain ⟨answers, run⟩ := loop (k + 1) ⟨false, failed, stands'⟩
      rcases childMonitor_turn (ends (k + 1)) drained' stands' run with
        ⟨reason, left⟩ | ⟨⟨-, again⟩, drained₁, failed₁, stands₁⟩
      · exact Or.inl ⟨Or.inr ⟨k + 1, Nat.le_refl _, reason.resolve_left Bool.false_ne_true⟩, k + 2, Nat.le_refl _,
          left⟩
      · refine Or.inr ⟨?_, ?_, drained₁, failed₁, stands₁⟩
        · rintro (noted | ⟨n, soon, other⟩)
          · exact unnoted (Or.inl noted)
          · rcases Nat.le_succ_iff.mp soon with soon | rfl
            · exact unnoted (Or.inr ⟨n, soon, other⟩)
            · exact other again
        · intro n early left
          rcases Nat.le_succ_iff.mp early with early | rfl
          · exact stays n early left
          · rw [stands₁] at left
            cases left

/-- On a tree that is gone the monitor leaves its loop, one iteration after
the exit is noted, and signals completion. -/
theorem childMonitor_leaves {turns : Nat → MonitorTurn} {s : Nat → ChildT} {directDone queryFailed : Bool}
    (ends : ∀ n, (turns n).Over) (loop : MonitorLoop turns s) (drained : (s 0).Drained)
    (stands : (s 0).monitor = .direct directDone queryFailed) (k : Nat) :
    (∃ n ≤ k + 1, (s n).Leaves) ↔ MonitorNotes turns directDone k := by
  rcases childMonitor_turns ends loop drained stands k with ⟨noted, n, early, left⟩ | ⟨unnoted, stays, -⟩
  · exact ⟨fun _ => noted, fun _ => ⟨n, early, ChildT.leaves_of_set left⟩⟩
  · exact ⟨fun ⟨n, early, leaves⟩ => absurd leaves.1 (stays n early), fun noted => absurd noted unnoted⟩

/-- The queries of a child that has exited, of which that for its code
fails. -/
def monitorTurn (code : Option Nat) : MonitorTurn := ⟨[], .object code, [], none, [], 0, true⟩

theorem monitorTurn_over (code : Option Nat) : (monitorTurn code).Over where
  before := List.forall_mem_nil _
  between := List.forall_mem_nil _
  after := List.forall_mem_nil _
  exited := by simp [monitorTurn]
  empty := Or.inl rfl

def monitorStart : ChildT := childStart (ascii "child1") 7 (some (ascii "i", ascii "o", ascii "e")) 0 false

theorem monitorStart_drained : monitorStart.Drained := ⟨rfl, Or.inl rfl⟩

def monitorLeft : Nat → ChildT
  | 0 => monitorStart
  | _ + 1 => { monitorStart with exitCode := 3, monitor := .set, monitorFailed := true, killed := true }

theorem monitorLeft_loop : MonitorLoop (fun _ => monitorTurn (some 3)) monitorLeft := by
  intro n ⟨_, _, stands⟩
  cases n with
  | zero => exact ⟨[], rfl⟩
  | succ n => cases stands

theorem childMonitor_leaves_sample : ∃ n ≤ 1, (monitorLeft n).Leaves :=
  (childMonitor_leaves (fun _ => monitorTurn_over _) monitorLeft_loop monitorStart_drained rfl 0).mpr
    (Or.inr ⟨0, Nat.le_refl _, by simp [monitorTurn]⟩)

def monitorStuck : Nat → ChildT
  | 0 => monitorStart
  | _ + 1 => { monitorStart with monitor := .direct false true, monitorFailed := true }

theorem monitorStuck_loop : MonitorLoop (fun _ => monitorTurn none) monitorStuck := by
  intro n _
  cases n with
  | zero => exact ⟨[], rfl⟩
  | succ n => exact ⟨[], rfl⟩

/-- Where the query for the exit code fails each time, the monitor goes on
for good, and no wait for the event returns. -/
theorem childMonitor_stays : ∃ (turns : Nat → MonitorTurn) (s : Nat → ChildT), (∀ n, (turns n).Over) ∧
    MonitorLoop turns s ∧ s 0 = monitorStart ∧ (s 0).Drained ∧
      ∀ n, ¬ (s n).Leaves ∧ ∀ joinFailed, childWait (s n) (.object joinFailed) = none := by
  refine ⟨fun _ => monitorTurn none, monitorStuck, fun _ => monitorTurn_over _, monitorStuck_loop, rfl,
    monitorStart_drained, fun n => ?_⟩
  cases n with
  | zero => exact ⟨fun ⟨left, _⟩ => ChildMonitor.noConfusion left, fun _ => rfl⟩
  | succ n => exact ⟨fun ⟨left, _⟩ => ChildMonitor.noConfusion left, fun _ => rfl⟩

end Machteld
