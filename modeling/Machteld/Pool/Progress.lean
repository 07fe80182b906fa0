import Machteld.Pool.Batch

namespace Machteld

/-- The batch is over, or an item is in flight. -/
def Pool.Busy (s : Pool) : Prop := s.done = true ∨ s.fatal ≠ [] ∨ s.inflight ≠ []

theorem Pool.Busy.checked {s : Pool} (busy : s.Busy) : (poolCheckDone s).Busy := by
  unfold poolCheckDone
  split_ifs
  · exact Or.inl rfl
  · exact busy

/-- With no item waiting, the check itself settles it. -/
theorem poolCheckDone_busy {s : Pool} (empty : s.pending = []) : (poolCheckDone s).Busy := by
  unfold poolCheckDone
  split_ifs with ended
  · exact Or.inl rfl
  · refine Or.inr (Or.inr fun idle => ended ?_)
    simp only [empty, idle, List.isEmpty_nil, and_self]

theorem dictPut_ne_nil {κ α : Type} [DecidableEq κ] (key : κ) (value : α) (entries : List (κ × α)) :
    dictPut key value entries ≠ [] := by
  cases entries with
  | nil => exact List.cons_ne_nil _ _
  | cons entry entries =>
    unfold dictPut
    split_ifs <;> exact List.cons_ne_nil _ _

/-- Where a worker dies another one takes over, or the pool knows that it is
stuck. -/
theorem poolDied_busy {feed : Pool → Child → Pool} (feeds : ∀ s c, (feed s c).Busy)
    (spawn : Option Bytes) {s : Pool}
    {c : Child} (busy : c ∈ s.workers ∨ s.Busy) : (poolDied feed spawn s c).Busy := by
  unfold poolDied
  split_ifs with live
  · unfold poolReplace
    split_ifs with empty
    · exact poolCheckDone_busy (List.isEmpty_iff.mp empty)
    · cases spawn with
      | some message => exact Pool.Busy.checked (Or.inl rfl)
      | none => exact (feeds _ _).checked
  · exact busy.resolve_left live

/-- Whatever the state, a fed worker leaves the pool busy. -/
theorem poolFeed_busy (failures : List (Option Bytes)) :
    ∀ (s : Pool) (c : Child), (poolFeed failures s c).Busy := by
  induction failures with
  | nil =>
    intro s c
    unfold poolFeed
    split_ifs with held
    · refine Or.inr (Or.inr fun idle => ?_)
      rw [idle] at held
      cases held
    · cases next : s.pending with
      | nil => exact poolCheckDone_busy next
      | cons item pending => exact Or.inr (Or.inr (dictPut_ne_nil _ _ _))
  | cons spawn failures ih =>
    intro s c
    unfold poolFeed
    split_ifs with held
    · refine Or.inr (Or.inr fun idle => ?_)
      rw [idle] at held
      cases held
    · cases next : s.pending with
      | nil => exact poolCheckDone_busy next
      | cons item pending => exact poolDied_busy ih spawn (Or.inr (Or.inr (Or.inr (dictPut_ne_nil _ _ _))))

/-- Feeding at least one worker starts the batch. -/
theorem feedAll_busy (failures : Child → List (Option Bytes)) {workers : List Child} {s : Pool}
    (some : workers ≠ [] ∨ s.Busy) : (workers.foldl (fun s c => poolFeed (failures c) s c) s).Busy := by
  induction workers generalizing s with
  | nil => exact some.resolve_left fun absent => absent rfl
  | cons c workers ih => exact ih (Or.inr (poolFeed_busy _ _ _))

section

variable {yy : Yyjson} {tcl : Tcl}

/-- A turn leaves no worker idle while an item waits, whatever the turn was
about: a reply, a death, or a line that is no reply. -/
theorem poolTurn_busy {s : Pool} (busy : s.Busy) (c : Child) (spawn : Option Bytes) (failures : List (Option Bytes))
    (got : Gets) : (poolTurn yy tcl s c spawn failures got).Busy := by
  have protocol : ∀ what,
    (poolDied (poolFeed failures) spawn { poolProtocol s what with control := none } c).Busy :=
    fun what => poolDied_busy (poolFeed_busy failures) spawn (Or.inr busy)
  cases got with
  | raised => exact protocol _
  | dry eof =>
    have left : Pool.Busy { s with control := none } := busy
    simp only [poolTurn]
    split_ifs
    · exact poolDied_busy (poolFeed_busy failures) spawn (Or.inr left)
    · exact left.checked
  | line text =>
    cases text with
    | nil => exact busy
    | cons a text =>
      simp only [poolTurn]
      cases readReply yy tcl (a :: text) with
      | none => exact protocol _
      | some rep =>
        cases dictGet c s.inflight with
        | none => exact protocol _
        | some item =>
          dsimp only
          split_ifs
          · exact poolFeed_busy _ _ _
          · exact protocol _

/-- A busy pool that has its batch stays busy. -/
theorem poolStep_busy {s s' : Pool} {e : PoolEvent} (busy : s.Busy) (once : s.submittedOnce = true)
    (stepped : poolStep yy tcl s e = some s') : s'.Busy := by
  cases e with
  | submit items failures =>
    have refused : poolSubmit yy tcl s items failures =
        .error (poolFail "usage" (ascii "pool submit: a pool accepts exactly one batch; create another pool")) :=
          if_pos once
    simp only [poolStep, refused] at stepped
    split_ifs at stepped
    obtain rfl := Option.some.inj stepped
    exact busy
  | readable c info spawn failures =>
    simp only [poolStep, poolReadable] at stepped
    split_ifs at stepped
    · obtain rfl := Option.some.inj stepped
      exact busy
    · obtain rfl := Option.some.inj stepped
      exact poolDied_busy (poolFeed_busy failures) spawn (Or.inr busy)
  | gets got spawn failures =>
    obtain ⟨c, _, rfl⟩ := Option.map_eq_some_iff.mp stepped
    exact poolTurn_busy busy c spawn failures got
  | stderr chunk =>
    simp only [poolStep] at stepped
    split_ifs at stepped
    obtain rfl := Option.some.inj stepped
    exact busy

/-- By induction on the events behind the batch. -/
theorem poolRun_busy {events : List PoolEvent} {s s' : Pool} (inv : s.Conserved yy tcl) (busy : s.Busy)
    (once : s.submittedOnce = true) (ran : poolRun yy tcl s events = some s') : s'.Busy := by
  induction events generalizing s with
  | nil =>
    obtain rfl := Option.some.inj ran
    exact busy
  | cons e events ih =>
    obtain ⟨s₁, stepped, rest⟩ := Option.bind_eq_some_iff.mp ran
    have one : poolRun yy tcl s [e] = some s₁ := by simp only [poolRun, stepped, Option.bind_some]
    have still := (poolRun_sameBatch inv once one).once.trans once
    exact ih (poolStep_conserved inv stepped) (poolStep_busy busy once stepped) still rest

/-- The batch is over, or a live worker has an item in flight. -/
def Pool.Advances (s : Pool) : Prop :=
  s.done = true ∨ s.fatal ≠ [] ∨ ∃ c ∈ s.workers, (dictGet c s.inflight).isSome

/-- Where no worker is idle while items wait, some worker has an item, or
all are answered; that is what it is for a batch to advance. -/
theorem Pool.Conserved.advances {s : Pool} (inv : s.Conserved yy tcl) (busy : s.Busy) : s.Advances := by
  refine busy.imp_right fun rest => rest.imp_right fun some => ?_
  obtain ⟨⟨c, item⟩, inflight, shape⟩ := List.exists_cons_of_ne_nil some
  have member : c ∈ s.inflight.map Prod.fst := by
    rw [shape]
    exact List.mem_cons_self ..
  refine ⟨c, inv.live c member, ?_⟩
  rw [shape]
  simp only [dictGet, if_true, Option.isSome_some]

/-- A batch that was accepted never stalls if and only if a worker was alive
when it was submitted. -/
theorem poolRun_advances_iff {maxtries : Nat} {positive : 1 ≤ maxtries} {children : Child}
    {spawns : List (Option Bytes)}
    {s₀ : Pool} (created : poolCreate maxtries positive children spawns = .ok s₀) {before : List PoolEvent}
    {s₁ s₂ : Pool} {items : Obj} {its : List Obj} {failures : Child → List (Option Bytes)}
    (there : poolRun yy tcl s₀ before = some s₁) (idle : s₁.control = none)
    (read : listElements tcl items = .ok its)
    (submitted : poolSubmit yy tcl s₁ items failures = .ok s₂) :
    (∀ after s, poolRun yy tcl s₀ (before ++ .submit items failures :: after) = some s →
      s.Advances ∧ (its = [] → s.done = true)) ↔ s₁.workers ≠ [] := by
  have inv₁ : s₁.Conserved yy tcl := poolRun_conserved (poolCreate_conserved created) there
  obtain ⟨inv₂, its', pend', read', count, moves⟩ := poolSubmit_conserved inv₁ submitted
  obtain rfl := Except.ok.inj (read'.symm.trans read)
  obtain ⟨unsent, _, pend, _, _, fed⟩ := poolSubmit_ok submitted
  constructor
  · intro always none
    have now : poolRun yy tcl s₀ (before ++ [.submit items failures]) = some s₂ := by
      simp only [poolRun_append, there, Option.bind_some, poolRun, poolStep, idle, submitted, Option.isSome_none]
      rfl
    rw [none] at fed
    obtain rfl : s₂ = poolAccept s₁ pend := fed
    obtain done | fatal | ⟨c, live, _⟩ := (always [] _ now).1
    · cases done
    · exact fatal (inv₁.quiet unsent)
    · rw [show (poolAccept s₁ pend).workers = s₁.workers from rfl, none] at live
      cases live
  · intro some after s ran
    have rest := poolRun_submit there submitted ran
    have busy₂ : s₂.Busy := fed ▸ feedAll_busy failures (Or.inl some)
    have inv := poolRun_conserved inv₂ rest
    have once : s₂.submittedOnce = true := moves.sameBatch.once
    have busy := poolRun_busy inv₂ busy₂ once rest
    refine ⟨inv.advances busy, fun empty => ?_⟩
    have total : s.submitted = 0 := by
      rw [(poolRun_sameBatch inv₂ once rest).submitted, moves.sameBatch.submitted, count, empty, List.length_nil]
    have ids := inv.ids
    rw [total] at ids
    have rest' := (List.append_eq_nil_iff.mp ids.eq_nil).2
    have idle := List.map_eq_nil_iff.mp (List.append_eq_nil_iff.mp rest').1
    obtain done | fatal | flying := busy
    · exact done
    · exact inv.stuck fatal
    · exact absurd idle flying

end

theorem poolRun_advances_sample :
    (∀ after s, poolRun referenceYyjson wordTcl lonePool ([] ++ .submit loneItems (fun _ => []) :: after) = some s →
      s.Advances ∧ ([loneItem] = [] → s.done = true)) ↔ lonePool.workers ≠ [] :=
  poolRun_advances_iff lonePool_created rfl rfl rfl loneItems_submitted

/-- A worker that dies before the batch is not replaced, and nothing is fed.
-/
theorem poolRun_stalls :
    poolCreate 3 (by decide) 0 [none] = .ok lonePool ∧
      ∃ s, poolRun referenceYyjson wordTcl lonePool [.readable 0 false none [],
        .submit loneItems fun _ => []] = some s ∧
        s.submittedOnce = true ∧ s.pending ≠ [] ∧ ¬ s.Advances := by
  refine ⟨lonePool_created, _, rfl, rfl, List.cons_ne_nil _ _, ?_⟩
  rintro (done | fatal | ⟨c, live, _⟩)
  · cases done
  · exact fatal rfl
  · cases live

end Machteld
