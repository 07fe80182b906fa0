import Machteld.Except
import Machteld.Pool.Conserve

namespace Machteld

theorem poolCheckDone_workers (s : Pool) : (poolCheckDone s).workers = s.workers := by
  unfold poolCheckDone
  split_ifs <;> rfl

/-- A lost worker is no longer listed, and no number is given back. -/
theorem poolLost_workers (s : Pool) (c : Child) :
    (poolLost s c).workers = s.workers.filter (· ≠ c) ∧ (poolLost s c).children = s.children := by
  cases held : dictGet c s.inflight with
  | none => rw [poolLost_idle held]; exact ⟨rfl, rfl⟩
  | some item =>
    by_cases low : (dictGet item.id s.tries).getD 0 + 1 < s.maxtries
    · rw [poolLost_requeued held low]; exact ⟨rfl, rfl⟩
    · rw [poolLost_poisoned held low]; exact ⟨rfl, rfl⟩

/-- The death of one worker leaves the others listed. -/
theorem poolDied_keeps {feed : Pool → Child → Pool}
    (feeds : ∀ s c d, d ≠ c → d < s.children → d ∈ s.workers → d ∈ (feed s c).workers) (spawn : Option Bytes)
    {s : Pool} {c d : Child} (other : d ≠ c) (known : d < s.children) (live : d ∈ s.workers) :
    d ∈ (poolDied feed spawn s c).workers := by
  unfold poolDied
  split_ifs
  · obtain ⟨workers, children⟩ := poolLost_workers s c
    have kept : d ∈ (poolLost s c).workers := workers ▸ List.mem_filter.mpr ⟨live, decide_eq_true other⟩
    rw [poolCheckDone_workers]
    unfold poolReplace
    split_ifs
    · exact kept
    · cases spawn with
      | some message => exact kept
      | none =>
        refine feeds _ _ d ?_ ?_ (List.mem_append_left _ kept)
        · rw [children]
          exact Nat.ne_of_lt known
        · exact Nat.lt_succ_of_lt (lt_of_lt_of_eq known children.symm)
  · exact live

/-- Feeding a worker ends no other one. -/
theorem poolFeed_keeps (failures : List (Option Bytes)) :
    ∀ (s : Pool) (c d : Child), d ≠ c → d < s.children → d ∈ s.workers → d ∈ (poolFeed failures s c).workers := by
  induction failures with
  | nil =>
    intro s c d _ _ live
    unfold poolFeed
    split_ifs
    · exact live
    · cases s.pending with
      | nil => exact (poolCheckDone_workers s).symm ▸ live
      | cons item pending => exact live
  | cons spawn failures ih =>
    intro s c d other known live
    unfold poolFeed
    split_ifs
    · exact live
    · cases s.pending with
      | nil => exact (poolCheckDone_workers s).symm ▸ live
      | cons item pending => exact poolDied_keeps ih spawn other known live

section

variable {yy : Yyjson} {tcl : Tcl}

/-- All workers are fed in turn, each while it is alive. -/
theorem feedAll_moves (failures : Child → List (Option Bytes)) {workers : List Child} (distinct : workers.Nodup)
    {s : Pool} (inv : s.Conserved yy tcl) (live : ∀ c ∈ workers, c ∈ s.workers) :
    Pool.Moves s (workers.foldl (fun s c => poolFeed (failures c) s c) s) := by
  induction workers generalizing s with
  | nil => exact .refl
  | cons c workers ih =>
    obtain ⟨fresh, distinct⟩ := List.nodup_cons.mp distinct
    obtain ⟨here, later⟩ := List.forall_mem_cons.mp live
    have fed := poolFeed_moves (failures c) s c here
    refine fed.trans (ih distinct (inv.moves fed) fun d member => ?_)
    have other : d ≠ c := fun same => fresh (same ▸ member)
    exact poolFeed_keeps (failures c) s c d other (inv.known d (later d member)) (later d member)

/-- The items are numbered in their order. -/
theorem poolItems_ids {next : Nat} {items : List Obj} {pend : List PoolItem}
    (numbered : poolItems yy tcl next items = .ok pend) : pend.map (·.id) = List.range' next items.length := by
  induction items generalizing next pend with
  | nil =>
    obtain rfl : [] = pend := Except.ok.inj numbered
    rfl
  | cons it items ih =>
    obtain ⟨entries, _, rest⟩ := Except.bind_ok.mp numbered
    obtain ⟨pend, later, rfl⟩ := Except.map_ok.mp rest
    rw [List.map_cons, ih later]
    rfl

/-- A batch that is accepted: once only, every item admitted, and every
worker fed. -/
theorem poolSubmit_ok {s s' : Pool} {items : Obj} {failures : Child → List (Option Bytes)}
    (submitted : poolSubmit yy tcl s items failures = .ok s') :
    s.submittedOnce = false ∧ ∃ its pend, listElements tcl items = .ok its ∧
      poolItems yy tcl s.nextid its = .ok pend ∧
      s' = s.workers.foldl (fun s c => poolFeed (failures c) s c) (poolAccept s pend) := by
  unfold poolSubmit at submitted
  split_ifs at submitted with once
  obtain ⟨its, read, rest⟩ := Except.bind_ok.mp submitted
  obtain ⟨pend, numbered, rfl⟩ := Except.map_ok.mp rest
  exact ⟨Bool.not_eq_true _ ▸ once, its, pend, read, numbered, rfl⟩

/-- Accepting a batch on a fresh pool counts each item once. -/
theorem Pool.Conserved.accepted {s : Pool} (inv : s.Conserved yy tcl) (unsent : s.submittedOnce = false)
    {its : List Obj} {pend : List PoolItem} (numbered : poolItems yy tcl s.nextid its = .ok pend) :
    (poolAccept s pend).Conserved yy tcl ∧ (poolAccept s pend).submitted = its.length := by
  obtain ⟨pending, inflight, results, first⟩ := inv.unsubmitted unsent
  have ids := poolItems_ids numbered
  rw [first] at ids
  have length : pend.length = its.length := by
    rw [← List.length_map (·.id), ids, List.length_range']
  have all : pend.map (decimal ·.id) = (List.range its.length).map decimal := by
    rw [List.range_eq_range', ← ids, List.map_map]
    rfl
  have count : (poolAccept s pend).submitted = its.length := by
    simp only [poolAccept, first, length, Nat.zero_add]
  have quiet := inv.quiet unsent
  refine ⟨{ inv with
    ids := ?_, settled := Bool.noConfusion, stuck := (absurd quiet ·), quiet := Bool.noConfusion,
    unsent := Bool.noConfusion, next := rfl }, count⟩
  rw [count]
  simp only [Pool.ids, poolAccept, pending, inflight, results, List.nil_append, List.map_nil, List.append_nil, all]
  exact List.Perm.refl _

theorem poolSubmit_conserved {s s' : Pool} {items : Obj} {failures : Child → List (Option Bytes)}
    (inv : s.Conserved yy tcl) (submitted : poolSubmit yy tcl s items failures = .ok s') :
    s'.Conserved yy tcl ∧ ∃ its pend, listElements tcl items = .ok its ∧
      (poolAccept s pend).submitted = its.length ∧
      Pool.Moves (poolAccept s pend) s' := by
  obtain ⟨unsent, its, pend, read, numbered, rfl⟩ := poolSubmit_ok submitted
  obtain ⟨accepted, count⟩ := inv.accepted unsent numbered
  have moves := feedAll_moves failures inv.distinct accepted fun c member => member
  exact ⟨accepted.moves moves, its, pend, read, count, moves⟩

/-- What one event can do to a pool. -/
theorem poolStep_cases {s s' : Pool} {e : PoolEvent} (inv : s.Conserved yy tcl)
    (stepped : poolStep yy tcl s e = some s') :
    Pool.Moves s s' ∨
      (∃ text spawn failures c item rep, e = .gets (.line text) spawn failures ∧ s.control = some c ∧
        dictGet c s.inflight = some item ∧ readReply yy tcl text = some rep ∧
        getString yy tcl rep.id = decimal item.id ∧ Pool.Moves (poolReceive s c rep) s') ∨
      ∃ items failures, e = .submit items failures ∧ poolSubmit yy tcl s items failures = .ok s' := by
  cases e with
  | submit items failures =>
    simp only [poolStep] at stepped
    split_ifs at stepped
    cases submitted : poolSubmit yy tcl s items failures with
    | error e =>
      rw [submitted] at stepped
      obtain rfl := Option.some.inj stepped
      exact Or.inl .refl
    | ok s'' =>
      rw [submitted] at stepped
      obtain rfl := Option.some.inj stepped
      exact Or.inr (Or.inr ⟨items, failures, rfl, submitted⟩)
  | readable c info spawn failures =>
    simp only [poolStep] at stepped
    split_ifs at stepped
    obtain rfl := Option.some.inj stepped
    exact Or.inl (poolReadable_moves s c info spawn failures)
  | gets got spawn failures =>
    obtain ⟨c, control, rfl⟩ := Option.map_eq_some_iff.mp stepped
    have live : ∀ item, dictGet c s.inflight = some item → c ∈ s.workers := fun item held =>
      inv.live c (List.mem_map_of_mem (mem_of_dictGet held))
    rcases poolTurn_cases live spawn failures got with moves | ⟨text, item, rep, rfl, held, read, same, moves⟩
    · exact Or.inl moves
    · exact Or.inr (Or.inl ⟨text, spawn, failures, c, item, rep, rfl, control, held, read, same, moves⟩)
  | stderr chunk =>
    simp only [poolStep] at stepped
    split_ifs at stepped
    obtain rfl := Option.some.inj stepped
    exact Or.inl (.single (.noted _ s.control))

theorem poolStep_conserved {s s' : Pool} {e : PoolEvent} (inv : s.Conserved yy tcl)
    (stepped : poolStep yy tcl s e = some s') : s'.Conserved yy tcl := by
  obtain moves | ⟨_, _, _, c, item, rep, _, _, held, _, same, moves⟩ | ⟨_, _, _, submitted⟩ :=
    poolStep_cases inv stepped
  · exact inv.moves moves
  · exact (inv.received held same).moves moves
  · exact (poolSubmit_conserved inv submitted).1

/-- By induction on the events, from `poolStep`. -/
theorem poolRun_conserved {events : List PoolEvent} {s s' : Pool} (inv : s.Conserved yy tcl)
    (ran : poolRun yy tcl s events = some s') : s'.Conserved yy tcl := by
  induction events generalizing s with
  | nil =>
    obtain rfl := Option.some.inj ran
    exact inv
  | cons e events ih =>
    obtain ⟨s₁, stepped, rest⟩ := Option.bind_eq_some_iff.mp ran
    exact ih (poolStep_conserved inv stepped) rest

/-- Starting workers counts no item. -/
theorem poolSpawns_conserved {spawns : List (Option Bytes)} {s s' : Pool} (inv : s.Conserved yy tcl)
    (started : poolSpawns spawns s = .ok s') : s'.Conserved yy tcl := by
  induction spawns generalizing s with
  | nil =>
    obtain rfl : s = s' := Except.ok.inj started
    exact inv
  | cons spawn spawns ih =>
    obtain ⟨⟨s₁, c⟩, here, later⟩ := Except.bind_ok.mp started
    cases spawn with
    | some message => cases here
    | none =>
      obtain ⟨rfl, rfl⟩ := Prod.mk.inj (Except.ok.inj here)
      exact ih inv.spawned later

/-- A new pool has nothing in it. -/
theorem poolCreate_conserved {maxtries : Nat} {positive : 1 ≤ maxtries} {children : Child}
    {spawns : List (Option Bytes)}
    {s : Pool} (created : poolCreate maxtries positive children spawns = .ok s) : s.Conserved yy tcl := by
  refine poolSpawns_conserved ?_ created
  exact {
    ids := List.Perm.refl _, distinct := List.nodup_nil, known := List.forall_mem_nil _, live :=
      List.forall_mem_nil _,
    single := List.nodup_nil, tried := fun _ => Nat.le_refl _, limit := fun _ => Nat.zero_le _, counted := rfl,
    settled := fun _ => Or.inr ⟨rfl, rfl⟩, stuck := fun _ => rfl, died := (absurd rfl ·), quiet := fun _ => rfl,
    unsent := fun _ => rfl, next := rfl }

end

end Machteld
