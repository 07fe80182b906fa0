import Machteld.Pmap.State
import Machteld.Pool.Batch

namespace Machteld

/-- Every worker of the pool has been started by it. -/
structure Pool.Since (s : Pool) (first : Child) : Prop where
  counter : first ≤ s.children
  workers : ∀ c ∈ s.workers, first ≤ c

theorem foldl_childStarted (registry workers : List Child) :
    workers.foldl childStarted registry = registry ++ workers := by
  induction workers generalizing registry with
  | nil => rw [List.foldl_nil, List.append_nil]
  | cons c workers ih => rw [List.foldl_cons, ih, childStarted, List.append_assoc, List.singleton_append]

/-- Closing children one by one takes each of them from the registry. -/
theorem foldl_childClosed (registry workers : List Child) :
    workers.foldl childClosed registry = registry.filter fun c => decide (c ∉ workers) := by
  induction workers generalizing registry with
  | nil => exact (List.filter_eq_self.mpr fun _ _ => by simp).symm
  | cons c workers ih =>
    rw [List.foldl_cons, ih, childClosed, List.filter_filter]
    refine List.filter_congr fun d _ => ?_
    simp [not_or, Bool.and_comm]

/-- What has been started and closed leaves no trace. -/
theorem registry_closed {registry workers : List Child} {first : Child} (others : ∀ c ∈ registry, c < first)
    (started : ∀ c ∈ workers, first ≤ c) :
    workers.foldl childClosed (workers.foldl childStarted registry) = registry := by
  rw [foldl_childClosed, foldl_childStarted, List.filter_append]
  have kept : registry.filter (fun c => decide (c ∉ workers)) = registry :=
    List.filter_eq_self.mpr fun c member => decide_eq_true fun inside =>
      Nat.lt_irrefl _ (Nat.lt_of_lt_of_le (others c member) (started c inside))
  have gone : workers.filter (fun c => decide (c ∉ workers)) = [] :=
    List.filter_eq_nil_iff.mpr fun c member => by simp [member]
  rw [kept, gone, List.append_nil]

/-- Each change of a pool starts one worker, closes one, or leaves the
registry alone. -/
theorem PoolMove.registry {s s' : Pool} (moved : PoolMove s s') {registry : List Child} {first : Child}
    (others : ∀ c ∈ registry, c < first) (since : s.Since first) :
    poolRegistry registry s' = poolRegistry registry s ∨
      poolRegistry registry s' = childStarted (poolRegistry registry s) s.children ∨
      ∃ c ∈ s.workers, poolRegistry registry s' = childClosed (poolRegistry registry s) c := by
  simp only [poolRegistry, foldl_childStarted, childStarted, childClosed]
  cases moved with
  | lost live =>
    refine .inr (.inr ⟨_, live, ?_⟩)
    rw [(poolLost_workers s _).1, List.filter_append]
    congr 1
    refine (List.filter_eq_self.mpr fun c member => ?_).symm
    have older := Nat.lt_of_lt_of_le (others c member) (since.workers _ live)
    exact decide_eq_true (Nat.ne_of_lt older)
  | spawned => exact .inr (.inl (List.append_assoc ..).symm)
  | _ => exact .inl rfl

/-- A move starts only children with new numbers. -/
theorem PoolMove.since {s s' : Pool} (moved : PoolMove s s') {first : Child} (since : s.Since first) :
    s'.Since first := by
  cases moved with
  | lost live =>
    obtain ⟨workers, children⟩ := poolLost_workers s _
    refine ⟨children ▸ since.counter, fun c member => ?_⟩
    rw [workers] at member
    exact since.workers c (List.mem_of_mem_filter member)
  | spawned =>
    refine ⟨Nat.le_succ_of_le since.counter, fun c member => ?_⟩
    obtain old | new := List.mem_append.mp member
    · exact since.workers c old
    · rw [List.mem_singleton.mp new]
      exact since.counter
  | _ => exact ⟨since.counter, since.workers⟩

theorem Pool.Moves.since {s s' : Pool} (moved : Pool.Moves s s') {first : Child} (since : s.Since first) :
    s'.Since first := by
  induction moved with
  | refl => exact since
  | tail _ last ih => exact last.since ih

theorem poolSpawns_since {spawns : List (Option Bytes)} {s s' : Pool} (started : poolSpawns spawns s = .ok s')
    {first : Child} (since : s.Since first) : s'.Since first := by
  induction spawns generalizing s with
  | nil =>
    obtain rfl : s = s' := Except.ok.inj started
    exact since
  | cons spawn spawns ih =>
    obtain ⟨⟨s₁, c⟩, here, later⟩ := Except.bind_ok.mp started
    cases spawn with
    | some message => cases here
    | none =>
      obtain ⟨rfl, rfl⟩ := Prod.mk.inj (Except.ok.inj here)
      exact ih later (PoolMove.spawned.since since)

theorem poolCreate_since {maxtries : Nat} {positive : 1 ≤ maxtries} {children : Child}
    {spawns : List (Option Bytes)}
    {s : Pool} (created : poolCreate maxtries positive children spawns = .ok s) : s.Since children :=
  poolSpawns_since created ⟨Nat.le_refl _, List.forall_mem_nil _⟩

theorem poolSpawns_control {spawns : List (Option Bytes)} {s s' : Pool} (started : poolSpawns spawns s = .ok s') :
    s'.control = s.control := by
  induction spawns generalizing s with
  | nil =>
    obtain rfl : s = s' := Except.ok.inj started
    rfl
  | cons spawn spawns ih =>
    obtain ⟨⟨s₁, c⟩, here, later⟩ := Except.bind_ok.mp started
    cases spawn with
    | some message => cases here
    | none =>
      obtain ⟨rfl, rfl⟩ := Prod.mk.inj (Except.ok.inj here)
      exact ih (s := { s with workers := s.workers ++ [s.children], children := s.children + 1 }) later

theorem poolStarted_since (spawns : List (Option Bytes)) (c : Child) : ∀ d ∈ poolStarted spawns c, c ≤ d := by
  induction spawns generalizing c with
  | nil => exact List.forall_mem_nil _
  | cons spawn spawns ih =>
    cases spawn with
    | some message => exact List.forall_mem_nil _
    | none =>
      exact List.forall_mem_cons.mpr ⟨Nat.le_refl c, fun d member => Nat.le_of_succ_le (ih (c + 1) d member)⟩

section

variable {yy : Yyjson} {tcl : Tcl}

theorem poolSubmit_since {s s' : Pool} {items : Obj} {failures : Child → List (Option Bytes)}
    (inv : s.Conserved yy tcl)
    (submitted : poolSubmit yy tcl s items failures = .ok s') {first : Child} (since : s.Since first) :
    s'.Since first := by
  obtain ⟨unsent, its, pend, read, numbered, rfl⟩ := poolSubmit_ok submitted
  have accepted : (poolAccept s pend).Since first := ⟨since.counter, since.workers⟩
  exact (feedAll_moves failures inv.distinct (inv.accepted unsent numbered).1 fun _ member => member).since accepted

theorem poolStep_since {s s' : Pool} {e : PoolEvent} (inv : s.Conserved yy tcl)
    (stepped : poolStep yy tcl s e = some s') {first : Child} (since : s.Since first) : s'.Since first := by
  obtain moves | ⟨_, _, _, c, item, rep, _, _, _, _, _, moves⟩ | ⟨_, _, _, submitted⟩ := poolStep_cases inv stepped
  · exact moves.since since
  · exact moves.since ⟨since.counter, since.workers⟩
  · exact poolSubmit_since inv submitted since

/-- By induction on the events: the children of the pool are those it has started.
-/
theorem poolRun_since {events : List PoolEvent} {s s' : Pool} (inv : s.Conserved yy tcl)
    (ran : poolRun yy tcl s events = some s') {first : Child} (since : s.Since first) : s'.Since first := by
  induction events generalizing s with
  | nil =>
    obtain rfl := Option.some.inj ran
    exact since
  | cons e events ih =>
    obtain ⟨s₁, stepped, rest⟩ := Option.bind_eq_some_iff.mp ran
    exact ih (poolStep_conserved inv stepped) rest (poolStep_since inv stepped since)

end

end Machteld
