import Mathlib.Data.List.Count
import Machteld.Pool.Moves

namespace Machteld

/-- The ids that wait, are in flight, or are answered. -/
def Pool.ids (yy : Yyjson) (tcl : Tcl) (s : Pool) : List Bytes :=
  s.pending.map (decimal ·.id) ++ (s.inflight.map (decimal ·.2.id) ++ s.results.map (getString yy tcl ·.id))

/-- What holds of a pool between two events, and within one wherever a
worker is fed. -/
structure Pool.Conserved (yy : Yyjson) (tcl : Tcl) (s : Pool) : Prop where
  ids : (s.ids yy tcl).Perm ((List.range s.submitted).map decimal)
  distinct : s.workers.Nodup
  known : ∀ c ∈ s.workers, c < s.children
  live : ∀ c ∈ s.inflight.map Prod.fst, c ∈ s.workers
  single : (s.inflight.map Prod.fst).Nodup
  tried : ∀ id, s.putBack.count id ≤ (dictGet id s.tries).getD 0
  limit : ∀ id, s.putBack.count id ≤ s.maxtries - 1
  counted : s.putBack.length = s.requeued
  settled : s.done = true → s.fatal ≠ [] ∨ s.pending = [] ∧ s.inflight = []
  stuck : s.fatal ≠ [] → s.done = true
  died : s.fatal ≠ [] → 0 < s.dead
  quiet : s.submittedOnce = false → s.fatal = []
  unsent : s.submittedOnce = false → s.submitted = 0
  next : s.nextid = s.submitted

section

variable {yy : Yyjson} {tcl : Tcl}

theorem poolLost_idle {s : Pool} {c : Child} (idle : dictGet c s.inflight = none) :
    poolLost s c =
      { s with workers := s.workers.filter (· ≠ c), dead := s.dead + 1, inflight := dictRemove c s.inflight } := by
  simp only [poolLost, poolRequeue, idle]

/-- An item that may be tried again goes back to the front of the queue. -/
theorem poolLost_requeued {s : Pool} {c : Child} {item : PoolItem} (held : dictGet c s.inflight = some item)
    (low : (dictGet item.id s.tries).getD 0 + 1 < s.maxtries) :
    poolLost s c =
      { s with
        workers := s.workers.filter (· ≠ c), dead := s.dead + 1, inflight := dictRemove c s.inflight,
        tries := dictPut item.id ((dictGet item.id s.tries).getD 0 + 1) s.tries, pending := item :: s.pending,
        requeued := s.requeued + 1, putBack := s.putBack ++ [item.id] } := by
  simp only [poolLost, poolRequeue, held, if_pos low]

/-- An item that has run out of tries is answered. -/
theorem poolLost_poisoned {s : Pool} {c : Child} {item : PoolItem} (held : dictGet c s.inflight = some item)
    (high : ¬ (dictGet item.id s.tries).getD 0 + 1 < s.maxtries) :
    poolLost s c =
      { s with
        workers := s.workers.filter (· ≠ c), dead := s.dead + 1, inflight := dictRemove c s.inflight,
        tries := dictPut item.id ((dictGet item.id s.tries).getD 0 + 1) s.tries,
        results := s.results ++ [poisonReply item.id ((dictGet item.id s.tries).getD 0 + 1)] } := by
  simp only [poolLost, poolRequeue, held, if_neg high]

/-- Counting a death never lowers how often an item is said to be tried. -/
theorem tries_put (tries : List (Nat × Nat)) (id other : Nat) :
    (dictGet other tries).getD 0 ≤ (dictGet other (dictPut id ((dictGet id tries).getD 0 + 1) tries)).getD 0 := by
  rw [dictGet_dictPut]
  split_ifs with same
  · subst same
    exact Nat.le_succ _
  · exact Nat.le_refl _

theorem tries_put_same (tries : List (Nat × Nat)) (id count : Nat) :
    (dictGet id (dictPut id count tries)).getD 0 = count := by
  rw [dictGet_dictPut, if_pos rfl, Option.getD_some]

theorem filter_live {workers : List Child} {c : Child} {inflight : List (Child × PoolItem)}
    (live : ∀ c ∈ inflight.map Prod.fst, c ∈ workers) :
    ∀ d ∈ (dictRemove c inflight).map Prod.fst, d ∈ workers.filter (· ≠ c) := by
  intro d member
  obtain ⟨e, inside, rfl⟩ := List.mem_map.mp member
  obtain ⟨old, other⟩ := mem_dictRemove.mp inside
  exact List.mem_filter.mpr ⟨live _ (List.mem_map_of_mem old), decide_eq_true other⟩

/-- Whose item `perm_dictRemove` takes out, by ids. -/
theorem inflight_count {s : Pool} {c : Child} {item : PoolItem} (single : (s.inflight.map Prod.fst).Nodup)
    (held : dictGet c s.inflight = some item) (key : Bytes) :
    (s.inflight.map (decimal ·.2.id)).count key =
      ((dictRemove c s.inflight).map (decimal ·.2.id)).count key + if decimal item.id = key then 1 else 0 := by
  have perm := ((perm_dictRemove single held).map (decimal ·.2.id)).count_eq key
  rw [perm, List.map_cons, List.count_cons]
  simp only [beq_iff_eq]

namespace Pool.Conserved

theorem finished {s : Pool} (inv : s.Conserved yy tcl) (empty : s.pending = []) (idle : s.inflight = []) :
    Pool.Conserved yy tcl { s with done := true } :=
  { inv with settled := fun _ => Or.inr ⟨empty, idle⟩, stuck := fun _ => rfl }

/-- The item at the front of the queue goes to a worker that has none. -/
theorem taken {s : Pool} {c : Child} {item : PoolItem} {pending : List PoolItem} (inv : s.Conserved yy tcl)
    (live : c ∈ s.workers) (free : dictGet c s.inflight = none) (next : s.pending = item :: pending) :
    (poolTake s c item pending).Conserved yy tcl := by
  have fresh := dictGet_eq_none_iff.mp free
  have put : dictPut c item s.inflight = s.inflight ++ [(c, item)] := dictPut_new fresh item
  refine { inv with ids := ?_, live := ?_, single := nodup_dictPut inv.single, settled := ?_ }
  · refine List.Perm.trans ?_ inv.ids
    simp only [Pool.ids, poolTake, put, next, List.map_append, List.map_cons, List.map_nil]
    refine List.perm_iff_count.mpr fun key => ?_
    simp only [List.count_append, List.count_cons, List.count_nil]
    omega
  · intro d member
    simp only [poolTake, put, List.map_append, List.mem_append, List.map_cons, List.map_nil,
      List.mem_singleton] at member
    rcases member with old | rfl
    · exact inv.live d old
    · exact live
  · intro done
    rcases inv.settled done with fatal | ⟨empty, _⟩
    · exact Or.inl fatal
    · exact absurd (next.symm.trans empty) (List.cons_ne_nil _ _)

/-- The item of a lost worker is requeued or answered, and in either case
still counted once; a worker without an item changes no count. -/
theorem lost {s : Pool} {c : Child} (inv : s.Conserved yy tcl) : (poolLost s c).Conserved yy tcl := by
  have distinct := inv.distinct.filter (· ≠ c)
  have known : ∀ d ∈ s.workers.filter (· ≠ c), d < s.children := fun d member =>
    inv.known d (List.mem_filter.mp member).1
  have live := @filter_live s.workers c s.inflight inv.live
  have single := @nodup_dictRemove _ _ _ c _ inv.single
  cases held : dictGet c s.inflight with
  | none =>
    have same := dictRemove_absent (dictGet_eq_none_iff.mp held)
    rw [poolLost_idle held]
    rw [same] at live ⊢
    exact { inv with distinct := distinct, known := known, live := live, died := fun _ => Nat.succ_pos _ }
  | some item =>
    have busy : ∀ done : s.done = true, s.fatal ≠ [] := by
      intro done
      refine (inv.settled done).resolve_right fun rest => ?_
      rw [rest.2] at held
      cases held
    have count := inflight_count inv.single held
    by_cases low : (dictGet item.id s.tries).getD 0 + 1 < s.maxtries
    · rw [poolLost_requeued held low]
      refine { inv with
        ids := ?_, distinct := distinct, known := known, live := live, single := single, tried := ?_, limit := ?_,
        counted := ?_, settled := fun done => Or.inl (busy done), died := fun _ => Nat.succ_pos _ }
      · refine List.Perm.trans (List.perm_iff_count.mpr fun key => ?_) inv.ids
        simp only [Pool.ids, List.count_append, List.map_cons, List.count_cons, count key, beq_iff_eq]
        omega
      · intro id
        have before := inv.tried id
        simp only [List.count_append, List.count_cons, List.count_nil, beq_iff_eq]
        split_ifs with same
        · subst same
          rw [tries_put_same]
          omega
        · exact before.trans (tries_put _ _ _)
      · intro id
        have before := inv.tried id
        have limit := inv.limit id
        simp only [List.count_append, List.count_cons, List.count_nil, beq_iff_eq]
        split_ifs with same
        · subst same
          omega
        · exact limit
      · simp only [List.length_append, List.length_singleton, inv.counted]
    · rw [poolLost_poisoned held low]
      refine { inv with
        ids := ?_, distinct := distinct, known := known, live := live, single := single, tried := ?_,
        settled := fun done => Or.inl (busy done), died := fun _ => Nat.succ_pos _ }
      · refine List.Perm.trans (List.perm_iff_count.mpr fun key => ?_) inv.ids
        have name : getString yy tcl (poisonReply item.id ((dictGet item.id s.tries).getD 0 + 1)).id =
          decimal item.id := rfl
        simp only [Pool.ids, List.count_append, List.map_append, List.map_cons, List.map_nil, List.count_cons,
          List.count_nil, name, count key, beq_iff_eq]
        omega
      · exact fun id => (inv.tried id).trans (tries_put _ _ _)

/-- A new worker has a number that none had before and no item. -/
theorem spawned {s : Pool} (inv : s.Conserved yy tcl) :
    Pool.Conserved yy tcl { s with workers := s.workers ++ [s.children], children := s.children + 1 } := by
  have fresh : s.children ∉ s.workers := fun member => Nat.lt_irrefl _ (inv.known _ member)
  refine { inv with
    distinct := ?_, known := ?_, live := fun d member => List.mem_append_left _ (inv.live d member) }
  · exact List.nodup_append.mpr ⟨inv.distinct, List.nodup_singleton _, fun a old b new => by
      obtain rfl := List.mem_singleton.mp new
      rintro rfl
      exact fresh old⟩
  · intro d member
    rcases List.mem_append.mp member with old | new
    · exact Nat.lt_succ_of_lt (inv.known d old)
    · obtain rfl := List.mem_singleton.mp new
      exact Nat.lt_succ_self _

/-- A reply ends the one item of its worker, which is counted among the
replies from then on. -/
theorem received {s : Pool} {c : Child} {item : PoolItem} {rep : PoolReply} (inv : s.Conserved yy tcl)
    (held : dictGet c s.inflight = some item) (same : getString yy tcl rep.id = decimal item.id) :
    (poolReceive s c rep).Conserved yy tcl := by
  have count := inflight_count inv.single held
  refine { inv with
    ids := ?_, live := fun d member => (List.mem_filter.mp (filter_live inv.live d member)).1,
    single := nodup_dictRemove inv.single, settled := ?_ }
  · refine List.Perm.trans (List.perm_iff_count.mpr fun key => ?_) inv.ids
    simp only [Pool.ids, poolReceive, List.count_append, List.map_append, List.map_cons, List.map_nil,
      List.count_cons,
      List.count_nil, same, count key, beq_iff_eq]
    omega
  · intro done
    refine (inv.settled done).imp_right fun rest => ?_
    rw [rest.2] at held
    cases held

/-- Before the batch there is no item anywhere. -/
theorem unsubmitted {s : Pool} (inv : s.Conserved yy tcl) (unsent : s.submittedOnce = false) :
    s.pending = [] ∧ s.inflight = [] ∧ s.results = [] ∧ s.nextid = 0 := by
  have none := inv.unsent unsent
  have ids := inv.ids
  rw [none] at ids
  obtain ⟨pending, rest⟩ := List.append_eq_nil_iff.mp ids.eq_nil
  obtain ⟨inflight, results⟩ := List.append_eq_nil_iff.mp rest
  exact ⟨List.map_eq_nil_iff.mp pending, List.map_eq_nil_iff.mp inflight, List.map_eq_nil_iff.mp results,
    inv.next.trans none⟩

theorem failed {s : Pool} {message : Bytes} (inv : s.Conserved yy tcl) (waiting : s.pending ≠ [])
    (reason : message ≠ []) (died : 0 < s.dead) :
    Pool.Conserved yy tcl { s with fatal := message, done := true } :=
  { inv with
    settled := fun _ => Or.inl reason, stuck := fun _ => rfl, died := fun _ => died,
    quiet := fun unsent => absurd (inv.unsubmitted unsent).1 waiting }

/-- Every single change keeps the invariant. -/
theorem move {s s' : Pool} (inv : s.Conserved yy tcl) (moved : PoolMove s s') : s'.Conserved yy tcl := by
  cases moved with
  | finished empty idle => exact inv.finished empty idle
  | taken live free next => exact inv.taken live free next
  | written => exact { inv with }
  | lost => exact inv.lost
  | spawned => exact inv.spawned
  | stuck waiting reason died => exact inv.failed waiting reason died
  | noted => exact { inv with }

theorem moves {s s' : Pool} (inv : s.Conserved yy tcl) (moved : Pool.Moves s s') : s'.Conserved yy tcl := by
  induction moved with
  | refl => exact inv
  | tail _ moved ih => exact ih.move moved

end Pool.Conserved

end

end Machteld
