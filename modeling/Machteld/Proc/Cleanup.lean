import Machteld.Proc.Free

namespace Machteld

/-- `proc_ctx`, with what is open. -/
structure ProcCtx where
  root : Bool
  children : List ChildHandles
  ptys : List PtyHandles
  watches : List WatchHandles

inductive Resource
  | child (c : ChildHandles)
  | pty (p : PtyHandles)
  | watch (w : WatchHandles)

/-- How the calls of each teardown go. -/
structure CleanupHost where
  child : ChildHandles → ChildAnswers
  pty : PtyHandles → PtyAnswers
  watch : WatchHandles → WatchAnswers

/-- The loop that frees the children: the first is taken off the list
before. It ends with one whose teardown does not return; the flag tells that
there is none. -/
def freeChildren (host : CleanupHost) : List ChildHandles → Bool × List (ChildHandles × List FreeCall)
  | [] => (true, [])
  | c :: next =>
    let freed := childFree (host.child c) c
    if freed.returns then
      let rest := freeChildren host next
      (rest.1, (c, freed.calls) :: rest.2)
    else (false, [(c, freed.calls)])

/-- The loops over the PTYs and the watches: the first of the list is freed
until one fails; none where the fuel runs out. -/
def freeFirst {α : Type} (free : α → List α → Freed α) : Nat → List α → Option (List α × List (α × List FreeCall))
  | _, [] => some ([], [])
  | 0, _ :: _ => none
  | fuel + 1, x :: next =>
    let freed := free x (x :: next)
    if freed.code ≠ 0 then some (freed.left, [(x, freed.calls)])
    else (freeFirst free fuel freed.left).map fun rest => (rest.1, (x, freed.calls) :: rest.2)

def named {α : Type} (name : α → Resource) (log : List (α × List FreeCall)) : List (Resource × List FreeCall) :=
  log.map fun entry => (name entry.1, entry.2)

/-- How `proc_cleanup` goes: what is left where it returns, and none where a
wait does not; the teardowns with their calls. -/
structure CleanupRun where
  left : Option ProcCtx
  attempts : List (Resource × List FreeCall)

/-- `proc_cleanup`; none where the fuel runs out. -/
def procCleanup (host : CleanupHost) (fuel : Nat) (ctx : ProcCtx) : Option CleanupRun :=
  let children := freeChildren host ctx.children
  if children.1 then do
    let ptys ← freeFirst (fun p => ptyFree (host.pty p) p) fuel ctx.ptys
    let watches ← freeFirst (fun w => watchFree (host.watch w) w) fuel ctx.watches
    return ⟨some ⟨false, [], ptys.1, watches.1⟩,
      named .child children.2 ++ named .pty ptys.2 ++ named .watch watches.2⟩
  else some ⟨none, named .child children.2⟩

/-- The waits of the teardown of a child return: the one for its completion,
and the joins of its threads where it has completed. -/
def ChildReturns (a : ChildAnswers) (c : ChildHandles) : Prop :=
  c.reaped = true ∨ a.completed = .failed ∨ (a.completed = .object ∧ ∀ i < c.threads, a.joined i ≠ .never)

/-- The calls on which the result of `pty_free` depends go well. -/
def PtyPasses (a : PtyAnswers) (p : PtyHandles) : Prop :=
  (p.outR = true → a.thread = true ∧ (a.first = .object ∨ a.second = .object)) ∧
    (p.job = true → a.terminated = true)

/-- The watch thread ends in time. -/
def WatchPasses (a : WatchAnswers) (w : WatchHandles) : Prop :=
  w.thread = true → a.first = .object ∨ (a.first = .timeout ∧ a.second = .object)

def ProcCtx.resources (ctx : ProcCtx) : List Resource :=
  ctx.children.map .child ++ ctx.ptys.map .pty ++ ctx.watches.map .watch

/-- The cleanup returns, each resource is torn down once, and those whose
own calls go well are gone. -/
structure CleanupReaches (host : CleanupHost) (ctx : ProcCtx) (run : CleanupRun) : Prop where
  returns : run.left.isSome = true
  once : (run.attempts.map Prod.fst).Perm ctx.resources
  ptys : ∀ p ∈ ctx.ptys, PtyPasses (host.pty p) p → ∃ calls, (Resource.pty p, calls) ∈ run.attempts ∧ .free ∈ calls
  watches : ∀ w ∈ ctx.watches, WatchPasses (host.watch w) w →
    ∃ calls, (Resource.watch w, calls) ∈ run.attempts ∧ .free ∈ calls

/-- The joins return where none of the three waits for ever. -/
theorem childJoins_returns {joined : Nat → EndlessWait} {i left : Nat} :
    (childJoins joined i left).returns = true ↔ ∀ k < left, joined (i + k) ≠ .never := by
  induction left generalizing i with
  | zero => simp [childJoins]
  | succ left ih =>
    rw [childJoins, Nat.forall_lt_succ_left]
    split_ifs with stuck
    · simp [stuck]
    · rw [ih, and_iff_right (show joined (i + 0) ≠ .never from stuck)]
      refine forall₂_congr fun k _ => ?_
      rw [Nat.add_assoc, Nat.add_comm 1 k]

/-- Freeing a child returns where none of its waits lasts for ever. Those
are the wait for the event and, behind it, the joins of its threads. -/
theorem childFree_returns {a : ChildAnswers} {c : ChildHandles} :
    (childFree a c).returns = true ↔ ChildReturns a c := by
  unfold childFree ChildReturns
  cases c.reaped with
  | true => simp
  | false =>
    cases a.completed with
    | never => simp
    | failed => simp
    | object =>
      have joins := @childJoins_returns a.joined 0 c.threads
      simp only [Nat.zero_add] at joins
      simp only [Bool.false_eq_true, if_false, false_or, reduceCtorEq, true_and, ← joins]
      split_ifs with returned
      · exact iff_of_true rfl returned
      · exact iff_of_false nofun returned

theorem drained_iff {a : PtyAnswers} : drained a = true ↔ a.first = .object ∨ a.second = .object := by
  rw [drained, Bool.or_eq_true, decide_eq_true_eq, decide_eq_true_eq]

/-- `pty_free` succeeds exactly where the calls that decide its result do.
-/
theorem ptyFree_code {a : PtyAnswers} {p : PtyHandles} {ptys : List PtyHandles} :
    (ptyFree a p ptys).code = 0 ↔ PtyPasses a p := by
  have minus : (-1 : Int) ≠ 0 := by decide
  unfold ptyFree PtyPasses
  dsimp only
  by_cases threadless : (p.outR && !a.thread) = true
  · rw [if_pos threadless]
    obtain ⟨output, none'⟩ := Bool.and_eq_true_iff.mp threadless
    refine iff_of_false minus fun passes => ?_
    rw [(passes.1 output).1] at none'
    cases none'
  rw [if_neg threadless]
  by_cases stuck : (p.outR && !drained a) = true
  · rw [if_pos stuck]
    obtain ⟨output, waits⟩ := Bool.and_eq_true_iff.mp stuck
    refine iff_of_false minus fun passes => ?_
    rw [drained_iff.mpr (passes.1 output).2] at waits
    cases waits
  rw [if_neg stuck]
  have open' (output : p.outR = true) : a.thread = true ∧ (a.first = .object ∨ a.second = .object) := by
    simp only [output, Bool.true_and, Bool.not_eq_true', Bool.not_eq_false] at threadless stuck
    exact ⟨threadless, drained_iff.mp stuck⟩
  by_cases refused : (p.job && !a.terminated) = true
  · rw [if_pos refused]
    obtain ⟨job, fails⟩ := Bool.and_eq_true_iff.mp refused
    refine iff_of_false minus fun passes => ?_
    rw [passes.2 job] at fails
    cases fails
  · rw [if_neg refused]
    refine iff_of_true rfl ⟨open', fun job => ?_⟩
    simpa only [job, Bool.true_and, Bool.not_eq_true', Bool.not_eq_false] using refused

theorem watchFree_code {a : WatchAnswers} {w : WatchHandles} {watches : List WatchHandles} :
    (watchFree a w watches).code = 0 ↔ WatchPasses a w := by
  unfold watchFree WatchPasses watchLeft
  cases w.thread <;> cases a.first <;> cases a.second <;> simp

/-- A teardown that looks at its own resource only, and takes the first of
the list off it where it succeeds. -/
structure FreesFirst {α : Type} (free : α → List α → Freed α) : Prop where
  code : ∀ x l l', (free x l).code = (free x l').code
  calls : ∀ x l l', (free x l).calls = (free x l').calls
  unlinks : ∀ x next, (free x (x :: next)).code = 0 → (free x (x :: next)).left = next

/-- A pseudoconsole that cannot be freed stays at the head of the list. -/
theorem ptyFree_first (host : CleanupHost) : FreesFirst fun p => ptyFree (host.pty p) p := by
  refine ⟨?_, ?_, ?_⟩
  · intro p l l'
    simp only [ptyFree]
    split_ifs <;> rfl
  · intro p l l'
    simp only [ptyFree]
    split_ifs <;> rfl
  · intro p next
    simp only [ptyFree]
    split_ifs <;> simp

/-- A watch that cannot be freed stays at the head of the list. -/
theorem watchFree_first (host : CleanupHost) : FreesFirst fun w => watchFree (host.watch w) w := by
  refine ⟨?_, ?_, ?_⟩
  · intro w l l'
    simp only [watchFree]
    split_ifs <;> rfl
  · intro w l l'
    simp only [watchFree]
    split_ifs <;> rfl
  · intro w next
    simp only [watchFree]
    split_ifs <;> simp

/-- A loop over a list: the teardowns are those of its first resources, of
all of them where each but the last succeeds. -/
structure FreeRun {α : Type} (free : α → List α → Freed α) (xs : List α) (log : List (α × List FreeCall)) :
    Prop where
  first : log.map Prod.fst <+: xs
  every : log.map Prod.fst = xs ↔ ∀ x ∈ xs.dropLast, (free x []).code = 0
  calls : ∀ entry ∈ log, entry.2 = (free entry.1 []).calls

theorem forall_mem_dropLast_cons {α : Type} {good : α → Prop} {x : α} {next : List α} :
    (∀ y ∈ (x :: next).dropLast, good y) ↔ next = [] ∨ (good x ∧ ∀ y ∈ next.dropLast, good y) := by
  cases next with
  | nil => simp
  | cons z rest => rw [List.dropLast_cons_cons, List.forall_mem_cons]; simp

/-- The loop frees from the head on and stops at the first failure. With
fuel for each object it ends, as a turn takes one object off the list or is
the last. -/
theorem freeFirst_run {α : Type} {free : α → List α → Freed α} (frees : FreesFirst free) (xs : List α) :
    ∃ left log, (∀ fuel, xs.length ≤ fuel → freeFirst free fuel xs = some (left, log)) ∧ FreeRun free xs log := by
  induction xs with
  | nil =>
    refine ⟨[], [], fun fuel _ => ?_, ⟨List.nil_prefix, by simp, by simp⟩⟩
    cases fuel <;> rfl
  | cons x next ih =>
    by_cases fails : (free x (x :: next)).code = 0
    · obtain ⟨left, log, runs, first, every, calls⟩ := ih
      refine ⟨left, (x, (free x (x :: next)).calls) :: log, ?_, ?_, ?_, ?_⟩
      · intro fuel enough
        obtain ⟨fuel, rfl⟩ : ∃ k, fuel = k + 1 := ⟨fuel - 1, by rw [List.length_cons] at enough; omega⟩
        rw [freeFirst]
        simp only [ne_eq, fails, not_true_eq_false, if_false, frees.unlinks x next fails]
        rw [runs fuel (Nat.le_of_succ_le_succ enough), Option.map_some]
      · exact List.cons_prefix_cons.mpr ⟨rfl, first⟩
      · have alone := frees.code x [] (x :: next)
        rw [List.map_cons, List.cons.injEq, every, forall_mem_dropLast_cons, alone]
        constructor
        · rintro ⟨-, all⟩
          exact .inr ⟨fails, all⟩
        · rintro (rfl | ⟨-, all⟩)
          · simp
          · exact ⟨rfl, all⟩
      · exact List.forall_mem_cons.mpr ⟨frees.calls .., calls⟩
    · refine ⟨(free x (x :: next)).left, [(x, (free x (x :: next)).calls)], ?_, ?_, ?_, ?_⟩
      · intro fuel enough
        obtain ⟨fuel, rfl⟩ : ∃ k, fuel = k + 1 := ⟨fuel - 1, by rw [List.length_cons] at enough; omega⟩
        rw [freeFirst]
        exact if_pos fails
      · exact List.cons_prefix_cons.mpr ⟨rfl, List.nil_prefix⟩
      · have alone := frees.code x [] (x :: next)
        rw [forall_mem_dropLast_cons, alone, List.map_singleton, List.cons.injEq]
        constructor
        · rintro ⟨-, last⟩
          exact .inl last.symm
        · rintro (rfl | ⟨bad, -⟩)
          · exact ⟨rfl, rfl⟩
          · exact absurd bad fails
      · exact List.forall_mem_singleton.mpr (frees.calls ..)

theorem named_fst {α : Type} (name : α → Resource) (log : List (α × List FreeCall)) :
    (named name log).map Prod.fst = (log.map Prod.fst).map name := by
  rw [named, List.map_map, List.map_map]
  rfl

theorem mem_named {α : Type} (name : α → Resource) {log : List (α × List FreeCall)} {x : α} {calls : List FreeCall}
    (member : (x, calls) ∈ log) : (name x, calls) ∈ named name log := List.mem_map_of_mem member

/-- The loop over the children returns where freeing each of them does. -/
theorem freeChildren_returns (host : CleanupHost) (children : List ChildHandles) :
    (freeChildren host children).1 = true ↔ ∀ c ∈ children, ChildReturns (host.child c) c := by
  induction children with
  | nil => simp [freeChildren]
  | cons c next ih =>
    rw [freeChildren, List.forall_mem_cons, ← childFree_returns]
    split_ifs with returned
    · rw [ih, and_iff_right returned]
    · exact iff_of_false nofun fun both => returned both.1

/-- Children are freed one after another, whatever comes of it, as that loop
does not look at the result. -/
theorem freeChildren_all {host : CleanupHost} {children : List ChildHandles}
    (returned : (freeChildren host children).1 = true) :
    (freeChildren host children).2.map Prod.fst = children := by
  induction children with
  | nil => rfl
  | cons c next ih =>
    rw [freeChildren] at returned ⊢
    split_ifs at returned ⊢ with first
    rw [List.map_cons, ih returned]

/-- Where the calls of a teardown go well, it ends with `free`. -/
theorem ptyFree_frees {a : PtyAnswers} {p : PtyHandles} (passes : PtyPasses a p) :
    .free ∈ (ptyFree a p []).calls := by
  have code := (@ptyFree_code a p []).mpr passes
  revert code
  simp only [ptyFree]
  split_ifs <;> simp

theorem watchFree_frees {a : WatchAnswers} {w : WatchHandles} (passes : WatchPasses a w) :
    .free ∈ (watchFree a w []).calls := by
  have code := (@watchFree_code a w []).mpr passes
  revert code
  simp only [watchFree]
  split_ifs <;> simp

theorem FreeRun.mem {α : Type} {free : α → List α → Freed α} {xs : List α} {log : List (α × List FreeCall)}
    (run : FreeRun free xs log) (all : log.map Prod.fst = xs) {x : α} (member : x ∈ xs) :
    (x, (free x []).calls) ∈ log := by
  rw [← all] at member
  obtain ⟨entry, inside, rfl⟩ := List.mem_map.mp member
  rw [← run.calls entry inside]
  exact inside

/-- Behind children whose teardown returns, the loops over the PTYs and the
watches decide. -/
theorem procCleanup_behind (host : CleanupHost) (ctx : ProcCtx)
    (returned : (freeChildren host ctx.children).1 = true) :
    ∃ run, (∀ fuel, ctx.ptys.length + ctx.watches.length ≤ fuel → procCleanup host fuel ctx = some run) ∧
      (CleanupReaches host ctx run ↔
        (∀ p ∈ ctx.ptys.dropLast, PtyPasses (host.pty p) p) ∧ ∀ w ∈ ctx.watches.dropLast,
          WatchPasses (host.watch w) w) := by
  obtain ⟨ptysLeft, ptys, ptysRun, freedPtys⟩ := freeFirst_run (ptyFree_first host) ctx.ptys
  obtain ⟨watchesLeft, watches, watchesRun, freedWatches⟩ := freeFirst_run (watchFree_first host) ctx.watches
  refine ⟨⟨some ⟨false, [], ptysLeft, watchesLeft⟩,
    named .child (freeChildren host ctx.children).2 ++ named .pty ptys ++ named .watch watches⟩, ?_, ?_⟩
  · intro fuel enough
    simp only [procCleanup, returned, if_true]
    rw [ptysRun fuel (by omega), watchesRun fuel (by omega)]
    rfl
  · have everyPty := freedPtys.every
    have everyWatch := freedWatches.every
    simp only [ptyFree_code, watchFree_code] at everyPty everyWatch
    rw [← everyPty, ← everyWatch]
    have names : (named .child (freeChildren host ctx.children).2 ++ named .pty ptys ++
      named .watch watches).map Prod.fst =
        ctx.children.map .child ++ (ptys.map Prod.fst).map .pty ++ (watches.map Prod.fst).map .watch := by
      rw [List.map_append, List.map_append, named_fst, named_fst, named_fst, freeChildren_all returned]
    constructor
    · intro reaches
      have once := reaches.once
      rw [names] at once
      have count := once.length_eq
      simp only [ProcCtx.resources, List.length_append, List.length_map] at count
      have fewPtys := freedPtys.first.length_le
      have fewWatches := freedWatches.first.length_le
      rw [List.length_map] at fewPtys fewWatches
      exact ⟨freedPtys.first.eq_of_length (by rw [List.length_map]; omega),
        freedWatches.first.eq_of_length (by rw [List.length_map]; omega)⟩
    · rintro ⟨allPtys, allWatches⟩
      refine ⟨rfl, ?_, ?_, ?_⟩
      · rw [names, allPtys, allWatches]
        exact .refl _
      · intro p member passes
        have inside := mem_named Resource.pty (freedPtys.mem allPtys member)
        exact ⟨_, List.mem_append_left _ (List.mem_append_right _ inside), ptyFree_frees passes⟩
      · intro w member passes
        have inside := mem_named Resource.watch (freedWatches.mem allWatches member)
        exact ⟨_, List.mem_append_right _ inside, watchFree_frees passes⟩

/-- The cleanup returns and reaches everything exactly where the waits for
the children return and each PTY and each watch that is not the last of its
list is torn down without a failure. -/
theorem procCleanup_reaches_iff (host : CleanupHost) (ctx : ProcCtx) :
    ∃ run, (∀ fuel, ctx.ptys.length + ctx.watches.length ≤ fuel → procCleanup host fuel ctx = some run) ∧
      (CleanupReaches host ctx run ↔ (∀ c ∈ ctx.children, ChildReturns (host.child c) c) ∧
        (∀ p ∈ ctx.ptys.dropLast, PtyPasses (host.pty p) p) ∧ ∀ w ∈ ctx.watches.dropLast,
          WatchPasses (host.watch w) w) := by
  rw [← freeChildren_returns]
  cases returned : (freeChildren host ctx.children).1 with
  | true =>
    obtain ⟨run, ends, reaches⟩ := procCleanup_behind host ctx returned
    exact ⟨run, ends, reaches.trans (and_iff_right rfl).symm⟩
  | false =>
    refine ⟨⟨none, named .child (freeChildren host ctx.children).2⟩, fun fuel _ => ?_, ?_⟩
    · simp only [procCleanup, returned, Bool.false_eq_true, if_false]
    · exact iff_of_false (fun reaches => Bool.false_ne_true reaches.returns) fun all => Bool.false_ne_true all.1

/-- A PTY of which only the output is open. -/
def outputPty (token : Bytes) : PtyHandles := ⟨token, false, false, false, false, true⟩

def twoPtys : ProcCtx := ⟨true, [], [outputPty (ascii "pty#2"), outputPty (ascii "pty#1")], []⟩

/-- There is no thread to drain the first of them. -/
def threadless : CleanupHost where
  child _ := ⟨true, .object, fun _ => .object⟩
  pty p := ⟨p.token == ascii "pty#1", true, .object, .object⟩
  watch _ := ⟨.object, .object⟩

/-- The second PTY is not reached where the first has no thread to drain it.
-/
theorem procCleanup_stops : PtyPasses (threadless.pty (outputPty (ascii "pty#1"))) (outputPty (ascii "pty#1")) ∧
    ∃ run, (∀ fuel, 2 ≤ fuel → procCleanup threadless fuel twoPtys = some run) ∧
      ¬ CleanupReaches threadless twoPtys run := by
  refine ⟨(@ptyFree_code _ _ []).mp rfl, ⟨some ⟨false, [], twoPtys.ptys, []⟩,
    [(.pty (outputPty (ascii "pty#2")), [.createThread])]⟩, ?_, ?_⟩
  · intro fuel enough
    obtain ⟨fuel, rfl⟩ : ∃ k, fuel = k + 1 := ⟨fuel - 1, by omega⟩
    rfl
  · intro reaches
    exact absurd reaches.once.length_eq (by decide)

end Machteld
