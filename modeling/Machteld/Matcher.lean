import Mathlib.Data.List.Infix

namespace Machteld

/-- A class of sequences, read at the front of a list: whether one begins
there, and its length. What comes after a sequence does not decide whether
it is one. -/
structure Matcher (α : Type) where
  matched : List α → Option Nat
  positive : ∀ {x n}, matched x = some n → 0 < n
  within : ∀ {x n}, matched x = some n → n ≤ x.length
  whole : ∀ u w, matched (u ++ w) = some u.length ↔ matched u = some u.length

variable {α : Type}

/-- A character of a kind, and then something more. -/
def leadThen (p : α → Bool) (after : List α → Option Nat) : List α → Option Nat
  | [] => none
  | c :: s => if p c then (after s).map (· + 1) else none

/-- The longest run of characters of a kind, and then something more. -/
def runThen (p : α → Bool) (after : List α → Option Nat) : List α → Option Nat
  | [] => after []
  | c :: s => if p c then (runThen p after s).map (· + 1) else after (c :: s)

section

variable {p : α → Bool} {after : List α → Option Nat}

theorem leadThen_some {x : List α} {n : Nat} (front : leadThen p after x = some n) :
    ∃ c s k, x = c :: s ∧ p c = true ∧ after s = some k ∧ n = k + 1 := by
  cases x with
  | nil => cases front
  | cons c s =>
    rw [leadThen] at front
    by_cases mine : p c = true
    · rw [if_pos mine] at front
      obtain ⟨k, rest, rfl⟩ := Option.map_eq_some_iff.mp front
      exact ⟨c, s, k, rfl, mine, rest, rfl⟩
    · rw [if_neg mine] at front
      cases front

theorem leadThen_positive {x : List α} {n : Nat} (front : leadThen p after x = some n) : 0 < n := by
  obtain ⟨c, s, k, -, -, -, rfl⟩ := leadThen_some front
  exact Nat.succ_pos k

theorem leadThen_within (within : ∀ {x n}, after x = some n → n ≤ x.length) {x : List α} {n : Nat}
    (front : leadThen p after x = some n) : n ≤ x.length := by
  obtain ⟨c, s, k, rfl, -, rest, rfl⟩ := leadThen_some front
  exact Nat.succ_le_succ (within rest)

theorem leadThen_whole (whole : ∀ u w, after (u ++ w) = some u.length ↔ after u = some u.length) (u w : List α) :
    leadThen p after (u ++ w) = some u.length ↔ leadThen p after u = some u.length := by
  cases u with
  | nil =>
    have empty (x : List α) : leadThen p after x ≠ some 0 :=
      fun front => absurd (leadThen_positive front) (Nat.lt_irrefl 0)
    exact ⟨fun front => absurd front (empty _), fun front => absurd front (empty _)⟩
  | cons c s =>
    by_cases mine : p c = true
    · simpa [leadThen, mine] using whole s w
    · simp [leadThen, mine]

theorem runThen_positive (positive : ∀ {x n}, after x = some n → 0 < n) {x : List α} {n : Nat}
    (front : runThen p after x = some n) : 0 < n := by
  induction x generalizing n with
  | nil => exact positive front
  | cons c s ih =>
    rw [runThen] at front
    by_cases mine : p c = true
    · rw [if_pos mine] at front
      obtain ⟨k, -, rfl⟩ := Option.map_eq_some_iff.mp front
      exact Nat.succ_pos k
    · rw [if_neg mine] at front
      exact positive front

theorem runThen_within (within : ∀ {x n}, after x = some n → n ≤ x.length) {x : List α} {n : Nat}
    (front : runThen p after x = some n) : n ≤ x.length := by
  induction x generalizing n with
  | nil => exact within front
  | cons c s ih =>
    rw [runThen] at front
    by_cases mine : p c = true
    · rw [if_pos mine] at front
      obtain ⟨k, rest, rfl⟩ := Option.map_eq_some_iff.mp front
      exact Nat.succ_le_succ (ih rest)
    · rw [if_neg mine] at front
      exact within front

theorem runThen_whole (positive : ∀ {x n}, after x = some n → 0 < n)
    (whole : ∀ u w, after (u ++ w) = some u.length ↔ after u = some u.length) (u w : List α) :
    runThen p after (u ++ w) = some u.length ↔ runThen p after u = some u.length := by
  induction u with
  | nil =>
    have empty (x : List α) : runThen p after x ≠ some 0 :=
      fun front => absurd (runThen_positive positive front) (Nat.lt_irrefl 0)
    exact ⟨fun front => absurd front (empty _), fun front => absurd front (empty _)⟩
  | cons c s ih =>
    by_cases mine : p c = true
    · simpa [runThen, mine] using ih
    · simpa [runThen, mine] using whole (c :: s) w

end

/-- `[...]` -/
def oneOf (p : α → Bool) : Matcher α where
  matched := leadThen p fun _ => some 0
  positive := leadThen_positive
  within := leadThen_within fun front => by cases front; exact Nat.zero_le _
  whole := leadThen_whole fun _ _ => Iff.rfl

/-- `[...]`, and then a sequence of another class. -/
def Matcher.lead (p : α → Bool) (m : Matcher α) : Matcher α where
  matched := leadThen p m.matched
  positive := leadThen_positive
  within := leadThen_within m.within
  whole := leadThen_whole m.whole

/-- `[...]*`, and then a sequence of a class that no character of the run
begins. -/
def Matcher.afterRun (p : α → Bool) (m : Matcher α) : Matcher α where
  matched := runThen p m.matched
  positive := runThen_positive m.positive
  within := runThen_within m.within
  whole := runThen_whole m.positive m.whole

namespace Matcher

variable (m : Matcher α)

/-- The list is one sequence of the class. -/
def Sequence (u : List α) : Prop := m.matched u = some u.length

/-- No sequence of the class is anywhere in the list. -/
def Clean (x : List α) : Prop := ∀ u, m.Sequence u → ¬ u <:+: x

def removeFrom : Nat → List α → List α
  | _, [] => []
  | skip + 1, _ :: s => removeFrom skip s
  | 0, c :: s => match m.matched (c :: s) with
    | some n => removeFrom (n - 1) s
    | none => c :: removeFrom 0 s

/-- `regsub -all` with nothing in the place of each sequence: from the left,
and on after the sequence taken away. -/
def removeAll (x : List α) : List α := m.removeFrom 0 x

/-- What is left is the list without whole sequences of the class, in its
order. -/
inductive Removes : List α → List α → Prop
  | done : Removes [] []
  | kept {c s t} : m.matched (c :: s) = none → Removes s t → Removes (c :: s) (c :: t)
  | removed {u v t} : m.Sequence u → Removes v t → Removes (u ++ v) t

/-- The passes of a removal, the last one first. -/
def removeAlls (passes : List (Matcher α)) (x : List α) : List α := passes.foldr removeAll x

/-- A list is read up to an end of it: pieces are passed over, and where
none begins the element is kept. -/
inductive Reads (piece : List α → List α → Prop) : List α → List α → List α → Prop
  | done (v) : Reads piece v [] v
  | kept {c v u w} : (∀ w', ¬ piece (c :: v) w') → Reads piece v u w → Reads piece (c :: v) (c :: u) w
  | passed {v v' u w} : piece v v' → Reads piece v' u w → Reads piece v u w

/-- What the passes take away at an end of a list, up to an end of that: a
piece of the earlier passes or, where none begins, a sequence of the last
one with such pieces inside. -/
def Piece : List (Matcher α) → List α → List α → Prop
  | [], _, _ => False
  | m :: passes, v, w => Piece passes v w ∨
    (∀ w', ¬ Piece passes v w') ∧ ∃ u, m.Sequence u ∧ Reads (Piece passes) v u w

/-- At an end that the reading comes to begins nothing that the passes take
away, and yet a sequence of a class is there with such pieces inside it. -/
def Interrupted (passes : List (Matcher α)) (c : Matcher α) (s : List α) : Prop :=
  ∃ p v u w, Reads (Piece passes) s p v ∧ (∀ w', ¬ Piece passes v w') ∧ c.Sequence u ∧ Reads (Piece passes) v u w

variable {m}

theorem matched_take {x : List α} {n : Nat} (front : m.matched x = some n) : m.Sequence (x.take n) := by
  have length := List.length_take_of_le (m.within front)
  exact (m.whole (x.take n) (x.drop n)).mp (by rw [List.take_append_drop, length, front])

theorem Sequence.matched_append {u : List α} (sequence : m.Sequence u) (w : List α) :
    m.matched (u ++ w) = some u.length :=
  (m.whole u w).mpr sequence

theorem Sequence.ne_nil {u : List α} (sequence : m.Sequence u) : u ≠ [] :=
  List.ne_nil_of_length_pos (m.positive sequence)

theorem removeFrom_skip (x : List α) (skip : Nat) : m.removeFrom skip x = m.removeAll (x.drop skip) := by
  induction x generalizing skip with
  | nil => rw [List.drop_nil]; cases skip <;> rfl
  | cons c s ih =>
    cases skip with
    | zero => rfl
    | succ k => exact ih k

@[simp]
theorem removeAll_nil : m.removeAll [] = [] := rfl

theorem removeAll_kept {c : α} {s : List α} (kept : m.matched (c :: s) = none) :
    m.removeAll (c :: s) = c :: m.removeAll s := by
  rw [removeAll, removeFrom, kept]
  rfl

theorem removeAll_drop {x : List α} {n : Nat} (front : m.matched x = some n) :
    m.removeAll x = m.removeAll (x.drop n) := by
  have positive := m.positive front
  cases x with
  | nil => rw [List.drop_nil]
  | cons c s =>
    obtain ⟨k, rfl⟩ : ∃ k, n = k + 1 := ⟨n - 1, by omega⟩
    rw [removeAll, removeFrom, front]
    exact removeFrom_skip s k

theorem removeAll_sequence {u v : List α} (sequence : m.Sequence u) : m.removeAll (u ++ v) = m.removeAll v := by
  rw [removeAll_drop (sequence.matched_append v), List.drop_left]

/-- A list is empty, begins with a kept element, or with a sequence. -/
theorem front_cases (x : List α) :
    x = [] ∨ (∃ c s, x = c :: s ∧ m.matched (c :: s) = none) ∨ ∃ u v, x = u ++ v ∧ m.Sequence u := by
  cases x with
  | nil => exact .inl rfl
  | cons c s =>
    cases front : m.matched (c :: s) with
    | none => exact .inr (.inl ⟨c, s, rfl, front⟩)
    | some n => exact .inr (.inr ⟨_, _, (List.take_append_drop n (c :: s)).symm, matched_take front⟩)

/-- Induction along the removal. -/
theorem removal_induction {P : List α → Prop} (done : P [])
    (kept : ∀ c s, m.matched (c :: s) = none → P s → P (c :: s))
    (removed : ∀ u v, m.Sequence u → P v → P (u ++ v)) (x : List α) : P x := by
  induction h : x.length using Nat.strongRecOn generalizing x with
  | ind k ih =>
    subst h
    rcases m.front_cases x with rfl | ⟨c, s, rfl, none'⟩ | ⟨u, v, rfl, sequence⟩
    · exact done
    · exact kept c s none' (ih s.length (by simp) s rfl)
    · have positive := m.positive sequence
      exact removed u v sequence (ih v.length (by rw [List.length_append]; omega) v rfl)

theorem removeAll_removes (s : List α) : m.Removes s (m.removeAll s) := by
  induction s using m.removal_induction with
  | done => exact .done
  | kept c s none' ih => rw [removeAll_kept none']; exact .kept none' ih
  | removed u v sequence ih => rw [removeAll_sequence sequence]; exact .removed sequence ih

theorem removeAll_clean {s : List α} (clean : m.Clean s) : m.removeAll s = s := by
  induction s with
  | nil => rfl
  | cons c s ih =>
    have none' : m.matched (c :: s) = none := by
      cases front : m.matched (c :: s) with
      | none => rfl
      | some n => exact absurd (List.take_prefix n _).isInfix (clean _ (matched_take front))
    rw [removeAll_kept none']
    exact congrArg _ (ih fun u sequence inside => clean u sequence (inside.trans (List.suffix_cons c s).isInfix))

theorem Reads.trans {piece : List α → List α → Prop} {v u w u' w' : List α} (first : Reads piece v u w)
    (second : Reads piece w u' w') : Reads piece v (u ++ u') w' := by
  induction first with
  | done _ => exact second
  | kept none' _ ih => exact .kept none' (ih second)
  | passed here _ ih => exact .passed here (ih second)

/-- What is left of a list by a function that passes pieces over. -/
structure Leaves (piece : List α → List α → Prop) (f : List α → List α) : Prop where
  nil : f [] = []
  shorter : ∀ v w, piece v w → w.length < v.length
  same : ∀ v w, piece v w → f v = f w
  kept : ∀ c v, (∀ w, ¬ piece (c :: v) w) → f (c :: v) = c :: f v

namespace Leaves

variable {piece : List α → List α → Prop} {f : List α → List α}

theorem reads (leaves : Leaves piece f) {v u w : List α} (reads : Reads piece v u w) :
    f v = u ++ f w ∧ u.length + w.length ≤ v.length := by
  induction reads with
  | done v => exact ⟨rfl, Nat.le_of_eq (Nat.zero_add _)⟩
  | kept none' _ ih =>
    rw [leaves.kept _ _ none', ih.1]
    refine ⟨rfl, ?_⟩
    rw [List.length_cons, List.length_cons]
    omega
  | passed here _ ih =>
    have shorter := leaves.shorter _ _ here
    exact ⟨(leaves.same _ _ here).trans ih.1, by omega⟩

/-- All that is left can be read. -/
theorem prefix_reads (leaves : Leaves piece f) {v u : List α} (front : u <+: f v) : ∃ w, Reads piece v u w := by
  induction length : v.length using Nat.strongRecOn generalizing v u with
  | ind k ih =>
    subst length
    by_cases here : ∃ w, piece v w
    · obtain ⟨w, here⟩ := here
      rw [leaves.same _ _ here] at front
      obtain ⟨w', rest⟩ := ih w.length (leaves.shorter _ _ here) front rfl
      exact ⟨w', .passed here rest⟩
    · have none' := not_exists.mp here
      cases v with
      | nil =>
        rw [leaves.nil] at front
        obtain rfl := List.prefix_nil.mp front
        exact ⟨[], .done []⟩
      | cons c v =>
        rw [leaves.kept c v none'] at front
        cases u with
        | nil => exact ⟨c :: v, .done _⟩
        | cons d u =>
          obtain ⟨rfl, later⟩ := List.cons_prefix_cons.mp front
          obtain ⟨w, rest⟩ := ih v.length (Nat.lt_succ_self _) later rfl
          exact ⟨w, .kept none' rest⟩

/-- The pieces at an end can be passed over. -/
theorem past (leaves : Leaves piece f) (v : List α) : ∃ w, Reads piece v [] w ∧ ∀ w', ¬ piece w w' := by
  induction length : v.length using Nat.strongRecOn generalizing v with
  | ind k ih =>
    subst length
    by_cases here : ∃ w, piece v w
    · obtain ⟨w, here⟩ := here
      obtain ⟨w', rest, none'⟩ := ih w.length (leaves.shorter _ _ here) w rfl
      exact ⟨w', .passed here rest, none'⟩
    · exact ⟨v, .done v, not_exists.mp here⟩

end Leaves

/-- The pieces of a text are what the passes take away from it. -/
theorem piece_leaves (passes : List (Matcher α)) : Leaves (Piece passes) (removeAlls passes) := by
  induction passes with
  | nil => exact ⟨rfl, fun _ _ none' => none'.elim, fun _ _ none' => none'.elim, fun _ _ _ => rfl⟩
  | cons m passes ih =>
    refine ⟨?_, fun v w piece => ?_, fun v w piece => ?_, fun c v none' => ?_⟩
    · change m.removeAll (removeAlls passes []) = []
      rw [ih.nil, removeAll_nil]
    · rcases piece with earlier | ⟨-, u, sequence, reads⟩
      · exact ih.shorter v w earlier
      · have within := (ih.reads reads).2
        have some := List.length_pos_of_ne_nil sequence.ne_nil
        omega
    · change m.removeAll (removeAlls passes v) = m.removeAll (removeAlls passes w)
      rcases piece with earlier | ⟨-, u, sequence, reads⟩
      · rw [ih.same v w earlier]
      · rw [(ih.reads reads).1, removeAll_sequence sequence]
    · have earlier : ∀ w, ¬ Piece passes (c :: v) w := fun w here => none' w (.inl here)
      have left := ih.kept c v earlier
      change m.removeAll (removeAlls passes (c :: v)) = c :: m.removeAll (removeAlls passes v)
      rw [left]
      cases front : m.matched (c :: removeAlls passes v) with
      | none => exact removeAll_kept front
      | some n =>
        have inside : (c :: removeAlls passes v).take n <+: removeAlls passes (c :: v) :=
          left ▸ List.take_prefix n _
        obtain ⟨w, reads⟩ := ih.prefix_reads inside
        exact absurd (.inr ⟨earlier, _, matched_take front, reads⟩) (none' w)

/-- The passes leave a sequence of a class exactly where one was interrupted
by what they took away. -/
theorem clean_removeAlls {passes : List (Matcher α)} {c : Matcher α} {s : List α} :
    c.Clean (removeAlls passes s) ↔ ¬ Interrupted passes c s := by
  have leaves := piece_leaves passes
  constructor
  · rintro clean ⟨p, v, u, w, before, -, sequence, inside⟩
    refine clean u sequence ⟨p, removeAlls passes w, ?_⟩
    rw [(leaves.reads before).1, (leaves.reads inside).1, List.append_assoc]
  · rintro none' u sequence ⟨p, q, split⟩
    obtain ⟨v, before⟩ := leaves.prefix_reads (u := p) ⟨u ++ q, by rw [← split, List.append_assoc]⟩
    obtain ⟨v', past, bare⟩ := leaves.past v
    have reached := before.trans past
    rw [List.append_nil] at reached
    have rest : u ++ q = removeAlls passes v' :=
      List.append_cancel_left ((List.append_assoc p u q).symm.trans (split.trans (leaves.reads reached).1))
    obtain ⟨w, inside⟩ := leaves.prefix_reads (u := u) ⟨q, rest⟩
    exact none' ⟨p, v', u, w, reached, bare, sequence, inside⟩

end Matcher

end Machteld
