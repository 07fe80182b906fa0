import Machteld.Chars
import Mathlib.Data.List.DropRight

namespace Machteld

section

variable {tables : CharTables} {s t left middle right : Chars}

theorem CharTables.trim_eq (tables : CharTables) (s : Chars) :
    tables.trim s = (s.dropWhile tables.trimmed).rdropWhile tables.trimmed := rfl

theorem dropWhile_kept {p : Nat → Bool} (first : ∀ c, s.head? = some c → p c = false) : s.dropWhile p = s := by
  cases s with
  | nil => rfl
  | cons c s => rw [List.dropWhile_cons_of_neg (by simp [first c rfl])]

theorem rdropWhile_kept {p : Nat → Bool} (last : ∀ c, s.getLast? = some c → p c = false) : s.rdropWhile p = s := by
  refine List.rdropWhile_eq_self_iff.mpr fun given => ?_
  rw [last _ (List.getLast?_eq_some_getLast given)]
  exact Bool.false_ne_true

/-- Nothing is trimmed between characters that stay. -/
theorem CharTables.trim_kept (first : ∀ c, s.head? = some c → tables.trimmed c = false)
    (last : ∀ c, s.getLast? = some c → tables.trimmed c = false) : tables.trim s = s := by
  rw [trim_eq, dropWhile_kept first, rdropWhile_kept last]

theorem CharTables.trim_all (kept : ∀ c ∈ s, tables.trimmed c = false) : tables.trim s = s :=
  trim_kept (fun c found => kept c (List.mem_of_head? found)) fun c found => kept c (List.mem_of_getLast? found)

theorem CharTables.trim_between {c : Nat} (given : left ≠ [])
    (first : ∀ c, left.head? = some c → tables.trimmed c = false) (given' : right ≠ [])
    (last : ∀ c, right.getLast? = some c → tables.trimmed c = false) :
    tables.trim (left ++ c :: right) = left ++ c :: right := by
  refine trim_kept (fun c' found => first c' ?_) fun c' found => last c' ?_
  · rwa [List.head?_append_of_ne_nil _ given] at found
  · rwa [List.getLast?_append_of_ne_nil _ (List.cons_ne_nil _ _), List.getLast?_cons_of_ne_nil given'] at found

theorem CharTables.trim_prefix (tables : CharTables) (s : Chars) : tables.trim s <+: s.dropWhile tables.trimmed :=
  List.rdropWhile_prefix _ _

theorem CharTables.dropWhile_of_length (long : s.length ≤ (tables.trim s).length) :
    s.dropWhile tables.trimmed = s := by
  have shorter := List.dropWhile_suffix tables.trimmed (l := s)
  exact shorter.eq_of_length (shorter.length_le.antisymm (long.trans (tables.trim_prefix s).length_le))

theorem CharTables.trim_of_length (long : s.length ≤ (tables.trim s).length) : tables.trim s = s := by
  have kept := tables.trim_prefix s
  rw [dropWhile_of_length long] at kept
  exact kept.eq_of_length (kept.length_le.antisymm long)

theorem CharTables.trim_head (same : tables.trim s = s) {c : Nat} (first : s.head? = some c) :
    tables.trimmed c = false := by
  have stays := List.head?_dropWhile_not tables.trimmed s
  rw [dropWhile_of_length (congrArg List.length same).ge, first] at stays
  exact stays

/-- What pads a string is trimmed. -/
theorem CharTables.trim_pad (before : ∀ c ∈ left, tables.trimmed c = true)
    (behind : ∀ c ∈ right, tables.trimmed c = true) :
    tables.trim (left ++ (middle ++ right)) = tables.trim middle := by
  rw [trim, trim, List.dropWhile_append_of_pos before, List.dropWhile_append]
  split_ifs with blank
  · rw [List.isEmpty_iff.mp blank, List.dropWhile_eq_nil_iff.mpr behind]
  · rw [List.reverse_append, List.dropWhile_append_of_pos fun c member => behind c (List.mem_reverse.mp member)]

theorem CharTables.toLower_trim (keeps : ∀ c, tables.trimmed (tables.lower c) = tables.trimmed c) (s : Chars) :
    tables.toLower (tables.trim s) = tables.trim (tables.toLower s) := by
  have same : tables.trimmed ∘ tables.lower = tables.trimmed := funext keeps
  rw [trim, trim, toLower, toLower, List.dropWhile_map, same, ← List.map_reverse, List.dropWhile_map, same,
    List.map_reverse]

theorem replaceRuns_length_le (matched : Nat → Bool) (inRun : Bool) (s : Chars) :
    (replaceRuns matched inRun s).length ≤ s.length := by
  induction s generalizing inRun with
  | nil => exact Nat.le_refl 0
  | cons c s ih =>
    unfold replaceRuns
    split_ifs
    · exact (ih true).trans (Nat.le_succ _)
    · exact Nat.succ_le_succ (ih true)
    · exact Nat.succ_le_succ (ih false)

/-- Where no run is longer than a character, each of them becomes a blank.
-/
theorem replaceRuns_of_length {matched : Nat → Bool} {inRun : Bool}
    (long : s.length ≤ (replaceRuns matched inRun s).length) :
    replaceRuns matched inRun s = s.map fun c => if matched c then 0x20 else c := by
  induction s generalizing inRun with
  | nil => rfl
  | cons c s ih =>
    unfold replaceRuns at long ⊢
    rw [List.map_cons]
    split_ifs at long ⊢ with found within
    · exact absurd (long.trans (replaceRuns_length_le matched true s)) (Nat.not_succ_le_self _)
    · rw [ih (Nat.le_of_succ_le_succ long)]
    · rw [ih (Nat.le_of_succ_le_succ long)]

end

end Machteld
