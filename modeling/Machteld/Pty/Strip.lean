import Machteld.Chars
import Machteld.Matcher

namespace Machteld

/-- `[0-?]` -/
def csiParameter (c : Nat) : Bool := decide (0x30 ≤ c) && decide (c ≤ 0x3F)

/-- A blank to `/`. -/
def csiIntermediate (c : Nat) : Bool := decide (0x20 ≤ c) && decide (c ≤ 0x2F)

/-- `[@-~]` -/
def csiFinal (c : Nat) : Bool := decide (0x40 ≤ c) && decide (c ≤ 0x7E)

/-- `[0-9A-Za-z]` -/
def charsetFinal (c : Nat) : Bool :=
  isDigitChar c || decide (0x41 ≤ c) && decide (c ≤ 0x5A) || decide (0x61 ≤ c) && decide (c ≤ 0x7A)

/-- `ESC [[]`, parameters, intermediates and `[@-~]`, of which no two share
a character. -/
def ptyCsi : Matcher Nat :=
  .lead (· == 0x1B) (.lead (· == 0x5B) (.afterRun csiParameter (.afterRun csiIntermediate (oneOf csiFinal))))

def oscEnd : Chars → Option Nat
  | [] => none
  | c :: s =>
    if c == 0x07 then some 1
    else if c == 0x1B && s.head? == some 0x5C then some 2
    else (oscEnd s).map (· + 1)

theorem oscEnd_some {c : Nat} {s : Chars} {n : Nat} (front : oscEnd (c :: s) = some n) :
    c = 0x07 ∧ n = 1 ∨ (∃ t, c = 0x1B ∧ s = 0x5C :: t ∧ n = 2) ∨ ∃ k, oscEnd s = some k ∧ n = k + 1 := by
  rw [oscEnd] at front
  by_cases bell : (c == 0x07) = true
  · rw [if_pos bell] at front
    cases front
    exact .inl ⟨beq_iff_eq.mp bell, rfl⟩
  rw [if_neg bell] at front
  by_cases string : (c == 0x1B && s.head? == some 0x5C) = true
  · rw [if_pos string] at front
    cases front
    obtain ⟨escape, next⟩ := Bool.and_eq_true_iff.mp string
    obtain ⟨t, rfl⟩ := List.head?_eq_some_iff.mp (beq_iff_eq.mp next)
    exact .inr (.inl ⟨t, beq_iff_eq.mp escape, rfl, rfl⟩)
  · rw [if_neg string] at front
    obtain ⟨k, rest, rfl⟩ := Option.map_eq_some_iff.mp front
    exact .inr (.inr ⟨k, rest, rfl⟩)

theorem oscEnd_positive {x : Chars} {n : Nat} (front : oscEnd x = some n) : 0 < n := by
  cases x with
  | nil => cases front
  | cons c s => rcases oscEnd_some front with ⟨-, rfl⟩ | ⟨t, -, -, rfl⟩ | ⟨k, -, rfl⟩ <;> omega

theorem oscEnd_within {x : Chars} {n : Nat} (front : oscEnd x = some n) : n ≤ x.length := by
  induction x generalizing n with
  | nil => cases front
  | cons c s ih =>
    rcases oscEnd_some front with ⟨-, rfl⟩ | ⟨t, -, rfl, rfl⟩ | ⟨k, rest, rfl⟩
    · exact Nat.succ_le_succ (Nat.zero_le _)
    · simp
    · exact Nat.succ_le_succ (ih rest)

theorem oscEnd_whole (u w : Chars) : oscEnd (u ++ w) = some u.length ↔ oscEnd u = some u.length := by
  induction u with
  | nil =>
    have empty (x : Chars) : oscEnd x ≠ some 0 := fun front => absurd (oscEnd_positive front) (Nat.lt_irrefl 0)
    exact ⟨fun front => absurd front (empty _), fun front => absurd front (empty _)⟩
  | cons c s ih =>
    rw [List.cons_append, oscEnd, oscEnd]
    by_cases bell : (c == 0x07) = true
    · rw [if_pos bell, if_pos bell]
    rw [if_neg bell, if_neg bell]
    cases s with
    | nil =>
      have empty : oscEnd w ≠ some 0 := fun front => absurd (oscEnd_positive front) (Nat.lt_irrefl 0)
      by_cases string : (c == 0x1B && w.head? == some 0x5C) = true <;> simp [string, oscEnd, empty]
    | cons d s =>
      rw [List.cons_append, List.head?_cons, List.head?_cons]
      by_cases string : (c == 0x1B && some d == some 0x5C) = true
      · rw [if_pos string, if_pos string]
      · rw [if_neg string, if_neg string]
        simpa using ih

/-- `.*?(?:BEL|ESC\\)`: to the first of the two ends. -/
def oscText : Matcher Nat where
  matched := oscEnd
  positive := oscEnd_positive
  within := oscEnd_within
  whole := oscEnd_whole

/-- `ESC []].*?(?:BEL|ESC\\)` -/
def ptyOsc : Matcher Nat := .lead (· == 0x1B) (.lead (· == 0x5D) oscText)

/-- `ESC [()#][0-9A-Za-z]` -/
def ptyCharset : Matcher Nat := .lead (· == 0x1B) (.lead (chars "()#").contains (oneOf charsetFinal))

/-- `ESC [=>78McDEHM]` -/
def ptySimple : Matcher Nat := .lead (· == 0x1B) (oneOf (chars "=>78McDEHM").contains)

/-- `PtyStrip` -/
def ptyStrip (s : Chars) : Chars :=
  ptySimple.removeAll (ptyCharset.removeAll (ptyOsc.removeAll (ptyCsi.removeAll s)))

example : ptyStrip (0x1B :: chars "[1;31mred" ++ 0x1B :: chars "[0m" ++ [0x1B, 0x5D, 0x30, 0x07, 0x0A]) =
    chars "red\n" := by decide

end Machteld
