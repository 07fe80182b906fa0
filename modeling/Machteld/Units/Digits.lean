import Mathlib.Tactic.Ring
import Machteld.Units.Parse

namespace Machteld

/-- A number in decimal digits, with leading zeros or without. -/
def DigitString (s : Bytes) : Prop := s ≠ [] ∧ ∀ c ∈ s, isDigit c = true

instance (s : Bytes) : Decidable (DigitString s) :=
  decidable_of_iff (s ≠ [] ∧ s.all isDigit = true) (by rw [DigitString, List.all_eq_true])

/-- The number that more digits make of one. -/
def digitsFrom (n : Nat) (digits : Bytes) : Nat := digits.foldl (fun n c => 10 * n + (c.toNat - 0x30)) n

theorem isDigit_iff {c : UInt8} : isDigit c = true ↔ 0x30 ≤ c.toNat ∧ c.toNat ≤ 0x39 := by
  have low : (0x30 : UInt8).toNat = 0x30 := rfl
  have high : (0x39 : UInt8).toNat = 0x39 := rfl
  rw [isDigit, Bool.and_eq_true, decide_eq_true_iff, decide_eq_true_iff, UInt8.le_iff_toNat_le,
    UInt8.le_iff_toNat_le,
    low, high]

theorem digitsFrom_cons (n : Nat) (c : UInt8) (cs : Bytes) :
    digitsFrom n (c :: cs) = digitsFrom (10 * n + (c.toNat - 0x30)) cs := List.foldl_cons ..

/-- Reading on from a number shifts it by the digits that follow. -/
theorem digitsFrom_eq (n : Nat) (digits : Bytes) :
    digitsFrom n digits = n * 10 ^ digits.length + digitsValue digits := by
  induction digits generalizing n with
  | nil => simp [digitsFrom, digitsValue]
  | cons c cs ih =>
    have first : digitsValue (c :: cs) = digitsFrom (10 * 0 + (c.toNat - 0x30)) cs := digitsFrom_cons 0 c cs
    rw [digitsFrom_cons, first, ih, ih (10 * 0 + (c.toNat - 0x30)), List.length_cons, Nat.pow_succ]
    ring

theorem digitsValue_cons (c : UInt8) (cs : Bytes) :
    digitsValue (c :: cs) = (c.toNat - 0x30) * 10 ^ cs.length + digitsValue cs := by
  have first : digitsValue (c :: cs) = digitsFrom (10 * 0 + (c.toNat - 0x30)) cs := digitsFrom_cons 0 c cs
  rw [first, digitsFrom_eq, Nat.mul_zero, Nat.zero_add]

theorem digitsFrom_ge (n : Nat) (digits : Bytes) : n ≤ digitsFrom n digits := by
  rw [digitsFrom_eq]
  exact Nat.le_add_right_of_le (Nat.le_mul_of_pos_right n (Nat.pow_pos (by decide)))

theorem digitsValue_lt {digits : Bytes} (all : ∀ c ∈ digits, isDigit c = true) :
    digitsValue digits < 10 ^ digits.length := by
  induction digits with
  | nil => decide
  | cons c cs ih =>
    obtain ⟨here, later⟩ := List.forall_mem_cons.mp all
    have bounds := isDigit_iff.mp here
    have digit : (c.toNat - 0x30) * 10 ^ cs.length ≤ 9 * 10 ^ cs.length := Nat.mul_le_mul_right _ (by omega)
    have below := ih later
    rw [digitsValue_cons, List.length_cons, Nat.pow_succ]
    omega

/-- Of digit strings of one length the smaller number comes first as text.
-/
theorem digits_lt_iff {a b : Bytes} (same : a.length = b.length) (left : ∀ c ∈ a, isDigit c = true)
    (right : ∀ c ∈ b, isDigit c = true) : a < b ↔ digitsValue a < digitsValue b := by
  induction a generalizing b with
  | nil =>
    obtain rfl : b = [] := List.length_eq_zero_iff.mp same.symm
    simp
  | cons c cs ih =>
    cases b with
    | nil => simp at same
    | cons d ds =>
      obtain ⟨hereLeft, laterLeft⟩ := List.forall_mem_cons.mp left
      obtain ⟨hereRight, laterRight⟩ := List.forall_mem_cons.mp right
      have lengths : cs.length = ds.length := by simpa using same
      have low := isDigit_iff.mp hereLeft
      have high := isDigit_iff.mp hereRight
      have belowLeft := digitsValue_lt laterLeft
      have belowRight := digitsValue_lt laterRight
      rw [List.cons_lt_cons_iff, ih lengths laterLeft laterRight, digitsValue_cons, digitsValue_cons, ← lengths]
      rw [← lengths] at belowRight
      rcases Nat.lt_trichotomy c.toNat d.toNat with less | equal | more
      · have step : (c.toNat - 0x30 + 1) * 10 ^ cs.length ≤ (d.toNat - 0x30) * 10 ^ cs.length :=
          Nat.mul_le_mul_right _ (by omega)
        rw [Nat.add_mul, Nat.one_mul] at step
        exact iff_of_true (.inl (UInt8.lt_iff_toNat_lt.mpr less)) (by omega)
      · obtain rfl := UInt8.toNat_inj.mp equal
        have notLess : ¬ c < c := UInt8.lt_irrefl c
        simp [notLess]
      · have step : (d.toNat - 0x30 + 1) * 10 ^ cs.length ≤ (c.toNat - 0x30) * 10 ^ cs.length :=
          Nat.mul_le_mul_right _ (by omega)
        rw [Nat.add_mul, Nat.one_mul] at step
        refine iff_of_false (fun less => ?_) (by omega)
        rcases less with here | ⟨rfl, _⟩
        · exact absurd (UInt8.lt_iff_toNat_lt.mp here) (by omega)
        · omega

/-- A number as it is printed: without leading zeros. -/
def Canonical (s : Bytes) : Prop := DigitString s ∧ (s.head? = some 0x30 → s = [0x30])

instance (s : Bytes) : Decidable (Canonical s) := inferInstanceAs (Decidable (_ ∧ _))

/-- A canonical number is at least the power of ten of its length. -/
theorem Canonical.ge {s : Bytes} (canonical : Canonical s) (long : 1 < s.length) :
    10 ^ (s.length - 1) ≤ digitsValue s := by
  obtain ⟨⟨_, all⟩, noZero⟩ := canonical
  cases s with
  | nil => simp at long
  | cons c cs =>
    have bounds := isDigit_iff.mp (all c (List.mem_cons_self ..))
    have nonzero : c ≠ 0x30 := by
      rintro rfl
      obtain rfl : cs = [] := (List.cons.inj (noZero rfl)).2
      simp at long
    have large : c.toNat ≠ 0x30 := fun same => nonzero (UInt8.toNat_inj.mp same)
    have step : 1 * 10 ^ cs.length ≤ (c.toNat - 0x30) * 10 ^ cs.length := Nat.mul_le_mul_right _ (by omega)
    rw [digitsValue_cons, List.length_cons, Nat.add_sub_cancel]
    omega

theorem Canonical.lt_of_shorter {a b : Bytes} (left : Canonical a) (right : Canonical b)
    (shorter : a.length < b.length) : digitsValue a < digitsValue b := by
  have positive : 0 < a.length := List.length_pos_iff.mpr left.1.1
  have top := digitsValue_lt left.1.2
  have bottom := right.ge (by omega)
  have powers : 10 ^ a.length ≤ 10 ^ (b.length - 1) := Nat.pow_le_pow_right (by decide) (by omega)
  omega

/-- Numbers compared as text: by length, then in text order. -/
theorem Canonical.exceeds_iff {a b : Bytes} (left : Canonical a) (right : Canonical b) :
    b.length < a.length ∨ (a.length = b.length ∧ b < a) ↔ digitsValue b < digitsValue a := by
  rcases Nat.lt_trichotomy a.length b.length with shorter | same | longer
  · have less := left.lt_of_shorter right shorter
    exact iff_of_false (by omega) (by omega)
  · rw [digits_lt_iff same.symm right.1.2 left.1.2]
    omega
  · exact iff_of_true (.inl longer) (right.lt_of_shorter left longer)

/-- Leading zeros do not count. -/
theorem digitsValue_trim (s : Bytes) : digitsValue (s.dropWhile fun c => c == 0x30) = digitsValue s := by
  induction s with
  | nil => rfl
  | cons c cs ih =>
    by_cases zero : c = 0x30
    · have value : digitsValue (c :: cs) = digitsValue cs := by
        rw [digitsValue_cons, zero]
        exact (congrArg (· + digitsValue cs) (Nat.zero_mul _)).trans (Nat.zero_add _)
      rw [List.dropWhile_cons_of_pos (by simpa using zero), ih, value]
    · rw [List.dropWhile_cons_of_neg (by simpa using zero)]

/-- `string trimleft $n 0`, with `0` for nothing. -/
theorem canonical_trim {s : Bytes} (all : ∀ c ∈ s, isDigit c = true) {trimmed : Bytes}
    (trim : trimmed = s.dropWhile fun c => c == 0x30) :
    Canonical (if trimmed = [] then ascii "0" else trimmed) ∧
      digitsValue (if trimmed = [] then ascii "0" else trimmed) = digitsValue s := by
  split_ifs with empty
  · refine ⟨(by decide : Canonical (ascii "0")), ?_⟩
    rw [← digitsValue_trim s, ← trim, empty]
    rfl
  · refine ⟨⟨⟨empty, fun c member => ?_⟩, fun zero => ?_⟩, by rw [trim, digitsValue_trim]⟩
    · rw [trim] at member
      exact all c (List.dropWhile_subset _ member)
    · rw [trim] at empty zero
      have stop := List.head_dropWhile_not _ empty
      rw [List.head?_eq_some_head empty, Option.some_inj] at zero
      rw [zero] at stop
      cases stop

/-- A loop that refuses a digit exactly when the number would pass a bound
reads the digits at the head of a text, and refuses numbers over the bound.
-/
theorem takeDigits_iff {full : UInt64 → UInt64 → Bool} {bound : Nat} (word : bound < UInt64.size)
    (exact : ∀ v d : UInt64, v.toNat ≤ bound → d.toNat ≤ 9 → (full v d = true ↔ bound < 10 * v.toNat + d.toNat))
    {value : UInt64} {s : Bytes} (fits : value.toNat ≤ bound) {n : UInt64} {p : Bytes} :
    takeDigits full value s = some (n, p) ↔
      n.toNat = digitsFrom value.toNat (s.takeWhile isDigit) ∧ n.toNat ≤ bound ∧ p = s.dropWhile isDigit := by
  induction s generalizing value with
  | nil =>
    rw [takeDigits, Option.some_inj, Prod.mk.injEq]
    constructor
    · rintro ⟨rfl, rfl⟩
      exact ⟨rfl, fits, rfl⟩
    · rintro ⟨same, _, rfl⟩
      exact ⟨UInt64.toNat_inj.mp same.symm, rfl⟩
  | cons c cs ih =>
    by_cases digit : isDigit c = true
    · have bounds := isDigit_iff.mp digit
      have small : (c - 0x30).toUInt64.toNat = c.toNat - 0x30 := by
        have low : (0x30 : UInt8) ≤ c := UInt8.le_iff_toNat_le.mpr bounds.1
        rw [UInt8.toNat_toUInt64, UInt8.toNat_sub_of_le _ _ low]
        rfl
      have test := exact value (c - 0x30).toUInt64 fits (by omega)
      rw [small] at test
      rw [takeDigits, if_pos digit, List.takeWhile_cons_of_pos digit, List.dropWhile_cons_of_pos digit,
        digitsFrom_cons]
      by_cases beyond : bound < 10 * value.toNat + (c.toNat - 0x30)
      · have grows := digitsFrom_ge (10 * value.toNat + (c.toNat - 0x30)) (cs.takeWhile isDigit)
        simp only [test.mpr beyond, if_true]
        exact iff_of_false nofun (by omega)
      · have next : (value * 10 + (c - 0x30).toUInt64).toNat = 10 * value.toNat + (c.toNat - 0x30) := by
          have size : UInt64.size = 2 ^ 64 := rfl
          rw [UInt64.toNat_add, UInt64.toNat_mul, small]
          have ten : (10 : UInt64).toNat = 10 := rfl
          rw [ten]
          omega
        have open' : full value (c - 0x30).toUInt64 = false := by
          rw [← Bool.not_eq_true, test]
          exact beyond
        simp only [open', Bool.false_eq_true, if_false]
        rw [ih (by omega), next]
    · rw [takeDigits, if_neg digit, List.takeWhile_cons_of_neg digit, List.dropWhile_cons_of_neg digit,
        Option.some_inj,
        Prod.mk.injEq]
      constructor
      · rintro ⟨rfl, rfl⟩
        exact ⟨rfl, fits, rfl⟩
      · rintro ⟨same, _, rfl⟩
        exact ⟨UInt64.toNat_inj.mp same.symm, rfl⟩

/-- The loop of the parsers gives up exactly where the value leaves its
bound. The test comes before the multiplication, so nothing overflows on the
way. -/
theorem takeDigits_none {full : UInt64 → UInt64 → Bool} {bound : Nat} (word : bound < UInt64.size)
    (exact : ∀ v d : UInt64, v.toNat ≤ bound → d.toNat ≤ 9 → (full v d = true ↔ bound < 10 * v.toNat + d.toNat))
    {value : UInt64} {s : Bytes} (fits : value.toNat ≤ bound) :
    takeDigits full value s = none ↔ bound < digitsFrom value.toNat (s.takeWhile isDigit) := by
  constructor
  · intro refused
    by_contra within
    have number : (UInt64.ofNat (digitsFrom value.toNat (s.takeWhile isDigit))).toNat =
        digitsFrom value.toNat (s.takeWhile isDigit) := UInt64.toNat_ofNat_of_lt' (by omega)
    have read := (takeDigits_iff word exact fits).mpr ⟨number, by omega, rfl⟩
    rw [refused] at read
    cases read
  · intro beyond
    cases read : takeDigits full value s with
    | none => rfl
    | some pair =>
      have within := (takeDigits_iff word exact fits).mp read
      omega

end Machteld
