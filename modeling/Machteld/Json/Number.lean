import Machteld.Rfc8259.Grammar

namespace Machteld

open Rfc8259

/-- What is left after a `while` loop over digits. -/
def skipDigits (s : Bytes) : Bytes := s.dropWhile fun c => decide (IsDigit c)

/-- The test `i >= n || s[i] < '0' || s[i] > '9'`, negated. -/
def atDigit : Bytes → Bool
  | [] => false
  | c :: _ => decide (IsDigit c)

/-- `if (i < n && (s[i] == '+' || s[i] == '-')) i++` -/
def skipSign : Bytes → Bytes
  | [] => []
  | d :: t => if d = 0x2B ∨ d = 0x2D then t else d :: t

/-- From the exponent on: `json_is_number_literal` with the loop index past
the fraction. -/
def numberExponent : Bytes → Bool
  | [] => true
  | c :: s =>
    if c = 0x65 ∨ c = 0x45 then atDigit (skipSign s) && (skipDigits (skipSign s)).isEmpty else false

/-- From the fraction on. -/
def numberFraction : Bytes → Bool
  | [] => true
  | c :: s => if c = 0x2E then atDigit s && numberExponent (skipDigits s) else numberExponent (c :: s)

/-- From the integer part on. -/
def numberInteger : Bytes → Bool
  | [] => false
  | c :: s =>
    if c = 0x30 then numberFraction s
    else if 0x31 ≤ c.toNat ∧ c.toNat ≤ 0x39 then numberFraction (skipDigits (c :: s))
    else false

/-- The C function reads `s` by index; here each stage is given the bytes
the index has not passed. -/
def jsonIsNumberLiteral : Bytes → Bool
  | [] => false
  | c :: s => numberInteger (if c = 0x2D then s else c :: s)

theorem skipDigits_digits {ds rest : Bytes} (digits : ∀ c ∈ ds, IsDigit c) (stop : atDigit rest = false) :
    skipDigits (ds ++ rest) = rest := by
  induction ds with
  | nil =>
    cases rest with
    | nil => rfl
    | cons c rest =>
      have notDigit : ¬ IsDigit c := of_decide_eq_false stop
      simp [skipDigits, notDigit]
  | cons c ds ih =>
    have digit := digits c (List.mem_cons_self ..)
    have later := ih fun d member => digits d (List.mem_cons_of_mem _ member)
    simpa [skipDigits, digit] using later

/-- A digit run in front of what `skipDigits` returns. -/
theorem skipDigits_split (s : Bytes) :
    ∃ ds, s = ds ++ skipDigits s ∧ (∀ c ∈ ds, IsDigit c) ∧ atDigit (skipDigits s) = false ∧
      (atDigit s = true → ds ≠ []) := by
  induction s with
  | nil => exact ⟨[], rfl, nofun, rfl, nofun⟩
  | cons c s ih =>
    by_cases digit : IsDigit c
    · obtain ⟨ds, same, digits, stop, _⟩ := ih
      have step : skipDigits (c :: s) = skipDigits s := by simp [skipDigits, digit]
      rw [step]
      exact ⟨c :: ds, by rw [List.cons_append, ← same], List.forall_mem_cons.mpr ⟨digit, digits⟩, stop, by simp⟩
    · have step : skipDigits (c :: s) = c :: s := by simp [skipDigits, digit]
      rw [step]
      exact ⟨[], rfl, nofun, decide_eq_false digit, fun yes => absurd (of_decide_eq_true yes) digit⟩

theorem atDigit_digits {ds rest : Bytes} (digits : Digits ds) : atDigit (ds ++ rest) = true := by
  cases ds with
  | nil => exact absurd rfl digits.1
  | cons c ds => exact decide_eq_true (digits.2 c (List.mem_cons_self ..))

theorem skipSign_split (s : Bytes) :
    ∃ sign, s = sign ++ skipSign s ∧ (sign = [] ∨ sign = [0x2B] ∨ sign = [0x2D]) := by
  cases s with
  | nil => exact ⟨[], rfl, Or.inl rfl⟩
  | cons d t =>
    by_cases isSign : d = 0x2B ∨ d = 0x2D
    · refine ⟨[d], by simp [skipSign, isSign], ?_⟩
      rcases isSign with rfl | rfl <;> simp
    · exact ⟨[], by simp [skipSign, isSign], Or.inl rfl⟩

theorem skipSign_digits {ds : Bytes} (digits : Digits ds) : skipSign ds = ds := by
  cases ds with
  | nil => rfl
  | cons d ds =>
    have digit := digits.2 d (List.mem_cons_self ..)
    have notSign : ¬ (d = 0x2B ∨ d = 0x2D) := by
      rintro (rfl | rfl) <;> exact absurd digit (by decide)
    exact if_neg notSign

theorem numberExponent_iff (s : Bytes) : numberExponent s = true ↔ s = [] ∨ ExpPart s := by
  constructor
  · intro accepted
    match s with
    | [] => exact Or.inl rfl
    | c :: s =>
      right
      simp only [numberExponent] at accepted
      split_ifs at accepted with isE
      obtain ⟨first, empty⟩ := Bool.and_eq_true_iff.mp accepted
      obtain ⟨sign, same, isSign⟩ := skipSign_split s
      obtain ⟨ds, split, digits, _, nonempty⟩ := skipDigits_split (skipSign s)
      rw [List.isEmpty_iff.mp empty, List.append_nil] at split
      exact ⟨c, sign, skipSign s, by rw [← same], isE, isSign, split ▸ nonempty first, split ▸ digits⟩
  · rintro (rfl | ⟨e, sign, ds, rfl, isE, isSign, digits⟩)
    · rfl
    · have whole : skipDigits (ds ++ []) = [] := skipDigits_digits digits.2 rfl
      have start : atDigit (ds ++ []) = true := atDigit_digits digits
      rw [List.append_nil] at whole start
      have skipped : skipSign (sign ++ ds) = ds := by
        rcases isSign with rfl | rfl | rfl
        · exact skipSign_digits digits
        · rfl
        · rfl
      simp only [numberExponent, if_pos isE, skipped, start, whole, List.isEmpty_nil, Bool.and_self]

theorem ExpPart.not_digit {s : Bytes} (exp : s = [] ∨ ExpPart s) : atDigit s = false := by
  rcases exp with rfl | ⟨e, _, _, rfl, rfl | rfl, _⟩ <;> rfl

theorem numberFraction_iff (s : Bytes) :
    numberFraction s = true ↔
      ∃ frac exp, s = frac ++ exp ∧ (frac = [] ∨ FracPart frac) ∧ (exp = [] ∨ ExpPart exp) := by
  constructor
  · intro accepted
    match s with
    | [] => exact ⟨[], [], rfl, Or.inl rfl, Or.inl rfl⟩
    | c :: s =>
      simp only [numberFraction] at accepted
      split_ifs at accepted with isPoint
      · obtain ⟨first, tail⟩ := Bool.and_eq_true_iff.mp accepted
        obtain ⟨ds, split, digits, _, nonempty⟩ := skipDigits_split s
        exact ⟨c :: ds, skipDigits s, by rw [List.cons_append, ← split],
          Or.inr ⟨ds, by rw [isPoint], nonempty first, digits⟩, (numberExponent_iff _).mp tail⟩
      · exact ⟨[], c :: s, rfl, Or.inl rfl, (numberExponent_iff _).mp accepted⟩
  · rintro ⟨frac, exp, rfl, rfl | ⟨ds, rfl, digits⟩, isExp⟩
    · have accepted := (numberExponent_iff exp).mpr isExp
      match exp, isExp with
      | [], _ => rfl
      | e :: exp, isExp =>
        have notPoint : e ≠ 0x2E := by
          rcases isExp with none | ⟨e', _, _, same, isE, _⟩
          · cases none
          · obtain ⟨rfl, _⟩ := List.cons.inj same
            rcases isE with rfl | rfl <;> decide
        simpa [numberFraction, notPoint] using accepted
    · have stop := ExpPart.not_digit isExp
      simp only [List.cons_append, numberFraction, if_pos, skipDigits_digits digits.2 stop, atDigit_digits digits,
        (numberExponent_iff exp).mpr isExp, Bool.and_self]

theorem numberInteger_iff (s : Bytes) :
    numberInteger s = true ↔
      ∃ int frac exp, s = int ++ (frac ++ exp) ∧ IntPart int ∧ (frac = [] ∨ FracPart frac) ∧
        (exp = [] ∨ ExpPart exp) := by
  constructor
  · intro accepted
    match s with
    | c :: s =>
      simp only [numberInteger] at accepted
      split_ifs at accepted with zero nonzero
      · obtain ⟨frac, exp, same, isFrac, isExp⟩ := (numberFraction_iff s).mp accepted
        exact ⟨[c], frac, exp, by rw [same]; rfl, Or.inl (by rw [zero]), isFrac, isExp⟩
      · have digit : IsDigit c := ⟨by omega, nonzero.2⟩
        have step : skipDigits (c :: s) = skipDigits s := by simp [skipDigits, digit]
        rw [step] at accepted
        obtain ⟨ds, split, digits, _⟩ := skipDigits_split s
        obtain ⟨frac, exp, same, isFrac, isExp⟩ := (numberFraction_iff _).mp accepted
        exact ⟨c :: ds, frac, exp, by rw [List.cons_append, ← same, ← split],
          Or.inr ⟨c, ds, rfl, digit, zero, digits⟩, isFrac, isExp⟩
  · rintro ⟨int, frac, exp, rfl, isInt, isFrac, isExp⟩
    have accepted := (numberFraction_iff (frac ++ exp)).mpr ⟨frac, exp, rfl, isFrac, isExp⟩
    rcases isInt with rfl | ⟨c, ds, rfl, digit, notZero, digits⟩
    · exact accepted
    · have stop : atDigit (frac ++ exp) = false := by
        rcases isFrac with rfl | ⟨_, rfl, _⟩
        · simpa using ExpPart.not_digit isExp
        · rfl
      have nonzero : 0x31 ≤ c.toNat ∧ c.toNat ≤ 0x39 := by
        have different : c.toNat ≠ 0x30 := fun same => notZero (UInt8.toNat_inj.mp same)
        exact ⟨by have := digit.1; omega, digit.2⟩
      have all : ∀ d ∈ c :: ds, IsDigit d := List.forall_mem_cons.mpr ⟨digit, digits⟩
      have skipped := skipDigits_digits all stop
      simp only [List.cons_append] at skipped
      simp only [List.cons_append, numberInteger, if_neg notZero, if_pos nonzero, skipped, accepted]

/-- `json_is_number_literal` decides the number production of the grammar.
-/
theorem jsonIsNumberLiteral_iff (s : Bytes) : jsonIsNumberLiteral s = true ↔ Number s := by
  constructor
  · intro accepted
    match s with
    | c :: s =>
      simp only [jsonIsNumberLiteral] at accepted
      obtain ⟨int, frac, exp, same, isInt, isFrac, isExp⟩ := (numberInteger_iff _).mp accepted
      by_cases minus : c = 0x2D
      · rw [if_pos minus] at same
        exact ⟨[c], int, frac, exp, by rw [same]; rfl, Or.inr (by rw [minus]), isInt, isFrac, isExp⟩
      · rw [if_neg minus] at same
        exact ⟨[], int, frac, exp, by rw [same]; rfl, Or.inl rfl, isInt, isFrac, isExp⟩
  · rintro ⟨sign, int, frac, exp, rfl, isSign, isInt, isFrac, isExp⟩
    have accepted := (numberInteger_iff _).mpr ⟨int, frac, exp, rfl, isInt, isFrac, isExp⟩
    rcases isSign with rfl | rfl
    · match int, isInt with
      | [], isInt => rcases isInt with none | ⟨_, _, none, _⟩ <;> cases none
      | c :: int, isInt =>
        have notMinus : c ≠ 0x2D := by
          rcases isInt with same | ⟨d, _, same, digit, _⟩
          · obtain ⟨rfl, _⟩ := List.cons.inj same
            decide
          · obtain ⟨rfl, _⟩ := List.cons.inj same
            rintro rfl
            exact absurd digit (by decide)
        simpa [jsonIsNumberLiteral, notMinus] using accepted
    · exact accepted

/-- The postcode rule. -/
example : jsonIsNumberLiteral (ascii "-12.50e+3") = true ∧ jsonIsNumberLiteral (ascii "01234") = false := by decide

end Machteld
