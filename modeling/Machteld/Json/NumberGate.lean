import Machteld.Json.EmitText
import Machteld.Json.Typed

namespace Machteld

open Rfc8259

/-- The test of one byte at an index; nothing where the index is outside. -/
def digitAt (s : Bytes) (i : Nat) : Option Bool := s[i]?.map fun c => decide (IsDigit c)

/-- `while (i < n && s[i] >= '0' && s[i] <= '9') i++` -/
def scanDigits (s : Bytes) (i : Nat) : Option Nat :=
  if i < s.length then
    (digitAt s i).bind fun digit => if digit then scanDigits s (i + 1) else some i
  else some i
termination_by s.length - i

/-- At least one digit, and the index behind the last. -/
def scanDigits1 (s : Bytes) (i : Nat) : Option (Option Nat) :=
  if s.length ≤ i then some none
  else (digitAt s i).bind fun digit => if digit then (scanDigits s i).map some else some none

/-- `if (i < n && (s[i] == '+' || s[i] == '-')) i++` -/
def scanSign (s : Bytes) (i : Nat) : Option Nat :=
  if i < s.length then s[i]?.map fun c => if c = 0x2B ∨ c = 0x2D then i + 1 else i else some i

def scanExponent (s : Bytes) (i : Nat) : Option Bool :=
  if i < s.length then
    s[i]?.bind fun c =>
      if c = 0x65 ∨ c = 0x45 then
        (scanSign s (i + 1)).bind fun i => (scanDigits1 s i).map fun stop => stop.any (· == s.length)
      else some (i == s.length)
  else some (i == s.length)

def scanFraction (s : Bytes) (i : Nat) : Option Bool :=
  if i < s.length then
    s[i]?.bind fun c =>
      if c = 0x2E then
        (scanDigits1 s (i + 1)).bind fun stop =>
          match stop with
          | none => some false
          | some i => scanExponent s i
      else scanExponent s i
  else scanExponent s i

def scanInteger (s : Bytes) (i : Nat) : Option Bool :=
  if s.length ≤ i then some false
  else
    s[i]?.bind fun c =>
      if c = 0x30 then scanFraction s (i + 1)
      else if 0x31 ≤ c.toNat ∧ c.toNat ≤ 0x39 then (scanDigits s i).bind fun i => scanFraction s i
      else some false

/-- `json_is_number_literal` by index; nothing where it would read outside.
-/
def scanNumberLiteral (s : Bytes) : Option Bool :=
  if s.length = 0 then some false
  else s[0]?.bind fun c => scanInteger s (if c = 0x2D then 1 else 0)

theorem drop_cons {s : Bytes} {i : Nat} (inside : i < s.length) : s.drop i = s[i] :: s.drop (i + 1) :=
  List.drop_eq_getElem_cons inside

theorem digitAt_inside {s : Bytes} {i : Nat} (inside : i < s.length) : digitAt s i = some (atDigit (s.drop i)) := by
  rw [digitAt, List.getElem?_eq_getElem inside, drop_cons inside]
  rfl

theorem skipDigits_cons (c : UInt8) (s : Bytes) :
    skipDigits (c :: s) = if IsDigit c then skipDigits s else c :: s := by
  by_cases digit : IsDigit c <;> simp [skipDigits, digit]

/-- The index and the rest of the string move together. -/
theorem scanDigits_spec (s : Bytes) (i : Nat) (inside : i ≤ s.length) :
    ∃ j, scanDigits s i = some j ∧ j ≤ s.length ∧ s.drop j = skipDigits (s.drop i) := by
  induction left : s.length - i generalizing i with
  | zero =>
    have stop : ¬ i < s.length := by omega
    have empty : s.drop i = [] := List.drop_eq_nil_of_le (by omega)
    exact ⟨i, by rw [scanDigits, if_neg stop], inside, by rw [empty]; rfl⟩
  | succ k ih =>
    have here : i < s.length := by omega
    obtain ⟨j, scanned, bound, rest⟩ := ih (i + 1) (by omega) (by omega)
    have first : atDigit (s[i] :: s.drop (i + 1)) = decide (IsDigit s[i]) := rfl
    rw [scanDigits, if_pos here, digitAt_inside here, Option.bind_some, drop_cons here, first, skipDigits_cons]
    by_cases digit : IsDigit s[i]
    · rw [if_pos (decide_eq_true digit), if_pos digit]
      exact ⟨j, scanned, bound, rest⟩
    · rw [if_neg (by simpa using digit), if_neg digit]
      exact ⟨i, rfl, inside, drop_cons here⟩

theorem scanDigits1_spec (s : Bytes) (i : Nat) (inside : i ≤ s.length) :
    (atDigit (s.drop i) = false ∧ scanDigits1 s i = some none) ∨
      (atDigit (s.drop i) = true ∧ ∃ j, scanDigits1 s i = some (some j) ∧ j ≤ s.length ∧
        s.drop j = skipDigits (s.drop i)) := by
  by_cases here : i < s.length
  · obtain ⟨j, scanned, bound, rest⟩ := scanDigits_spec s i inside
    rw [scanDigits1, if_neg (by omega), digitAt_inside here, Option.bind_some, scanned]
    cases digit : atDigit (s.drop i) with
    | false => exact Or.inl ⟨rfl, rfl⟩
    | true => exact Or.inr ⟨rfl, j, rfl, bound, rest⟩
  · have empty : s.drop i = [] := List.drop_eq_nil_of_le (by omega)
    exact Or.inl ⟨by rw [empty]; rfl, by rw [scanDigits1, if_pos (by omega)]⟩

theorem scanSign_spec (s : Bytes) (i : Nat) (inside : i ≤ s.length) :
    ∃ j, scanSign s i = some j ∧ j ≤ s.length ∧ s.drop j = skipSign (s.drop i) := by
  by_cases here : i < s.length
  · rw [scanSign, if_pos here, List.getElem?_eq_getElem here, drop_cons here, Option.map_some, skipSign]
    by_cases sign : s[i] = 0x2B ∨ s[i] = 0x2D
    · exact ⟨i + 1, by rw [if_pos sign], by omega, by rw [if_pos sign]⟩
    · exact ⟨i, by rw [if_neg sign], inside, by rw [if_neg sign, drop_cons here]⟩
  · have empty : s.drop i = [] := List.drop_eq_nil_of_le (by omega)
    exact ⟨i, by rw [scanSign, if_neg here], inside, by rw [empty]; rfl⟩

/-- `return i == n` -/
theorem atEnd_eq {s : Bytes} {i : Nat} (inside : i ≤ s.length) : (i == s.length) = (s.drop i).isEmpty := by
  rw [Bool.eq_iff_iff, beq_iff_eq, List.isEmpty_iff, List.drop_eq_nil_iff]
  omega

theorem scanExponent_spec (s : Bytes) (i : Nat) (inside : i ≤ s.length) :
    scanExponent s i = some (numberExponent (s.drop i)) := by
  by_cases here : i < s.length
  · rw [scanExponent, if_pos here, List.getElem?_eq_getElem here, Option.bind_some, drop_cons here, numberExponent]
    split_ifs with isE
    · obtain ⟨j, signed, bound, rest⟩ := scanSign_spec s (i + 1) (by omega)
      rw [signed, Option.bind_some, ← rest]
      rcases scanDigits1_spec s j bound with ⟨none, scanned⟩ | ⟨some, k, scanned, boundK, restK⟩
      · rw [scanned, none]
        rfl
      · rw [scanned, some, ← restK, ← atEnd_eq boundK]
        rfl
    · rw [beq_eq_false_iff_ne.mpr (by omega)]
  · have empty : s.drop i = [] := List.drop_eq_nil_of_le (by omega)
    rw [scanExponent, if_neg here, empty, beq_iff_eq.mpr (by omega)]
    rfl

theorem scanFraction_spec (s : Bytes) (i : Nat) (inside : i ≤ s.length) :
    scanFraction s i = some (numberFraction (s.drop i)) := by
  by_cases here : i < s.length
  · rw [scanFraction, if_pos here, List.getElem?_eq_getElem here, Option.bind_some, drop_cons here, numberFraction]
    split_ifs with isPoint
    · rcases scanDigits1_spec s (i + 1) (by omega) with ⟨none, scanned⟩ | ⟨some, k, scanned, bound, rest⟩
      · rw [scanned, none]
        rfl
      · rw [scanned, some, ← rest]
        exact scanExponent_spec s k bound
    · rw [scanExponent_spec s i inside, drop_cons here]
  · have empty : s.drop i = [] := List.drop_eq_nil_of_le (by omega)
    rw [scanFraction, if_neg here, scanExponent_spec s i inside, empty]
    rfl

theorem scanInteger_spec (s : Bytes) (i : Nat) (inside : i ≤ s.length) :
    scanInteger s i = some (numberInteger (s.drop i)) := by
  by_cases here : i < s.length
  · rw [scanInteger, if_neg (by omega), List.getElem?_eq_getElem here, Option.bind_some,
      drop_cons here, numberInteger]
    split_ifs
    · exact scanFraction_spec s (i + 1) (by omega)
    · obtain ⟨j, scanned, bound, rest⟩ := scanDigits_spec s i inside
      rw [scanned, Option.bind_some, scanFraction_spec s j bound, rest, drop_cons here]
    · rfl
  · have empty : s.drop i = [] := List.drop_eq_nil_of_le (by omega)
    rw [scanInteger, if_pos (by omega), empty]
    rfl

/-- The scan by index stays inside the string and decides what the stages on
the rest of the string decide. -/
theorem scanNumberLiteral_spec (s : Bytes) : scanNumberLiteral s = some (jsonIsNumberLiteral s) := by
  cases s with
  | nil => rfl
  | cons c s =>
    have first : (c :: s)[0]? = some c := rfl
    rw [scanNumberLiteral, if_neg (by simp), first, Option.bind_some, jsonIsNumberLiteral]
    split_ifs
    · exact scanInteger_spec (c :: s) 1 (by simp)
    · exact scanInteger_spec (c :: s) 0 (by simp)

theorem jsonIsNumberLiteral_refuses {s : Bytes} (other : ¬ Number s) : jsonIsNumberLiteral s = false := by
  by_contra accepted
  exact other ((jsonIsNumberLiteral_iff s).mp (by simpa using accepted))

theorem jsonQuote_longer (s : Bytes) : s.length < (jsonQuote s).length := by
  have kept : s.length ≤ (s.flatMap jsonEscape).length := by
    induction s with
    | nil => exact Nat.zero_le _
    | cons c s ih =>
      have one : 1 ≤ (jsonEscape c).length := List.length_pos_of_ne_nil (jsonEscape_ne_nil c)
      rw [List.flatMap_cons, List.length_append, List.length_cons]
      omega
  simp only [jsonQuote, List.length_cons, List.length_append, List.length_nil]
  omega

/-- The gate by index, `json value number` and the emitter agree on the
texts of the number grammar and on no others. -/
theorem jsonNumberGate (yy : Yyjson) (tcl : Tcl) (words : TclWords) (plainOnly : Bool) (s : Bytes) :
    (∃ accepted, scanNumberLiteral s = some accepted ∧ (accepted = true ↔ Number s)) ∧
      (∀ v, getString yy tcl v = s →
        ((∃ x, jsonValue yy tcl words [.str (ascii "number"), v] = .ok x ∧ x.node = .number s) ↔ Number s) ∧
          (¬ Number s → jsonValue yy tcl words [.str (ascii "number"), v] = .error jsonNotNumber)) ∧
      ∀ depth, depth < jsonMaxDepth →
        (jsonEmit yy plainOnly depth (.str s) = .ok s ↔ Number s) ∧
          (¬ Number s → jsonEmit yy plainOnly depth (.str s) = .ok (jsonQuote s)) := by
  refine ⟨⟨_, scanNumberLiteral_spec s, jsonIsNumberLiteral_iff s⟩, ?_, ?_⟩
  · rintro v rfl
    have call : jsonValue yy tcl words [.str (ascii "number"), v] = jsonValueOf yy tcl words .number v := rfl
    have refused : ¬ Number (getString yy tcl v) →
        jsonValue yy tcl words [.str (ascii "number"), v] = .error jsonNotNumber := by
      intro other
      rw [call, jsonValueOf, dif_neg (by rw [jsonIsNumberLiteral_refuses other]; decide)]
    refine ⟨⟨?_, fun number => ?_⟩, refused⟩
    · rintro ⟨x, accepted, -⟩
      by_contra other
      rw [refused other] at accepted
      cases accepted
    · have accepted := (jsonIsNumberLiteral_iff _).mpr number
      exact ⟨_, by rw [call, jsonValueOf, dif_pos accepted], rfl⟩
  · intro depth below
    have emitted : jsonEmit yy plainOnly depth (.str s) = .ok (if jsonIsNumberLiteral s then s else jsonQuote s) :=
      jsonCapped_ok.mpr ⟨below, rfl⟩
    have quoted : ¬ Number s → jsonEmit yy plainOnly depth (.str s) = .ok (jsonQuote s) := by
      intro other
      rw [emitted, jsonIsNumberLiteral_refuses other]
      rfl
    refine ⟨⟨fun bare => ?_, fun number => ?_⟩, quoted⟩
    · by_contra other
      rw [quoted other] at bare
      have same : (jsonQuote s).length = s.length := congrArg List.length (Except.ok.inj bare)
      have longer := jsonQuote_longer s
      omega
    · rw [emitted, if_pos ((jsonIsNumberLiteral_iff s).mpr number)]

end Machteld
