import Mathlib.Algebra.Group.Nat.Defs
import Mathlib.Data.List.Nodup
import Machteld.Utf8

namespace Machteld

theorem digit_byte {c : Char} (digit : c.isDigit) : (UInt8.ofNat c.toNat).toNat = c.toNat ∧ c.toNat < 0x80 := by
  have small : c.toNat ≤ '9'.toNat := (Char.isDigit_iff_toNat.mp digit).2
  have bound : c.toNat < 0x80 := Nat.lt_of_le_of_lt small (by decide)
  refine ⟨?_, bound⟩
  rw [UInt8.toNat_ofNat']
  omega

theorem decimal_ascii (n : Nat) : ∀ c ∈ decimal n, c.toNat < 0x80 := by
  intro c member
  obtain ⟨d, inside, rfl⟩ := List.mem_map.mp member
  have digit := digit_byte (Nat.isDigit_of_mem_toDigits (by decide) (by decide) inside)
  omega

theorem decimal_isDigit (n : Nat) : ∀ c ∈ decimal n, isDigit c = true := by
  intro c member
  obtain ⟨d, inside, rfl⟩ := List.mem_map.mp member
  have digit := Nat.isDigit_of_mem_toDigits (by decide) (by decide) inside
  have same := digit_byte digit
  have range := Char.isDigit_iff_toNat.mp digit
  simp only [isDigit, Bool.and_eq_true, decide_eq_true_eq, UInt8.le_iff_toNat_le, same.1]
  exact range

theorem decimal_ne_nil (n : Nat) : decimal n ≠ [] := by
  simp [decimal]

/-- The digits a decimal spelling was made of. -/
theorem decimal_digits (n : Nat) : (decimal n).map (fun c => Char.ofNat c.toNat) = Nat.toDigits 10 n := by
  have each : ∀ c ∈ Nat.toDigits 10 n, Char.ofNat (UInt8.ofNat c.toNat).toNat = id c := by
    intro c member
    have digit := digit_byte (Nat.isDigit_of_mem_toDigits (by decide) (by decide) member)
    rw [digit.1, Char.ofNat_toNat, id]
  rw [decimal, List.map_map]
  exact (List.map_congr_left each).trans (List.map_id _)

theorem decimal_injective {m n : Nat} (same : decimal m = decimal n) : m = n := by
  have digits : Nat.toDigits 10 m = Nat.toDigits 10 n := by
    rw [← decimal_digits, ← decimal_digits, same]
  have back := congrArg (Nat.ofDigitChars 10 · 0) digits
  simpa using back

/-- What `%d` writes of an `int` that has counted up to `n` from 0: it comes
round where there is no room left. -/
def decimalInt (n : Nat) : Bytes :=
  if n % 2 ^ 32 < 2 ^ 31 then decimal (n % 2 ^ 32) else 0x2D :: decimal (2 ^ 32 - n % 2 ^ 32)

theorem decimalInt_of_lt {n : Nat} (small : n < 2 ^ 31) : decimalInt n = decimal n := by
  have whole : n % 2 ^ 32 = n := Nat.mod_eq_of_lt (by omega)
  rw [decimalInt, whole, if_pos small]

/-- The token of the `n`th thing of a kind. -/
def handleToken (kind : String) (n : Nat) : Bytes := ascii kind ++ (0x23 :: decimalInt n)

/-- Before the counter comes round, no two have the same token. -/
theorem handleToken_injective {kind : String} {m n : Nat} (small : m < 2 ^ 31) (small' : n < 2 ^ 31)
    (same : handleToken kind m = handleToken kind n) : m = n := by
  have digits := (List.cons.inj (List.append_cancel_left same)).2
  rw [decimalInt_of_lt small, decimalInt_of_lt small'] at digits
  exact decimal_injective digits

/-- Of what was counted one by one, no two have the same token. -/
theorem handleTokens_nodup (kind : String) {numbers : List Nat} {counter : Nat} (small : counter < 2 ^ 31)
    (counted : ∀ n ∈ numbers, n ≤ counter) (distinct : numbers.Nodup) : (numbers.map (handleToken kind)).Nodup :=
  List.Nodup.map_on (fun m member n member' same => handleToken_injective
    (Nat.lt_of_le_of_lt (counted m member) small)
    (Nat.lt_of_le_of_lt (counted n member') small) same) distinct

end Machteld
