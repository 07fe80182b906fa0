import Machteld.Utf8

namespace Machteld.Utf16

def IsHigh (u : UInt16) : Prop := 0xD800 ≤ u.toNat ∧ u.toNat < 0xDC00

def IsLow (u : UInt16) : Prop := 0xDC00 ≤ u.toNat ∧ u.toNat < 0xE000

instance (u : UInt16) : Decidable (IsHigh u) := inferInstanceAs (Decidable (_ ∧ _))

instance (u : UInt16) : Decidable (IsLow u) := inferInstanceAs (Decidable (_ ∧ _))

/-- The code points of a UTF-16 string, or nothing where a surrogate stands
alone. -/
def decode : List UInt16 → Option (List Nat)
  | [] => some []
  | [u] => if IsHigh u ∨ IsLow u then none else some [u.toNat]
  | u :: v :: rest =>
    if IsHigh u then
      if IsLow v then
        (decode rest).map fun cs => (0x10000 + (u.toNat - 0xD800) * 0x400 + (v.toNat - 0xDC00)) :: cs
      else none
    else if IsLow u then none
    else (decode (v :: rest)).map fun cs => u.toNat :: cs

/-- The units of a code point. -/
def units (c : Nat) : List UInt16 :=
  if c < 0x10000 then [UInt16.ofNat c]
  else [UInt16.ofNat (0xD800 + (c - 0x10000) / 0x400), UInt16.ofNat (0xDC00 + (c - 0x10000) % 0x400)]

theorem units_pair {u v : UInt16} (high : IsHigh u) (low : IsLow v) :
    units (0x10000 + (u.toNat - 0xD800) * 0x400 + (v.toNat - 0xDC00)) = [u, v] := by
  unfold IsHigh at high
  unfold IsLow at low
  have first : 0xD800 + (0x10000 + (u.toNat - 0xD800) * 0x400 + (v.toNat - 0xDC00) - 0x10000) / 0x400 = u.toNat :=
    by omega
  have second : 0xDC00 + (0x10000 + (u.toNat - 0xD800) * 0x400 + (v.toNat - 0xDC00) - 0x10000) %
    0x400 = v.toNat := by
    omega
  rw [units, if_neg (by omega), first, second, UInt16.ofNat_toNat, UInt16.ofNat_toNat]

theorem units_single (u : UInt16) : units u.toNat = [u] := by
  rw [units, if_pos u.toNat_lt, UInt16.ofNat_toNat]

/-- What is decoded is below the end of Unicode and spells the units. -/
theorem decode_some {w : List UInt16} {cs : List Nat} (decoded : decode w = some cs) :
    (∀ c ∈ cs, c < 0x110000) ∧ cs.flatMap units = w := by
  induction w using decode.induct generalizing cs with
  | case1 =>
    cases decoded
    exact ⟨List.forall_mem_nil _, rfl⟩
  | case2 u alone =>
    rw [decode, if_pos alone] at decoded
    cases decoded
  | case3 u single =>
    rw [decode, if_neg single] at decoded
    obtain rfl := Option.some.inj decoded
    have bound := u.toNat_lt
    refine ⟨List.forall_mem_singleton.mpr (by omega), ?_⟩
    rw [List.flatMap_singleton, units_single]
  | case4 u v rest high low ih =>
    rw [decode, if_pos high, if_pos low] at decoded
    obtain ⟨ds, read, rfl⟩ := Option.map_eq_some_iff.mp decoded
    obtain ⟨bound, spells⟩ := ih read
    have pair := units_pair high low
    unfold IsHigh at high
    unfold IsLow at low
    refine ⟨List.forall_mem_cons.mpr ⟨by omega, bound⟩, ?_⟩
    rw [List.flatMap_cons, pair, spells]
    rfl
  | case5 u v rest high low =>
    rw [decode, if_pos high, if_neg low] at decoded
    cases decoded
  | case6 u v rest high low =>
    rw [decode, if_neg high, if_pos low] at decoded
    cases decoded
  | case7 u v rest high low ih =>
    rw [decode, if_neg high, if_neg low] at decoded
    obtain ⟨ds, read, rfl⟩ := Option.map_eq_some_iff.mp decoded
    obtain ⟨bound, spells⟩ := ih read
    have small := u.toNat_lt
    refine ⟨List.forall_mem_cons.mpr ⟨by omega, bound⟩, ?_⟩
    rw [List.flatMap_cons, units_single, spells]
    rfl

theorem decode_injective {a b : List UInt16} {cs : List Nat} (left : decode a = some cs)
    (right : decode b = some cs) :
    a = b := (decode_some left).2.symm.trans (decode_some right).2

theorem decode_cons_single {u : UInt16} (single : ¬ (IsHigh u ∨ IsLow u)) (w : List UInt16) :
    decode (u :: w) = (decode w).map (u.toNat :: ·) := by
  obtain ⟨notHigh, notLow⟩ := not_or.mp single
  cases w with
  | nil => exact if_neg single
  | cons v w => rw [decode, if_neg notHigh, if_neg notLow]

theorem decode_append {a : List UInt16} {cs : List Nat} (decoded : decode a = some cs) (b : List UInt16) :
    decode (a ++ b) = (decode b).map (cs ++ ·) := by
  induction a using decode.induct generalizing cs with
  | case1 =>
    cases decoded
    exact Option.map_id'.symm
  | case2 u alone =>
    rw [decode, if_pos alone] at decoded
    cases decoded
  | case3 u single =>
    rw [decode, if_neg single] at decoded
    obtain rfl := Option.some.inj decoded
    exact decode_cons_single single b
  | case4 u v rest high low ih =>
    rw [decode, if_pos high, if_pos low] at decoded
    obtain ⟨ds, read, rfl⟩ := Option.map_eq_some_iff.mp decoded
    rw [List.cons_append, List.cons_append, decode, if_pos high, if_pos low, ih read, Option.map_map]
    rfl
  | case5 u v rest high low =>
    rw [decode, if_pos high, if_neg low] at decoded
    cases decoded
  | case6 u v rest high low =>
    rw [decode, if_neg high, if_pos low] at decoded
    cases decoded
  | case7 u v rest high low ih =>
    rw [decode, if_neg high, if_neg low] at decoded
    obtain ⟨ds, read, rfl⟩ := Option.map_eq_some_iff.mp decoded
    rw [List.cons_append, decode_cons_single (not_or.mpr ⟨high, low⟩), ih read, Option.map_map]
    rfl

theorem decode_units {n : Nat} (bound : n < 0x110000) (scalar : ¬ Utf8.IsSurrogate n) (w : List UInt16) :
    decode (units n ++ w) = (decode w).map (n :: ·) := by
  unfold Utf8.IsSurrogate at scalar
  unfold units
  split
  · rename_i small
    have value : (UInt16.ofNat n).toNat = n := by rw [UInt16.toNat_ofNat']; omega
    have single : ¬ (IsHigh (UInt16.ofNat n) ∨ IsLow (UInt16.ofNat n)) := by
      unfold IsHigh IsLow
      rw [value]
      omega
    rw [List.singleton_append, decode_cons_single single, value]
  · have first : (UInt16.ofNat (0xD800 + (n - 0x10000) / 0x400)).toNat = 0xD800 + (n - 0x10000) / 0x400 := by
      rw [UInt16.toNat_ofNat']
      omega
    have second : (UInt16.ofNat (0xDC00 + (n - 0x10000) % 0x400)).toNat = 0xDC00 + (n - 0x10000) % 0x400 := by
      rw [UInt16.toNat_ofNat']
      omega
    have high : IsHigh (UInt16.ofNat (0xD800 + (n - 0x10000) / 0x400)) := by
      unfold IsHigh
      omega
    have low : IsLow (UInt16.ofNat (0xDC00 + (n - 0x10000) % 0x400)) := by
      unfold IsLow
      omega
    rw [List.cons_append, List.singleton_append, decode, if_pos high, if_pos low, first, second]
    have value : 0x10000 + (0xD800 + (n - 0x10000) / 0x400 - 0xD800) * 0x400 +
        (0xDC00 + (n - 0x10000) % 0x400 - 0xDC00) = n := by omega
    rw [value]

/-- What is decoded is decoded on both sides of a unit of its own. -/
theorem decode_sides {u : UInt16} (single : ¬ (IsHigh u ∨ IsLow u)) {a b : List UInt16}
    (whole : (decode (a ++ u :: b)).isSome = true) : (decode a).isSome = true ∧ (decode b).isSome = true := by
  have plain : (decode (u :: b)).isSome = (decode b).isSome := by rw [decode_cons_single single, Option.isSome_map]
  induction a using decode.induct with
  | case1 => exact ⟨rfl, plain.symm.trans whole⟩
  | case2 x alone =>
    rw [List.singleton_append, decode] at whole
    rcases alone with high | low
    · rw [if_pos high, if_neg fun low => single (.inr low)] at whole
      cases whole
    · have notHigh : ¬ IsHigh x := by
        unfold IsHigh
        unfold IsLow at low
        omega
      rw [if_neg notHigh, if_pos low] at whole
      cases whole
  | case3 x alone =>
    rw [List.singleton_append, decode_cons_single alone, Option.isSome_map] at whole
    exact ⟨by rw [decode, if_neg alone]; rfl, plain.symm.trans whole⟩
  | case4 x y rest high low ih =>
    rw [List.cons_append, List.cons_append, decode, if_pos high, if_pos low, Option.isSome_map] at whole
    rw [decode, if_pos high, if_pos low, Option.isSome_map]
    exact ih whole
  | case5 x y rest high low =>
    rw [List.cons_append, List.cons_append, decode, if_pos high, if_neg low] at whole
    cases whole
  | case6 x y rest high low =>
    rw [List.cons_append, List.cons_append, decode, if_neg high, if_pos low] at whole
    cases whole
  | case7 x y rest high low ih =>
    rw [List.cons_append, decode_cons_single (not_or.mpr ⟨high, low⟩), Option.isSome_map] at whole
    rw [decode_cons_single (not_or.mpr ⟨high, low⟩), Option.isSome_map]
    exact ih whole

end Machteld.Utf16

namespace Machteld

/-- `mt_wide_to_utf8` with an explicit count; `malloc` tells whether there
is memory. -/
def mtWideToUtf8 (malloc : Bool) (wide : List UInt16) : Option Bytes :=
  if wide = [] ∨ malloc = false then none
  else (Utf16.decode wide).map fun cs => cs.flatMap Utf8.encode

end Machteld
