import Machteld.Child.Pumped
import Mathlib.Data.Nat.Bitwise

namespace Machteld

/-- The loop of `valid_utf8` over the bytes that a lead byte needs: nothing
where it reads outside of the string, otherwise the value where all go on.
-/
def utf8NeedLoop (s : Bytes) : Nat → Nat → Nat → Option (Option Nat)
  | 0, _, value => some (some value)
  | need + 1, i, value =>
    match s[i]? with
    | none => none
    | some d =>
      if d.toNat &&& 0xC0 ≠ 0x80 then some none else utf8NeedLoop s need (i + 1)
        ((value <<< 6) ||| (d.toNat &&& 0x3F))

/-- The lead bytes of `valid_utf8`: `need`, `min` and the first bits of
`value`. -/
def utf8LeadBits (c : Nat) : Option (Nat × Nat × Nat) :=
  if 0xC2 ≤ c ∧ c ≤ 0xDF then some (1, 0x80, c &&& 0x1F)
  else if 0xE0 ≤ c ∧ c ≤ 0xEF then some (2, 0x800, c &&& 0x0F)
  else if 0xF0 ≤ c ∧ c ≤ 0xF4 then some (3, 0x10000, c &&& 0x07)
  else none

/-- `valid_utf8` from an index on; nothing where it reads outside of the
string. -/
def utf8Loop (s : Bytes) (n i : Nat) : Option Bool :=
  if i < n then
    match s[i]? with
    | none => none
    | some c =>
      if c.toNat < 0x80 then utf8Loop s n (i + 1)
      else
        match utf8LeadBits c.toNat with
        | none => some false
        | some (need, least, bits) =>
          if n - (i + 1) < need then some false
          else
            match utf8NeedLoop s need (i + 1) bits with
            | none => none
            | some none => some false
            | some (some value) =>
              if value < least ∨ 0x10FFFF < value ∨ 0xD800 ≤ value ∧ value ≤ 0xDFFF then some false
              else utf8Loop s n (i + 1 + need)
  else some true
termination_by n - i

theorem utf8LeadBits_eq (c : Nat) : utf8LeadBits c = utf8Lead c := by
  unfold utf8LeadBits utf8Lead
  rw [Nat.and_two_pow_sub_one_eq_mod c 5, Nat.and_two_pow_sub_one_eq_mod c 4, Nat.and_two_pow_sub_one_eq_mod c 3]

theorem utf8Bits (value d : Nat) : (value <<< 6) ||| (d &&& 0x3F) = value * 0x40 + d % 0x40 := by
  rw [Nat.and_two_pow_sub_one_eq_mod d 6, ← Nat.shiftLeft_add_eq_or_of_lt (Nat.mod_lt _ (by decide)),
    Nat.shiftLeft_eq]

theorem utf8Marks : ((List.range 256).all fun d => (d &&& 0xC0 == 0x80) == (d / 0x40 == 2)) = true := by
  decide +kernel

theorem utf8Mark (d : UInt8) : d.toNat &&& 0xC0 = 0x80 ↔ d.toNat / 0x40 = 2 := by
  have same := List.all_eq_true.mp utf8Marks d.toNat (List.mem_range.mpr d.toNat_lt)
  rw [beq_iff_eq, Bool.eq_iff_iff, beq_iff_eq, beq_iff_eq] at same
  exact same

/-- Inside the string the loop over the bytes of a code point reads these.
-/
theorem utf8NeedLoop_eq {s : Bytes} {need i : Nat} (inside : i + need ≤ s.length) (value : Nat) :
    utf8NeedLoop s need i value = some (utf8Value value ((s.drop i).take need)) := by
  induction need generalizing i value with
  | zero => rw [utf8NeedLoop, List.take_zero, utf8Value]
  | succ need ih =>
    have below : i < s.length := by omega
    rw [utf8NeedLoop, List.getElem?_eq_getElem below, List.drop_eq_getElem_cons below,
      List.take_succ_cons, utf8Value]
    dsimp only
    by_cases goes : s[i].toNat / 0x40 = 2
    · rw [if_neg (not_not.mpr ((utf8Mark _).mpr goes)), if_pos goes, utf8Bits]
      exact ih (by omega) _
    · rw [if_pos (fun bad => goes ((utf8Mark _).mp bad)), if_neg goes]

/-- The loop of `valid_utf8` judges what is left of the string, and reads
nothing else. -/
theorem utf8Loop_eq {s : Bytes} {i : Nat} (inside : i ≤ s.length) :
    utf8Loop s s.length i = some (validUtf8 (s.drop i)) := by
  induction left : s.length - i using Nat.strongRecOn generalizing i with
  | ind k ih =>
    rw [utf8Loop]
    by_cases more : i < s.length
    · have rest : (s.drop (i + 1)).length = s.length - (i + 1) := List.length_drop
      rw [if_pos more, List.getElem?_eq_getElem more, List.drop_eq_getElem_cons more, validUtf8]
      dsimp only
      by_cases one : s[i].toNat < 0x80
      · rw [if_pos one, if_pos one]
        exact ih _ (by omega) more rfl
      · rw [if_neg one, if_neg one, utf8LeadBits_eq]
        cases lead : utf8Lead s[i].toNat with
        | none => rfl
        | some needed =>
          obtain ⟨need, least, bits⟩ := needed
          dsimp only
          rw [rest]
          by_cases cut : s.length - (i + 1) < need
          · rw [if_pos cut, if_pos cut]
          · rw [if_neg cut, if_neg cut, utf8NeedLoop_eq (by omega)]
            cases utf8Value bits ((s.drop (i + 1)).take need) with
            | none => rfl
            | some value =>
              dsimp only
              rw [List.drop_drop]
              split_ifs
              · rfl
              · exact ih _ (by omega) (by omega) rfl
    · rw [if_neg more, List.drop_eq_nil_of_le (by omega), validUtf8]

/-- `valid_utf8` reads nothing behind the length that it is given, and
accepts exactly the strings that are spellings of Unicode scalar values. -/
theorem utf8Loop_wellFormed (s : Bytes) :
    ∃ valid, utf8Loop s s.length 0 = some valid ∧ (valid = true ↔ Utf8.WellFormed s) := by
  refine ⟨validUtf8 s, utf8Loop_eq (Nat.zero_le _), validUtf8_iff s⟩

end Machteld
