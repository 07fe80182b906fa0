import Machteld.Json.Value
import Machteld.Utf16
import Mathlib.Data.List.TakeWhile

namespace Machteld

namespace Utf8

/-- The UTF-16 units of a strictly read UTF-8 text; the number bounds the
steps. -/
def toUnits : Nat → Bytes → Option (List UInt16)
  | _, [] => some []
  | 0, _ :: _ => none
  | k + 1, a :: s =>
    match decodeOne (a :: s) with
    | some (n, rest) => if IsSurrogate n then none else (toUnits k rest).map fun units => Utf16.units n ++ units
    | none => none

end Utf8

/-- `mt_utf8_to_wide`; `malloc` tells whether there is memory. -/
def mtUtf8ToWide (malloc : Bool) (utf8 : Bytes) : Option (List UInt16) :=
  if malloc then Utf8.toUnits (cString utf8).length (cString utf8) else none

namespace Utf16

theorem units_ne_nil (n : Nat) : units n ≠ [] := by
  rw [units]
  split <;> exact List.cons_ne_nil _ _

/-- A unit below 0x80 is the code point itself. -/
theorem of_mem_units {n : Nat} {u : UInt16} (bound : n < 0x110000) (member : u ∈ units n) (small : u.toNat < 0x80) :
    n = u.toNat := by
  rw [units] at member
  split at member
  · rw [List.mem_singleton] at member
    subst member
    rw [UInt16.toNat_ofNat']
    omega
  · simp only [List.mem_cons, List.not_mem_nil, or_false] at member
    rcases member with rfl | rfl <;> rw [UInt16.toNat_ofNat'] at small <;> omega

end Utf16

namespace Utf8

/-- An ASCII unit of the result is a byte of the text. -/
theorem toUnits_ascii {k : Nat} {s : Bytes} {wide : List UInt16} (read : toUnits k s = some wide) {u : UInt16}
    (member : u ∈ wide) (small : u.toNat < 0x80) : UInt8.ofNat u.toNat ∈ s := by
  induction k generalizing s wide with
  | zero =>
    cases s with
    | nil =>
      cases read
      cases member
    | cons a s => cases read
  | succ k ih =>
    cases s with
    | nil =>
      cases read
      cases member
    | cons a s =>
      rw [toUnits] at read
      cases first : decodeOne (a :: s) with
      | none =>
        rw [first] at read
        cases read
      | some pair =>
        obtain ⟨n, rest⟩ := pair
        simp only [first] at read
        split at read
        · cases read
        · obtain ⟨units, later, rfl⟩ := Option.map_eq_some_iff.mp read
          obtain ⟨bound, spelled⟩ := encode_of_decodeOne first
          rw [spelled]
          rcases List.mem_append.mp member with here | there
          · have code := Utf16.of_mem_units bound here small
            subst code
            rw [encode_ascii small]
            exact List.mem_append_left _ List.mem_cons_self
          · exact List.mem_append_right _ (ih later there)

theorem toUnits_ne_nil {k : Nat} {s : Bytes} {wide : List UInt16} (read : toUnits k s = some wide)
    (nonempty : s ≠ []) :
    wide ≠ [] := by
  cases s with
  | nil => exact absurd rfl nonempty
  | cons a s =>
    cases k with
    | zero => cases read
    | succ k =>
      rw [toUnits] at read
      split at read
      · split at read
        · cases read
        · obtain ⟨units, _, rfl⟩ := Option.map_eq_some_iff.mp read
          exact List.append_ne_nil_of_left_ne_nil (Utf16.units_ne_nil _) _
      · cases read

theorem toUnits_decodes {k : Nat} {s : Bytes} {wide : List UInt16} (read : toUnits k s = some wide) :
    (Utf16.decode wide).isSome = true := by
  induction k generalizing s wide with
  | zero =>
    cases s with
    | nil =>
      cases read
      rfl
    | cons a s => cases read
  | succ k ih =>
    cases s with
    | nil =>
      cases read
      rfl
    | cons a s =>
      rw [toUnits] at read
      cases first : decodeOne (a :: s) with
      | none =>
        rw [first] at read
        cases read
      | some pair =>
        obtain ⟨n, rest⟩ := pair
        simp only [first] at read
        split at read
        · cases read
        · rename_i scalar
          obtain ⟨units, later, rfl⟩ := Option.map_eq_some_iff.mp read
          rw [Utf16.decode_units (encode_of_decodeOne first).1 scalar, Option.isSome_map]
          exact ih later

/-- The units are those of the code points that the text spells. -/
theorem toUnits_iff {k : Nat} {s : Bytes} (enough : s.length ≤ k) {wide : List UInt16} : toUnits k s = some wide ↔
    ∃ cs : List Nat, (∀ c ∈ cs, IsScalar c) ∧ s = cs.flatMap encode ∧ wide = cs.flatMap Utf16.units := by
  constructor
  · intro read
    induction k generalizing s wide with
    | zero =>
      obtain rfl := List.length_eq_zero_iff.mp (Nat.le_zero.mp enough)
      cases read
      exact ⟨[], List.forall_mem_nil _, rfl, rfl⟩
    | succ k ih =>
      cases s with
      | nil =>
        cases read
        exact ⟨[], List.forall_mem_nil _, rfl, rfl⟩
      | cons a s =>
        rw [toUnits] at read
        cases first : decodeOne (a :: s) with
        | none =>
          rw [first] at read
          cases read
        | some pair =>
          obtain ⟨n, rest⟩ := pair
          have shorter := length_of_decodeOne first
          rw [List.length_cons] at enough shorter
          simp only [first] at read
          split at read
          · cases read
          · rename_i single
            obtain ⟨units, later, rfl⟩ := Option.map_eq_some_iff.mp read
            obtain ⟨cs, scalars, rfl, rfl⟩ := ih (by omega) later
            obtain ⟨bound, spelled⟩ := encode_of_decodeOne first
            exact ⟨n :: cs, List.forall_mem_cons.mpr ⟨⟨bound, single⟩, scalars⟩, spelled, rfl⟩
  · rintro ⟨cs, scalars, rfl, rfl⟩
    induction cs generalizing k with
    | nil => cases k <;> rfl
    | cons c cs ih =>
      obtain ⟨scalar, later⟩ := List.forall_mem_cons.mp scalars
      rw [List.flatMap_cons, List.length_append] at enough
      have read := decodeOne_encode scalar.1 (cs.flatMap encode)
      rw [List.flatMap_cons, List.flatMap_cons]
      cases spelled : encode c with
      | nil => exact absurd spelled (encode_ne_nil c)
      | cons a tail =>
        rw [spelled, List.cons_append] at read
        rw [spelled, List.length_cons] at enough
        cases k with
        | zero => omega
        | succ k =>
          rw [List.cons_append, toUnits, read]
          dsimp only
          rw [if_neg scalar.2, ih later (by omega), Option.map_some]

end Utf8

theorem mtUtf8ToWide_eq_some {malloc : Bool} {utf8 : Bytes} {wide : List UInt16}
    (converted : mtUtf8ToWide malloc utf8 = some wide) :
    malloc = true ∧ Utf8.toUnits (cString utf8).length (cString utf8) = some wide := by
  rw [mtUtf8ToWide] at converted
  cases malloc with
  | false => cases converted
  | true => exact ⟨rfl, converted⟩

theorem mtUtf8ToWide_ascii {malloc : Bool} {utf8 : Bytes} {wide : List UInt16}
    (converted : mtUtf8ToWide malloc utf8 = some wide) {u : UInt16} (member : u ∈ wide) (small : u.toNat < 0x80) :
    UInt8.ofNat u.toNat ∈ utf8 :=
  List.takeWhile_subset _ (Utf8.toUnits_ascii (mtUtf8ToWide_eq_some converted).2 member small)

theorem mtUtf8ToWide_decodes {malloc : Bool} {utf8 : Bytes} {wide : List UInt16}
    (converted : mtUtf8ToWide malloc utf8 = some wide) : (Utf16.decode wide).isSome = true :=
  Utf8.toUnits_decodes (mtUtf8ToWide_eq_some converted).2

/-- There is no terminator inside the result. -/
theorem mtUtf8ToWide_noNul {malloc : Bool} {utf8 : Bytes} {wide : List UInt16}
    (converted : mtUtf8ToWide malloc utf8 = some wide) : 0 ∉ wide := by
  intro member
  have inside := Utf8.toUnits_ascii (mtUtf8ToWide_eq_some converted).2 member (by decide)
  exact absurd (List.mem_takeWhile_imp inside) (by decide)

end Machteld
