import Machteld.TclSpec
import Machteld.Units.Digits

namespace Machteld

/-- What may stand behind a number and what it multiplies it by. -/
structure Suffixes where
  spells : Bytes → Nat → Prop
  outside : ∀ rest factor, spells rest factor → rest.head?.any isDigit = false
  unique : ∀ rest factor other, spells rest factor → spells rest other → factor = other
  positive : ∀ rest factor, spells rest factor → 0 < factor
  safe : ∀ rest factor, spells rest factor → httpTextSafe rest false = true

/-- Digits, then one of the suffixes. -/
def Measured (t : Suffixes) (s : Bytes) (n : Nat) : Prop :=
  ∃ digits rest factor, DigitString digits ∧ t.spells rest factor ∧ s = digits ++ rest ∧
    n = digitsValue digits * factor

theorem durUnits_unique : ∀ u ∈ durUnits, ∀ v ∈ durUnits, u.1 = v.1 → u.2 = v.2 := by decide

theorem durUnits_each : ∀ u ∈ durUnits, u.1.head?.any isDigit = false ∧ 0 < u.2 ∧
    httpTextSafe u.1 false = true := by
  decide

/-- `ms`, `s`, `m` and `h` -/
def durationSuffixes : Suffixes where
  spells rest factor := (rest, factor) ∈ durUnits
  outside _ _ known := (durUnits_each _ known).1
  unique _ _ _ known also := durUnits_unique _ known _ also rfl
  positive _ _ known := (durUnits_each _ known).2.1
  safe _ _ known := (durUnits_each _ known).2.2

/-- The multiples of a size, in either case. -/
def sizeUnits : List (Bytes × Nat) :=
  [([], 1), (ascii "K", 1024), (ascii "k", 1024), (ascii "M", 1048576), (ascii "m", 1048576),
    (ascii "G", 1073741824), (ascii "g", 1073741824)]

/-- The `B` that may end a size. -/
def sizeMarks : List Bytes := [[], ascii "B", ascii "b"]

theorem sizeFactor_units : ∀ u ∈ sizeUnits, ∀ mark ∈ sizeMarks,
    skipB (sizeFactor (u.1 ++ mark)).2 = [] ∧ (sizeFactor (u.1 ++ mark)).1.toNat = u.2 := by
  decide

theorem sizeUnits_each : ∀ u ∈ sizeUnits, ∀ mark ∈ sizeMarks,
    (u.1 ++ mark).head?.any isDigit = false ∧ 0 < u.2 ∧ httpTextSafe (u.1 ++ mark) false = true := by
  decide

/-- A unit or none, and a `B` or none. -/
def SizeSuffix (rest : Bytes) (factor : Nat) : Prop :=
  ∃ unit mark, (unit, factor) ∈ sizeUnits ∧ mark ∈ sizeMarks ∧ rest = unit ++ mark

theorem skipB_nil {p : Bytes} : skipB p = [] ↔ p ∈ sizeMarks := by
  constructor
  · intro nothing
    match p with
    | [] => decide
    | c :: cs =>
      rw [skipB] at nothing
      split_ifs at nothing with mark
      obtain rfl := nothing
      rcases mark with rfl | rfl <;> decide
  · exact (by decide : ∀ p ∈ sizeMarks, skipB p = []) p

/-- The suffixes that the size parsers take are those of the table. -/
theorem sizeSuffix_iff {rest : Bytes} {factor : Nat} :
    SizeSuffix rest factor ↔ skipB (sizeFactor rest).2 = [] ∧ (sizeFactor rest).1.toNat = factor := by
  constructor
  · rintro ⟨unit, mark, known, marked, rfl⟩
    exact sizeFactor_units _ known _ marked
  · rintro ⟨nothing, rfl⟩
    rw [skipB_nil] at nothing
    match rest with
    | [] => exact ⟨[], [], by decide, by decide, rfl⟩
    | c :: cs =>
      rw [sizeFactor] at nothing ⊢
      split_ifs at nothing ⊢ with kilo mega giga
      · rcases kilo with rfl | rfl
        · exact ⟨ascii "K", cs, (by decide : (ascii "K", 1024) ∈ sizeUnits), nothing, rfl⟩
        · exact ⟨ascii "k", cs, (by decide : (ascii "k", 1024) ∈ sizeUnits), nothing, rfl⟩
      · rcases mega with rfl | rfl
        · exact ⟨ascii "M", cs, (by decide : (ascii "M", 1048576) ∈ sizeUnits), nothing, rfl⟩
        · exact ⟨ascii "m", cs, (by decide : (ascii "m", 1048576) ∈ sizeUnits), nothing, rfl⟩
      · rcases giga with rfl | rfl
        · exact ⟨ascii "G", cs, (by decide : (ascii "G", 1073741824) ∈ sizeUnits), nothing, rfl⟩
        · exact ⟨ascii "g", cs, (by decide : (ascii "g", 1073741824) ∈ sizeUnits), nothing, rfl⟩
      · exact ⟨[], c :: cs, (by decide : ([], 1) ∈ sizeUnits), nothing, rfl⟩

def sizeSuffixes : Suffixes where
  spells := SizeSuffix
  outside _ _ spelled := by
    obtain ⟨unit, mark, known, marked, rfl⟩ := spelled
    exact (sizeUnits_each _ known _ marked).1
  unique _ _ _ spelled also := by
    rw [sizeSuffix_iff] at spelled also
    exact spelled.2.symm.trans also.2
  positive _ _ spelled := by
    obtain ⟨unit, mark, known, marked, rfl⟩ := spelled
    exact (sizeUnits_each _ known _ marked).2.1
  safe _ _ spelled := by
    obtain ⟨unit, mark, known, marked, rfl⟩ := spelled
    exact (sizeUnits_each _ known _ marked).2.2

/-- A number with an explicit unit, in milliseconds. -/
abbrev Duration (s : Bytes) (n : Nat) : Prop := Measured durationSuffixes s n

/-- A number of bytes. -/
abbrev Size (s : Bytes) (n : Nat) : Prop := Measured sizeSuffixes s n

/-- A measure is its leading digits times the factor of its suffix. -/
theorem measured_iff {t : Suffixes} {s : Bytes} {n : Nat} :
    Measured t s n ↔ s.takeWhile isDigit ≠ [] ∧
      ∃ factor, t.spells (s.dropWhile isDigit) factor ∧ n = digitsValue (s.takeWhile isDigit) * factor := by
  constructor
  · rintro ⟨digits, rest, factor, ⟨nonempty, all⟩, spelled, rfl, rfl⟩
    obtain ⟨taken, dropped⟩ := takeWhile_append_stop all (t.outside _ _ spelled)
    rw [taken, dropped]
    exact ⟨nonempty, factor, spelled, rfl⟩
  · rintro ⟨nonempty, factor, spelled, rfl⟩
    exact ⟨_, _, factor, ⟨nonempty, fun c member => List.mem_takeWhile_imp member⟩, spelled,
      (List.takeWhile_append_dropWhile).symm, rfl⟩

theorem Measured.unique {t : Suffixes} {s : Bytes} {m n : Nat} (left : Measured t s m) (right : Measured t s n) :
    m = n := by
  obtain ⟨_, factor, spelled, rfl⟩ := measured_iff.mp left
  obtain ⟨_, other, also, rfl⟩ := measured_iff.mp right
  rw [t.unique _ _ _ spelled also]

/-- Digits and suffixes pass HTTP's test of a text. -/
theorem Measured.safe {t : Suffixes} {s : Bytes} {n : Nat} (measured : Measured t s n) :
    httpTextSafe s false = true := by
  obtain ⟨digits, rest, factor, ⟨_, all⟩, spelled, rfl, _⟩ := measured
  have suffix := t.safe _ _ spelled
  have digit : httpTextSafe digits false = true := by
    simp only [httpTextSafe, Bool.and_false, Bool.not_false, Bool.true_and, Bool.false_and, Bool.and_true,
      List.all_eq_true]
    intro c member
    have bounds := isDigit_iff.mp (all c member)
    simp only [Bool.not_eq_true', Bool.or_eq_false_iff, beq_eq_false_iff_ne]
    refine ⟨⟨?_, ?_⟩, ?_⟩ <;> (rintro rfl; revert bounds; decide)
  simp only [httpTextSafe, Bool.and_false, Bool.not_false, Bool.true_and] at suffix digit ⊢
  rw [List.all_append, digit, suffix]
  rfl

theorem httpTextSafe_noNul {s : Bytes} (safe : httpTextSafe s false = true) : 0 ∉ s := by
  intro inside
  rw [httpTextSafe, Bool.and_eq_true, List.all_eq_true] at safe
  exact absurd (safe.2 0 inside) (by decide)

theorem Measured.noNul {t : Suffixes} {s : Bytes} {n : Nat} (measured : Measured t s n) : 0 ∉ s :=
  httpTextSafe_noNul measured.safe

/-- A reader that refuses strings with a zero byte and otherwise reads the C
string. -/
theorem nulRefused_iff {t : Suffixes} {s : Bytes} {β : Type} {e : TclError} {r : Except TclError β} {v : β}
    {good : Nat → Prop}
    (read : 0 ∉ s → (r = .ok v ↔ ∃ n, Measured t s n ∧ good n)) :
    (if 0 ∈ s then .error e else r) = .ok v ↔ ∃ n, Measured t s n ∧ good n := by
  split_ifs with nul
  · exact iff_of_false nofun fun ⟨n, measured, _⟩ => measured.noNul nul
  · exact read nul

theorem head_digit_iff {s : Bytes} : s.head?.any isDigit = true ↔ s.takeWhile isDigit ≠ [] := by
  cases s with
  | nil => simp
  | cons c cs => by_cases digit : isDigit c = true <;> simp [digit]

theorem llongFull_exact (v d : UInt64) (_ : v.toNat ≤ 9223372036854775807) (digit : d.toNat ≤ 9) :
    llongFull v d = true ↔ 9223372036854775807 < 10 * v.toNat + d.toNat := by
  have quotient : (longLongMax / 10).toNat = 922337203685477580 := rfl
  have remainder : (longLongMax % 10).toNat = 7 := rfl
  rw [llongFull, Bool.or_eq_true, Bool.and_eq_true, decide_eq_true_iff, decide_eq_true_iff, beq_iff_eq,
    UInt64.lt_iff_toNat_lt, UInt64.lt_iff_toNat_lt, ← UInt64.toNat_inj, quotient, remainder]
  omega

theorem ullongFull_exact (v d : UInt64) (_ : v.toNat ≤ 18446744073709551615) (digit : d.toNat ≤ 9) :
    ullongFull v d = true ↔ 18446744073709551615 < 10 * v.toNat + d.toNat := by
  have small : d ≤ ulongLongMax := UInt64.le_iff_toNat_le.mpr (Nat.le_trans digit (by decide))
  have top : ulongLongMax.toNat = 18446744073709551615 := rfl
  have ten : (10 : UInt64).toNat = 10 := rfl
  rw [ullongFull, decide_eq_true_iff, UInt64.lt_iff_toNat_lt, UInt64.toNat_div,
    UInt64.toNat_sub_of_le _ _ small, top, ten]
  omega

theorem toInt64_toInt {v : UInt64} (signed : v.toNat ≤ 9223372036854775807) : v.toInt64.toInt = v.toNat := by
  rw [← Int64.toInt_toBitVec, UInt64.toBitVec_toInt64, BitVec.toInt_eq_toNat_of_lt]
  · rfl
  · have same : v.toBitVec.toNat = v.toNat := rfl
    omega

theorem takeDigits_llong {s : Bytes} {v : UInt64} {p : Bytes} :
    takeDigits llongFull 0 s = some (v, p) ↔
      v.toNat = digitsValue (s.takeWhile isDigit) ∧ v.toNat ≤ 9223372036854775807 ∧ p = s.dropWhile isDigit :=
  takeDigits_iff (by decide) llongFull_exact (by decide)

theorem takeDigits_ullong {s : Bytes} {v : UInt64} {p : Bytes} :
    takeDigits ullongFull 0 s = some (v, p) ↔
      v.toNat = digitsValue (s.takeWhile isDigit) ∧ v.toNat ≤ 18446744073709551615 ∧ p = s.dropWhile isDigit :=
  takeDigits_iff (by decide) ullongFull_exact (by decide)

/-- The division that stands for the product. -/
theorem scaled {v mul limit : UInt64} (positive : 0 < mul.toNat) :
    (limit / mul < v ↔ limit.toNat < v.toNat * mul.toNat) ∧
      (v.toNat * mul.toNat ≤ limit.toNat → (v * mul).toNat = v.toNat * mul.toNat) := by
  constructor
  · rw [UInt64.lt_iff_toNat_lt, UInt64.toNat_div, Nat.div_lt_iff_lt_mul positive]
  · intro fits
    rw [UInt64.toNat_mul]
    exact Nat.mod_eq_of_lt (Nat.lt_of_le_of_lt fits limit.toNat_lt)

/-- What a reader with digit bound `top` and limit `limit` owes: it refuses,
or it returns the number. -/
theorem measured_scaled {t : Suffixes} {s : Bytes} (digits : s.takeWhile isDigit ≠ []) {v mul limit : UInt64}
    (value : v.toNat = digitsValue (s.takeWhile isDigit)) (spelled : t.spells (s.dropWhile isDigit) mul.toNat) :
    (limit / mul < v → ∀ n, Measured t s n → limit.toNat < n) ∧
      (¬ limit / mul < v → Measured t s (v * mul).toNat ∧ (v * mul).toNat ≤ limit.toNat) := by
  obtain ⟨test, product⟩ := @scaled v mul limit (t.positive _ _ spelled)
  have whole : Measured t s (v.toNat * mul.toNat) := measured_iff.mpr ⟨digits, mul.toNat, spelled, by rw [value]⟩
  constructor
  · intro beyond n measured
    rw [measured.unique whole]
    exact test.mp beyond
  · intro within
    have fits := Nat.not_lt.mp (mt test.mpr within)
    rw [product fits]
    exact ⟨whole, fits⟩

theorem measured_large {t : Suffixes} {s : Bytes} {bound n : Nat}
    (large : bound < digitsValue (s.takeWhile isDigit))
    (measured : Measured t s n) : bound < n := by
  obtain ⟨_, factor, spelled, rfl⟩ := measured_iff.mp measured
  exact Nat.lt_of_lt_of_le large (Nat.le_mul_of_pos_right _ (t.positive _ _ spelled))

/-- The C table of units and the specification's have the same entries. -/
theorem durationUnit_iff {p : Bytes} {mul : UInt64} : durationUnit p = some mul ↔ (p, mul.toNat) ∈ durUnits := by
  constructor
  · intro known
    unfold durationUnit at known
    split_ifs at known with ms s m h <;> obtain rfl := Option.some.inj known
    · rw [ms]
      decide
    · rw [s]
      decide
    · rw [m]
      decide
    · rw [h]
      decide
  · intro member
    have known : ∀ u ∈ durUnits, durationUnit u.1 = some (UInt64.ofNat u.2) := by decide
    rw [known _ member, UInt64.ofNat_toNat]

/-- `parse_duration_ms` before the limit of a caller. -/
theorem parseDurationMs_cases (s : Bytes) :
    (parseDurationMs s = -1 ∧ ∀ n, Duration s n → 9223372036854775807 < n) ∨
      ∃ v : UInt64, parseDurationMs s = v.toInt64 ∧ Duration s v.toNat ∧ v.toNat ≤ 9223372036854775807 := by
  unfold parseDurationMs
  split_ifs with digit
  · rw [head_digit_iff] at digit
    cases read : takeDigits llongFull 0 s with
    | none =>
      rw [takeDigits_none (by decide) llongFull_exact (by decide)] at read
      exact .inl ⟨rfl, fun n measured => measured_large read measured⟩
    | some pair =>
      obtain ⟨v, p⟩ := pair
      obtain ⟨value, _, rfl⟩ := takeDigits_llong.mp read
      simp only
      cases unit : durationUnit (s.dropWhile isDigit) with
      | none =>
        refine .inl ⟨rfl, fun n measured => ?_⟩
        obtain ⟨_, factor, spelled, _⟩ := measured_iff.mp measured
        have known : ∀ u ∈ durUnits, durationUnit u.1 ≠ none := by decide
        exact absurd unit (known _ spelled)
      | some mul =>
        obtain ⟨beyond, within⟩ := @measured_scaled durationSuffixes s digit v mul longLongMax value
          (durationUnit_iff.mp unit)
        simp only
        split_ifs with test
        · exact .inl ⟨rfl, beyond test⟩
        · exact .inr ⟨_, rfl, within test⟩
  · refine .inl ⟨rfl, fun n measured => ?_⟩
    exact absurd (head_digit_iff.mpr (measured_iff.mp measured).1) digit

/-- `-1` for what is no size or does not fit into 63 bits, and the size
otherwise. So the callers may test for a negative value alone. -/
theorem parseBytes_cases (s : Bytes) :
    (parseBytes s = -1 ∧ ∀ n, Size s n → 9223372036854775807 < n) ∨
      ∃ v : UInt64, parseBytes s = v.toInt64 ∧ Size s v.toNat ∧ v.toNat ≤ 9223372036854775807 := by
  unfold parseBytes
  split_ifs with digit
  · rw [head_digit_iff] at digit
    cases read : takeDigits llongFull 0 s with
    | none =>
      rw [takeDigits_none (by decide) llongFull_exact (by decide)] at read
      exact .inl ⟨rfl, fun n measured => measured_large read measured⟩
    | some pair =>
      obtain ⟨v, p⟩ := pair
      obtain ⟨value, _, rfl⟩ := takeDigits_llong.mp read
      simp only
      by_cases ends : skipB (sizeFactor (s.dropWhile isDigit)).2 = []
      · have spelled : SizeSuffix (s.dropWhile isDigit) (sizeFactor (s.dropWhile isDigit)).1.toNat :=
          sizeSuffix_iff.mpr ⟨ends, rfl⟩
        obtain ⟨beyond, within⟩ := @measured_scaled sizeSuffixes s digit v _ longLongMax value spelled
        split_ifs with test
        · exact .inl ⟨rfl, beyond (test.resolve_left (not_not.mpr ends))⟩
        · exact .inr ⟨_, rfl, within (not_or.mp test).2⟩
      · refine .inl ⟨if_pos (.inl ends), fun n measured => ?_⟩
        obtain ⟨_, factor, spelled, _⟩ := measured_iff.mp measured
        exact absurd (sizeSuffix_iff.mp spelled).1 ends
  · refine .inl ⟨rfl, fun n measured => ?_⟩
    exact absurd (head_digit_iff.mpr (measured_iff.mp measured).1) digit

theorem negative_iff {ms : Int64} : ms < 0 ↔ ms.toInt < 0 := by
  rw [Int64.lt_iff_toInt_lt]
  rfl

theorem natural_of_toInt {ms : Int64} {v : UInt64} (signed : v.toNat ≤ 9223372036854775807) :
    ms.toInt = v.toNat ↔ ms = v.toInt64 := by
  rw [← toInt64_toInt signed, Int64.toInt_inj]

/-- The limit of the callers that wait. -/
theorem finiteWait_iff (e : TclError) {s : Bytes} {ms : Int64} :
    finiteWait e (parseDurationMs s) = .ok ms ↔ ∃ n, Duration s n ∧ n ≤ 4294967294 ∧ ms.toInt = n := by
  rcases parseDurationMs_cases s with ⟨refused, large⟩ | ⟨v, parsed, measured, signed⟩
  · have negative : (-1 : Int64) < 0 := by decide
    rw [refused, finiteWait, if_pos (.inl negative)]
    refine iff_of_false nofun ?_
    rintro ⟨n, known, small, _⟩
    have beyond := large n known
    omega
  · have natural : ¬ v.toInt64 < 0 := by
      rw [negative_iff, toInt64_toInt signed]
      omega
    have top : wjInfinite.toNat = 4294967295 := rfl
    have test : wjInfinite ≤ v ↔ 4294967294 < v.toNat := by
      rw [UInt64.le_iff_toNat_le, top]
      omega
    rw [parsed, finiteWait, UInt64.toUInt64_toInt64]
    simp only [natural, test, false_or]
    split_ifs with beyond
    · refine iff_of_false nofun ?_
      rintro ⟨n, known, small, _⟩
      rw [known.unique measured] at small
      omega
    · constructor
      · intro same
        obtain rfl := Except.ok.inj same
        exact ⟨v.toNat, measured, by omega, toInt64_toInt signed⟩
      · rintro ⟨n, known, _, same⟩
        rw [known.unique measured, natural_of_toInt signed] at same
        rw [same]

theorem optTimeout_iff {dom : String} {s : Bytes} {ms : Int64} :
    optTimeout dom s = .ok ms ↔ ∃ n, Duration s n ∧ n ≤ 4294967294 ∧ ms.toInt = n := by
  refine nulRefused_iff fun noNul => ?_
  rw [cString_itself noNul]
  exact finiteWait_iff _

/-- The `-timeout` options that are read without a look at zero bytes. -/
def waitCallers : List (Bytes → Except TclError Int64) := [childWaitTimeout, ptyReadTimeout, watchNextTimeout]

/-- The three callers of the wait parser take the durations of what comes
before a zero byte. -/
theorem waitCallers_iff {s : Bytes} :
    ∀ caller ∈ waitCallers, ∀ ms, caller s = .ok ms ↔ ∃ n, Duration (cString s) n ∧ n ≤ 4294967294 ∧
      ms.toInt = n := by
  intro caller member ms
  simp only [waitCallers, List.mem_cons, List.not_mem_nil, or_false] at member
  rcases member with rfl | rfl | rfl
  · rw [childWaitTimeout, finiteWait_iff]
  · rw [ptyReadTimeout, finiteWait_iff]
  · rw [watchNextTimeout, finiteWait_iff]

/-- A CPU limit is a duration, in units of 100 nanoseconds, below the bound
that keeps its product in range. -/
theorem optCpu_iff {dom : String} {s : Bytes} {t : UInt64} :
    optCpu dom s = .ok t ↔ ∃ n, Duration s n ∧ n ≤ 922337203685477 ∧ t.toNat = n * 10000 := by
  refine nulRefused_iff fun noNul => ?_
  rw [cString_itself noNul]
  rcases parseDurationMs_cases s with ⟨refused, large⟩ | ⟨v, parsed, measured, signed⟩
  · have negative : (-1 : Int64) < 0 := by decide
    simp only [refused, negative, true_or, if_true]
    refine iff_of_false nofun ?_
    rintro ⟨n, known, small, _⟩
    have beyond := large n known
    omega
  · have natural : ¬ v.toInt64 < 0 := by
      rw [negative_iff, toInt64_toInt signed]
      omega
    have top : (longLongMax / 10000).toNat = 922337203685477 := rfl
    have ten : (10000 : UInt64).toNat = 10000 := rfl
    have test : longLongMax / 10000 < v ↔ 922337203685477 < v.toNat := by rw [UInt64.lt_iff_toNat_lt, top]
    simp only [parsed, UInt64.toUInt64_toInt64, natural, test, false_or]
    split_ifs with beyond
    · refine iff_of_false nofun ?_
      rintro ⟨n, known, small, _⟩
      rw [known.unique measured] at small
      omega
    · have product : (v * 10000).toNat = v.toNat * 10000 := by
        rw [UInt64.toNat_mul, ten]
        omega
      constructor
      · intro same
        obtain rfl := Except.ok.inj same
        exact ⟨v.toNat, measured, by omega, product⟩
      · rintro ⟨n, known, _, same⟩
        rw [known.unique measured, ← product, UInt64.toNat_inj] at same
        rw [same]

/-- A memory limit is a size below 2^63. -/
theorem optMem_iff {dom : String} {s : Bytes} {b : UInt64} :
    optMem dom s = .ok b ↔ ∃ n, Size s n ∧ n ≤ 9223372036854775807 ∧ b.toNat = n := by
  refine nulRefused_iff fun noNul => ?_
  rw [cString_itself noNul]
  rcases parseBytes_cases s with ⟨refused, large⟩ | ⟨v, parsed, measured, signed⟩
  · have negative : (-1 : Int64) < 0 := by decide
    simp only [refused, negative, if_true]
    refine iff_of_false nofun ?_
    rintro ⟨n, known, small, _⟩
    have beyond := large n known
    omega
  · have natural : ¬ v.toInt64 < 0 := by
      rw [negative_iff, toInt64_toInt signed]
      omega
    simp only [parsed, natural, if_false, UInt64.toUInt64_toInt64]
    constructor
    · intro same
      obtain rfl := Except.ok.inj same
      exact ⟨v.toNat, measured, signed, rfl⟩
    · rintro ⟨n, known, _, same⟩
      rw [known.unique measured, UInt64.toNat_inj] at same
      rw [same]

/-- `http_u64` and the range of its callers. -/
theorem httpRange {t : Suffixes} {s : Bytes} (digits : s.takeWhile isDigit ≠ []) {v mul limit : UInt64}
    (value : v.toNat = digitsValue (s.takeWhile isDigit)) (spelled : t.spells (s.dropWhile isDigit) mul.toNat)
    (signed : limit.toNat ≤ 9223372036854775807) {e : TclError} {ms : Int64} :
    (if v = 0 ∨ limit / mul < v then Except.error e else .ok (v * mul).toInt64) = .ok ms ↔
      ∃ n, Measured t s n ∧ 1 ≤ n ∧ n ≤ limit.toNat ∧ ms.toInt = n := by
  have positive := t.positive _ _ spelled
  have whole : Measured t s (v.toNat * mul.toNat) := measured_iff.mpr ⟨digits, mul.toNat, spelled, by rw [value]⟩
  obtain ⟨test, product⟩ := @scaled v mul limit positive
  have zero : v = 0 ↔ v.toNat = 0 := UInt64.toNat_inj.symm
  split_ifs with out
  · refine iff_of_false nofun ?_
    rintro ⟨n, known, least, most, _⟩
    rw [known.unique whole] at least most
    rcases out with none | beyond
    · rw [zero.mp none] at least
      omega
    · have excess := test.mp beyond
      omega
  · obtain ⟨some', within⟩ := not_or.mp out
    have fits := Nat.not_lt.mp (mt test.mpr within)
    have least : 0 < v.toNat * mul.toNat := Nat.mul_pos (Nat.pos_of_ne_zero (mt zero.mpr some')) positive
    have number := product fits
    constructor
    · intro same
      obtain rfl := Except.ok.inj same
      exact ⟨_, whole, least, fits, by rw [toInt64_toInt (by omega), number]⟩
    · rintro ⟨n, known, _, _, same⟩
      rw [known.unique whole, ← number, natural_of_toInt (by omega)] at same
      rw [same]

/-- HTTP's durations are positive and fit into 31 bits. -/
theorem httpDuration_iff {s : Bytes} {ms : Int64} :
    httpDuration s = .ok ms ↔ ∃ n, Duration s n ∧ 1 ≤ n ∧ n ≤ 2147483647 ∧ ms.toInt = n := by
  rw [httpDuration]
  by_cases safe : httpTextSafe s false = true
  · rw [if_pos safe, cString_itself (httpTextSafe_noNul safe), httpU64]
    split_ifs with digit
    · rw [head_digit_iff] at digit
      cases read : takeDigits ullongFull 0 s with
      | none =>
        rw [takeDigits_none (by decide) ullongFull_exact (by decide)] at read
        refine iff_of_false nofun ?_
        rintro ⟨n, known, _, small, _⟩
        have beyond := measured_large read known
        omega
      | some pair =>
        obtain ⟨v, p⟩ := pair
        obtain ⟨value, _, rfl⟩ := takeDigits_ullong.mp read
        simp only
        cases unit : durationUnit (s.dropWhile isDigit) with
        | none =>
          refine iff_of_false nofun ?_
          rintro ⟨n, measured, _⟩
          obtain ⟨_, factor, spelled, _⟩ := measured_iff.mp measured
          have known : ∀ u ∈ durUnits, durationUnit u.1 ≠ none := by decide
          exact absurd unit (known _ spelled)
        | some mul =>
          exact @httpRange durationSuffixes s digit v mul intMax value (durationUnit_iff.mp unit) (by decide) _ ms
    · refine iff_of_false nofun ?_
      rintro ⟨n, measured, _⟩
      exact absurd (head_digit_iff.mpr (measured_iff.mp measured).1) digit
  · rw [if_neg safe]
    refine iff_of_false nofun ?_
    rintro ⟨n, measured, _⟩
    exact absurd measured.safe safe

/-- HTTP's sizes are positive. -/
theorem httpSize_iff {s : Bytes} {b : Int64} :
    httpSize s = .ok b ↔ ∃ n, Size s n ∧ 1 ≤ n ∧ n ≤ 9223372036854775807 ∧ b.toInt = n := by
  rw [httpSize]
  by_cases safe : httpTextSafe s false = true
  · rw [if_pos safe, cString_itself (httpTextSafe_noNul safe), httpU64]
    split_ifs with digit
    · rw [head_digit_iff] at digit
      cases read : takeDigits ullongFull 0 s with
      | none =>
        rw [takeDigits_none (by decide) ullongFull_exact (by decide)] at read
        refine iff_of_false nofun ?_
        rintro ⟨n, known, _, small, _⟩
        have beyond := measured_large read known
        omega
      | some pair =>
        obtain ⟨v, p⟩ := pair
        obtain ⟨value, _, rfl⟩ := takeDigits_ullong.mp read
        simp only
        by_cases ends : skipB (sizeFactor (s.dropWhile isDigit)).2 = []
        · have spelled : SizeSuffix (s.dropWhile isDigit) (sizeFactor (s.dropWhile isDigit)).1.toNat :=
            sizeSuffix_iff.mpr ⟨ends, rfl⟩
          have open' : ¬ skipB (sizeFactor (s.dropWhile isDigit)).2 ≠ [] := not_not.mpr ends
          simp only [open', false_or]
          exact @httpRange sizeSuffixes s digit v _ tclSizeMax value spelled (by decide) _ b
        · rw [if_pos (.inl ends)]
          refine iff_of_false nofun ?_
          rintro ⟨n, measured, _⟩
          obtain ⟨_, factor, spelled, _⟩ := measured_iff.mp measured
          exact absurd (sizeSuffix_iff.mp spelled).1 ends
    · refine iff_of_false nofun ?_
      rintro ⟨n, measured, _⟩
      exact absurd (head_digit_iff.mpr (measured_iff.mp measured).1) digit
  · rw [if_neg safe]
    refine iff_of_false nofun ?_
    rintro ⟨n, measured, _⟩
    exact absurd measured.safe safe

theorem durUnits_limit : ∀ u ∈ durUnits, Canonical (decimal (durMaximum / u.2)) ∧
    digitsValue (decimal (durMaximum / u.2)) = durMaximum / u.2 := by
  decide

/-- The duration of a script is that of the C callers. -/
theorem dur2ms_iff {dom : String} {s : Bytes} {n : Nat} :
    dur2ms dom s = .ok n ↔ Duration s n ∧ n ≤ 4294967294 := by
  rw [Duration, measured_iff, dur2ms]
  simp only
  by_cases empty : s.takeWhile isDigit = []
  · rw [if_pos empty]
    exact iff_of_false Except.error_ne_ok fun both => both.1.1 empty
  · rw [if_neg empty]
    cases unit : dictGet (s.dropWhile isDigit) durUnits with
    | none =>
      refine iff_of_false Except.error_ne_ok ?_
      rintro ⟨⟨_, factor, spelled, _⟩, _⟩
      have known : ∀ u ∈ durUnits, dictGet u.1 durUnits ≠ none := by decide
      exact absurd unit (known _ spelled)
    | some factor =>
      have spelled := mem_of_dictGet unit
      have all : ∀ c ∈ s.takeWhile isDigit, isDigit c = true := fun c member => List.mem_takeWhile_imp member
      obtain ⟨normal, value⟩ := canonical_trim all rfl
      obtain ⟨limit, limitValue⟩ := durUnits_limit _ spelled
      have exceeds := normal.exceeds_iff limit
      rw [value, limitValue] at exceeds
      have positive : 0 < factor := durationSuffixes.positive _ _ spelled
      have range : durMaximum / factor < digitsValue (s.takeWhile isDigit) ↔
          durMaximum < digitsValue (s.takeWhile isDigit) * factor := Nat.div_lt_iff_lt_mul positive
      have whole : durMaximum = 4294967294 := rfl
      rw [whole] at range
      by_cases beyond : 4294967294 < digitsValue (s.takeWhile isDigit) * factor
      · simp only
        rw [if_pos (exceeds.mpr (range.mpr beyond))]
        refine iff_of_false Except.error_ne_ok ?_
        rintro ⟨⟨_, other, also, rfl⟩, small⟩
        rw [durationSuffixes.unique _ _ _ also spelled] at small
        omega
      · simp only
        rw [if_neg (mt exceeds.mp (mt range.mp beyond)), value]
        constructor
        · intro same
          obtain rfl := Except.ok.inj same
          exact ⟨⟨empty, factor, spelled, rfl⟩, by omega⟩
        · rintro ⟨⟨_, other, also, rfl⟩, _⟩
          rw [durationSuffixes.unique _ _ _ also spelled]

/-- One grammar of durations and one of sizes: the readers differ in range
only, and none of their numbers wraps. Three of them do not look for zero
bytes. -/
theorem units_agree (dom : String) (s : Bytes) :
    (∀ m n, Duration s m → Duration s n → m = n) ∧
      (∀ n, dur2ms dom s = .ok n ↔ Duration s n ∧ n ≤ 4294967294) ∧
      (∀ ms, optTimeout dom s = .ok ms ↔ ∃ n, Duration s n ∧ n ≤ 4294967294 ∧ ms.toInt = n) ∧
      (0 ∉ s → ∀ caller ∈ waitCallers, ∀ ms,
        caller s = .ok ms ↔ ∃ n, Duration s n ∧ n ≤ 4294967294 ∧ ms.toInt = n) ∧
      (∀ t, optCpu dom s = .ok t ↔ ∃ n, Duration s n ∧ n ≤ 922337203685477 ∧ t.toNat = n * 10000) ∧
      (∀ ms, httpDuration s = .ok ms ↔ ∃ n, Duration s n ∧ 1 ≤ n ∧ n ≤ 2147483647 ∧ ms.toInt = n) ∧
      (∀ m n, Size s m → Size s n → m = n) ∧
      (∀ b, optMem dom s = .ok b ↔ ∃ n, Size s n ∧ n ≤ 9223372036854775807 ∧ b.toNat = n) ∧
      (∀ b, httpSize s = .ok b ↔ ∃ n, Size s n ∧ 1 ≤ n ∧ n ≤ 9223372036854775807 ∧ b.toInt = n) := by
  refine ⟨fun m n => Measured.unique, fun n => dur2ms_iff, fun ms => optTimeout_iff,
    fun noNul caller member ms => ?_,
    fun t => optCpu_iff, fun ms => httpDuration_iff, fun m n => Measured.unique, fun b => optMem_iff,
    fun b => httpSize_iff⟩
  rw [waitCallers_iff caller member ms, cString_itself noNul]

theorem units_agree_minutes :
    (dur2ms "RUN" (ascii "0071582m") = .ok 4294920000 ↔
      Duration (ascii "0071582m") 4294920000 ∧ 4294920000 ≤ 4294967294) ∧
    (childWaitTimeout (ascii "0071582m") = .ok 4294920000 ↔
      ∃ n, Duration (ascii "0071582m") n ∧ n ≤ 4294967294 ∧ (4294920000 : Int64).toInt = n) :=
  have agree := units_agree "RUN" (ascii "0071582m")
  ⟨agree.2.1 4294920000, agree.2.2.2.1 (by decide) childWaitTimeout (by simp [waitCallers]) 4294920000⟩

/-- `-cpu` goes further than the other callers. -/
theorem optCpu_longer : optCpu "RUN" (ascii "4294967295ms") = .ok 42949672950000 ∧
    optTimeout "RUN" (ascii "4294967295ms") = .error (tclFail "RUN" "badvalue" (ascii "bad -timeout value")) :=
  ⟨rfl, rfl⟩

end Machteld
