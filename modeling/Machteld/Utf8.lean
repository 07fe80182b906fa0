import Machteld.Bytes

namespace Machteld.Utf8

/-- The UTF-8 pattern of a code point. Surrogates are spelled like every
other three-byte code point; `IsScalar` is what excludes them. -/
def encode (n : Nat) : Bytes :=
  if n < 0x80 then [UInt8.ofNat n]
  else if n < 0x800 then [UInt8.ofNat (0xC0 + n / 64), UInt8.ofNat (0x80 + n % 64)]
  else if n < 0x10000 then
    [UInt8.ofNat (0xE0 + n / 4096), UInt8.ofNat (0x80 + n / 64 % 64), UInt8.ofNat (0x80 + n % 64)]
  else
    [UInt8.ofNat (0xF0 + n / 262144), UInt8.ofNat (0x80 + n / 4096 % 64),
      UInt8.ofNat (0x80 + n / 64 % 64), UInt8.ofNat (0x80 + n % 64)]

def IsSurrogate (n : Nat) : Prop := 0xD800 ≤ n ∧ n < 0xE000

instance (n : Nat) : Decidable (IsSurrogate n) := inferInstanceAs (Decidable (_ ∧ _))

/-- A Unicode scalar value: a code point that is not a surrogate. -/
def IsScalar (n : Nat) : Prop := n < 0x110000 ∧ ¬ IsSurrogate n

instance (n : Nat) : Decidable (IsScalar n) := inferInstanceAs (Decidable (_ ∧ _))

def WellFormed (s : Bytes) : Prop := ∃ cs : List Nat, (∀ c ∈ cs, IsScalar c) ∧ s = cs.flatMap encode

def IsTail (b : UInt8) : Prop := 0x80 ≤ b.toNat ∧ b.toNat < 0xC0

instance (b : UInt8) : Decidable (IsTail b) := inferInstanceAs (Decidable (_ ∧ _))

/-- Read one code point, surrogates included, refusing overlong spellings.
-/
def decodeOne : Bytes → Option (Nat × Bytes)
  | [] => none
  | a :: rest =>
    if a.toNat < 0x80 then some (a.toNat, rest)
    else if 0xC2 ≤ a.toNat ∧ a.toNat < 0xE0 then
      match rest with
      | b :: rest =>
        if IsTail b then some ((a.toNat - 0xC0) * 64 + (b.toNat - 0x80), rest) else none
      | [] => none
    else if 0xE0 ≤ a.toNat ∧ a.toNat < 0xF0 then
      match rest with
      | b :: c :: rest =>
        let n := (a.toNat - 0xE0) * 4096 + (b.toNat - 0x80) * 64 + (c.toNat - 0x80)
        if IsTail b ∧ IsTail c ∧ 0x800 ≤ n then some (n, rest) else none
      | _ => none
    else if 0xF0 ≤ a.toNat ∧ a.toNat < 0xF5 then
      match rest with
      | b :: c :: d :: rest =>
        let n := (a.toNat - 0xF0) * 262144 + (b.toNat - 0x80) * 4096 + (c.toNat - 0x80) * 64 +
          (d.toNat - 0x80)
        if IsTail b ∧ IsTail c ∧ IsTail d ∧ 0x10000 ≤ n ∧ n < 0x110000 then some (n, rest) else none
      | _ => none
    else none

theorem toNat_ofNat_lt {n : Nat} (small : n < 256) : (UInt8.ofNat n).toNat = n := by
  rw [UInt8.toNat_ofNat', Nat.mod_eq_of_lt small]

theorem ofNat_eq_of_toNat {b : UInt8} {n : Nat} (value : b.toNat = n) : b = UInt8.ofNat n := by
  rw [← value, UInt8.ofNat_toNat]

theorem encode_ne_nil (n : Nat) : encode n ≠ [] := by
  unfold encode
  split_ifs <;> simp

theorem encode_ascii {n : Nat} (small : n < 0x80) : encode n = [UInt8.ofNat n] := if_pos small

/-- Every byte of a code point above ASCII has its high bit set. -/
theorem high_of_mem_encode {n : Nat} {b : UInt8} (large : 0x80 ≤ n) (bound : n < 0x110000)
    (member : b ∈ encode n) : 0x80 ≤ b.toNat := by
  unfold encode at member
  split_ifs at member <;> simp only [List.mem_cons, List.not_mem_nil, or_false] at member
  · omega
  all_goals
    rcases member with rfl | rfl | rfl | rfl <;> rw [toNat_ofNat_lt (by omega)] <;> omega

theorem decodeOne_one {a : UInt8} (lead : a.toNat < 0x80) (rest : Bytes) :
    decodeOne (a :: rest) = some (a.toNat, rest) := if_pos lead

theorem decodeOne_two {a b : UInt8} (lead : 0xC2 ≤ a.toNat ∧ a.toNat < 0xE0) (tail : IsTail b)
    (rest : Bytes) :
    decodeOne (a :: b :: rest) = some ((a.toNat - 0xC0) * 64 + (b.toNat - 0x80), rest) := by
  simp only [decodeOne]
  rw [if_neg (by omega), if_pos lead, if_pos tail]

theorem decodeOne_three {a b c : UInt8} (lead : 0xE0 ≤ a.toNat ∧ a.toNat < 0xF0) {n : Nat}
    (value : (a.toNat - 0xE0) * 4096 + (b.toNat - 0x80) * 64 + (c.toNat - 0x80) = n)
    (tails : IsTail b ∧ IsTail c ∧ 0x800 ≤ n) (rest : Bytes) :
    decodeOne (a :: b :: c :: rest) = some (n, rest) := by
  subst value
  simp only [decodeOne]
  rw [if_neg (by omega), if_neg (by omega), if_pos lead]
  exact if_pos tails

theorem decodeOne_four {a b c d : UInt8} (lead : 0xF0 ≤ a.toNat ∧ a.toNat < 0xF5) {n : Nat}
    (value : (a.toNat - 0xF0) * 262144 + (b.toNat - 0x80) * 4096 + (c.toNat - 0x80) * 64 +
      (d.toNat - 0x80) = n)
    (tails : IsTail b ∧ IsTail c ∧ IsTail d ∧ 0x10000 ≤ n ∧ n < 0x110000) (rest : Bytes) :
    decodeOne (a :: b :: c :: d :: rest) = some (n, rest) := by
  subst value
  simp only [decodeOne]
  rw [if_neg (by omega), if_neg (by omega), if_neg (by omega), if_pos lead]
  exact if_pos tails

theorem isTail_ofNat {n : Nat} (lower : 0x80 ≤ n) (upper : n < 0xC0) : IsTail (UInt8.ofNat n) := by
  unfold IsTail
  rw [toNat_ofNat_lt (by omega)]
  exact ⟨lower, upper⟩

theorem decodeOne_encode {n : Nat} (bound : n < 0x110000) (rest : Bytes) :
    decodeOne (encode n ++ rest) = some (n, rest) := by
  unfold encode
  split_ifs with one two three
  · have lead : (UInt8.ofNat n).toNat = n := toNat_ofNat_lt (by omega)
    rw [List.singleton_append, decodeOne_one (by omega), lead]
  · have lead : (UInt8.ofNat (0xC0 + n / 64)).toNat = 0xC0 + n / 64 := toNat_ofNat_lt (by omega)
    have last : (UInt8.ofNat (0x80 + n % 64)).toNat = 0x80 + n % 64 := toNat_ofNat_lt (by omega)
    simp only [List.cons_append, List.nil_append]
    have value : (0xC0 + n / 64 - 0xC0) * 64 + (0x80 + n % 64 - 0x80) = n := by omega
    rw [decodeOne_two (by omega) (isTail_ofNat (by omega) (by omega)), lead, last, value]
  · have lead : (UInt8.ofNat (0xE0 + n / 4096)).toNat = 0xE0 + n / 4096 := toNat_ofNat_lt (by omega)
    have next : (UInt8.ofNat (0x80 + n / 64 % 64)).toNat = 0x80 + n / 64 % 64 := toNat_ofNat_lt (by omega)
    have last : (UInt8.ofNat (0x80 + n % 64)).toNat = 0x80 + n % 64 := toNat_ofNat_lt (by omega)
    exact decodeOne_three (by omega) (by omega)
      ⟨isTail_ofNat (by omega) (by omega), isTail_ofNat (by omega) (by omega), by omega⟩ rest
  · have lead : (UInt8.ofNat (0xF0 + n / 262144)).toNat = 0xF0 + n / 262144 :=
      toNat_ofNat_lt (by omega)
    have second : (UInt8.ofNat (0x80 + n / 4096 % 64)).toNat = 0x80 + n / 4096 % 64 :=
      toNat_ofNat_lt (by omega)
    have third : (UInt8.ofNat (0x80 + n / 64 % 64)).toNat = 0x80 + n / 64 % 64 := toNat_ofNat_lt (by omega)
    have last : (UInt8.ofNat (0x80 + n % 64)).toNat = 0x80 + n % 64 := toNat_ofNat_lt (by omega)
    exact decodeOne_four (by omega) (by omega)
      ⟨isTail_ofNat (by omega) (by omega), isTail_ofNat (by omega) (by omega),
        isTail_ofNat (by omega) (by omega), by omega, bound⟩ rest

theorem encode_two {a b : UInt8} (lead : 0xC2 ≤ a.toNat ∧ a.toNat < 0xE0) (tail : IsTail b) :
    encode ((a.toNat - 0xC0) * 64 + (b.toNat - 0x80)) = [a, b] := by
  unfold IsTail at tail
  generalize size : (a.toNat - 0xC0) * 64 + (b.toNat - 0x80) = n
  unfold encode
  rw [if_neg (by omega), if_pos (by omega), ← ofNat_eq_of_toNat (show a.toNat = 0xC0 + n / 64 by omega),
    ← ofNat_eq_of_toNat (show b.toNat = 0x80 + n % 64 by omega)]

theorem encode_three {a b c : UInt8} (lead : 0xE0 ≤ a.toNat ∧ a.toNat < 0xF0) {n : Nat}
    (value : (a.toNat - 0xE0) * 4096 + (b.toNat - 0x80) * 64 + (c.toNat - 0x80) = n)
    (tails : IsTail b ∧ IsTail c ∧ 0x800 ≤ n) : encode n = [a, b, c] := by
  unfold IsTail at tails
  unfold encode
  rw [if_neg (by omega), if_neg (by omega), if_pos (by omega),
    ← ofNat_eq_of_toNat (show a.toNat = 0xE0 + n / 4096 by omega),
    ← ofNat_eq_of_toNat (show b.toNat = 0x80 + n / 64 % 64 by omega),
    ← ofNat_eq_of_toNat (show c.toNat = 0x80 + n % 64 by omega)]

theorem encode_four {a b c d : UInt8} (lead : 0xF0 ≤ a.toNat ∧ a.toNat < 0xF5) {n : Nat}
    (value : (a.toNat - 0xF0) * 262144 + (b.toNat - 0x80) * 4096 + (c.toNat - 0x80) * 64 +
      (d.toNat - 0x80) = n)
    (tails : IsTail b ∧ IsTail c ∧ IsTail d ∧ 0x10000 ≤ n ∧ n < 0x110000) :
    encode n = [a, b, c, d] := by
  unfold IsTail at tails
  unfold encode
  rw [if_neg (by omega), if_neg (by omega), if_neg (by omega),
    ← ofNat_eq_of_toNat (show a.toNat = 0xF0 + n / 262144 by omega),
    ← ofNat_eq_of_toNat (show b.toNat = 0x80 + n / 4096 % 64 by omega),
    ← ofNat_eq_of_toNat (show c.toNat = 0x80 + n / 64 % 64 by omega),
    ← ofNat_eq_of_toNat (show d.toNat = 0x80 + n % 64 by omega)]

theorem encode_of_decodeOne {s rest : Bytes} {n : Nat} (read : decodeOne s = some (n, rest)) :
    n < 0x110000 ∧ s = encode n ++ rest := by
  unfold decodeOne at read
  split at read
  · cases read
  · rename_i a tail
    split_ifs at read with one two three four
    · cases read
      exact ⟨by omega, by rw [encode_ascii one, UInt8.ofNat_toNat]; rfl⟩
    · split at read
      · rename_i b tail
        split_ifs at read with last
        simp only [Option.some.injEq, Prod.mk.injEq] at read
        obtain ⟨rfl, rfl⟩ := read
        exact ⟨by unfold IsTail at last; omega, by rw [encode_two two last]; rfl⟩
      · cases read
    · split at read
      · rename_i b c tail
        dsimp only at read
        split_ifs at read with tails
        simp only [Option.some.injEq, Prod.mk.injEq] at read
        obtain ⟨rfl, rfl⟩ := read
        exact ⟨by unfold IsTail at tails; omega, by rw [encode_three three rfl tails]; rfl⟩
      · cases read
    · split at read
      · rename_i b c d tail
        dsimp only at read
        split_ifs at read with tails
        simp only [Option.some.injEq, Prod.mk.injEq] at read
        obtain ⟨rfl, rfl⟩ := read
        exact ⟨tails.2.2.2.2, by rw [encode_four four rfl tails]; rfl⟩
      · cases read

theorem wellFormed_nil : WellFormed [] := ⟨[], by simp, rfl⟩

theorem WellFormed.append {a b : Bytes} (left : WellFormed a) (right : WellFormed b) :
    WellFormed (a ++ b) := by
  obtain ⟨cs, scalars, rfl⟩ := left
  obtain ⟨ds, more, rfl⟩ := right
  refine ⟨cs ++ ds, ?_, by rw [List.flatMap_append]⟩
  intro c member
  rcases List.mem_append.mp member with inLeft | inRight
  · exact scalars c inLeft
  · exact more c inRight

theorem wellFormed_encode {n : Nat} (scalar : IsScalar n) : WellFormed (encode n) :=
  ⟨[n], by simpa using scalar, by simp⟩

/-- The first code point decides: what follows it is judged on its own. -/
theorem wellFormed_step {s rest : Bytes} {n : Nat} (read : decodeOne s = some (n, rest)) :
    WellFormed s ↔ ¬ IsSurrogate n ∧ WellFormed rest := by
  obtain ⟨bound, spelled⟩ := encode_of_decodeOne read
  constructor
  · rintro ⟨cs, scalars, same⟩
    cases cs with
    | nil => rw [same] at read; cases read
    | cons c cs =>
      have scalar := scalars c (List.mem_cons_self ..)
      rw [same, List.flatMap_cons, decodeOne_encode scalar.1] at read
      simp only [Option.some.injEq, Prod.mk.injEq] at read
      obtain ⟨rfl, rfl⟩ := read
      exact ⟨scalar.2, cs, fun d member => scalars d (List.mem_cons_of_mem _ member), rfl⟩
  · rintro ⟨plain, more⟩
    rw [spelled]
    exact (wellFormed_encode ⟨bound, plain⟩).append more

theorem not_wellFormed_of_decodeOne {s : Bytes} (nonempty : s ≠ []) (refused : decodeOne s = none) :
    ¬ WellFormed s := by
  rintro ⟨cs, scalars, rfl⟩
  cases cs with
  | nil => exact nonempty rfl
  | cons c cs =>
    rw [List.flatMap_cons, decodeOne_encode (scalars c (List.mem_cons_self ..)).1] at refused
    cases refused

theorem wellFormed_cons {a : UInt8} (small : a.toNat < 0x80) (s : Bytes) :
    WellFormed (a :: s) ↔ WellFormed s := by
  have plain : ¬ IsSurrogate a.toNat := fun bad => absurd bad.1 (by omega)
  rw [wellFormed_step (decodeOne_one small s)]
  exact ⟨And.right, And.intro plain⟩

theorem wellFormed_bracket {opening closing : UInt8} {s : Bytes} (first : opening.toNat < 0x80)
    (last : closing.toNat < 0x80) (whole : WellFormed s) : WellFormed (opening :: (s ++ [closing])) := by
  have ending : WellFormed [closing] := (wellFormed_cons last []).mpr wellFormed_nil
  exact (wellFormed_cons first _).mpr (whole.append ending)

/-- An ASCII byte never lies inside a code point, so it splits a well-formed
text into two well-formed halves. -/
theorem wellFormed_split {x : UInt8} (small : x.toNat < 0x80) (a b : Bytes) :
    WellFormed (a ++ x :: b) ↔ WellFormed a ∧ WellFormed b := by
  constructor
  · rintro ⟨cs, scalars, same⟩
    induction cs generalizing a with
    | nil => simp at same
    | cons c cs ih =>
      have scalar := scalars c (List.mem_cons_self ..)
      have later : ∀ d ∈ cs, IsScalar d := fun d member => scalars d (List.mem_cons_of_mem _ member)
      rw [List.flatMap_cons] at same
      rcases List.append_eq_append_iff.mp same with ⟨mid, whole, tail⟩ | ⟨mid, whole, tail⟩
      · cases mid with
        | nil =>
          obtain ⟨_, right⟩ := ih [] later tail
          rw [List.append_nil] at whole
          exact ⟨whole ▸ wellFormed_encode scalar, right⟩
        | cons y mid =>
          simp only [List.cons_append, List.cons.injEq] at tail
          obtain ⟨rfl, rest⟩ := tail
          have ascii : c < 0x80 := by
            by_contra large
            have high := high_of_mem_encode (b := x) (by omega) scalar.1 (by rw [whole]; simp)
            omega
          rw [encode_ascii ascii] at whole
          obtain ⟨rfl, headTail⟩ := List.append_eq_singleton_iff.mp whole.symm |>.resolve_right
            (by rintro ⟨_, nonsense⟩; cases nonsense)
          simp only [List.cons.injEq] at headTail
          obtain ⟨_, rfl⟩ := headTail
          exact ⟨wellFormed_nil, cs, later, rest⟩
      · obtain ⟨left, right⟩ := ih mid later tail.symm
        rw [whole]
        exact ⟨(wellFormed_encode scalar).append left, right⟩
  · rintro ⟨left, right⟩
    exact left.append ((wellFormed_cons small b).mpr right)

/-- C0 would only lead overlong spellings. -/
theorem lead_of_mem_encode {n : Nat} {b : UInt8} (bound : n < 0x110000) (member : b ∈ encode n) :
    b.toNat ≠ 0xC0 := by
  unfold encode at member
  split_ifs at member <;> simp only [List.mem_cons, List.not_mem_nil, or_false] at member
  all_goals
    rcases member with rfl | rfl | rfl | rfl <;> rw [toNat_ofNat_lt (by omega)] <;> omega

theorem lead_of_wellFormed {s : Bytes} (whole : WellFormed s) : (0xC0 : UInt8) ∉ s := by
  obtain ⟨cs, scalars, rfl⟩ := whole
  intro member
  obtain ⟨n, known, spelled⟩ := List.mem_flatMap.mp member
  exact lead_of_mem_encode (scalars n known).1 spelled rfl

/-- The scan that decides `WellFormed`; the number bounds its steps. -/
def scan : Nat → Bytes → Bool
  | _, [] => true
  | 0, _ :: _ => false
  | k + 1, a :: s =>
    match decodeOne (a :: s) with
    | some (n, rest) => decide (¬ IsSurrogate n) && scan k rest
    | none => false

theorem length_of_decodeOne {s rest : Bytes} {n : Nat} (read : decodeOne s = some (n, rest)) :
    rest.length < s.length := by
  obtain ⟨_, rfl⟩ := encode_of_decodeOne read
  have positive := List.length_pos_iff.mpr (encode_ne_nil n)
  simp only [List.length_append]
  omega

theorem scan_iff {k : Nat} {s : Bytes} (enough : s.length ≤ k) : scan k s = true ↔ WellFormed s := by
  induction k generalizing s with
  | zero =>
    obtain rfl := List.length_eq_zero_iff.mp (Nat.le_zero.mp enough)
    exact ⟨fun _ => wellFormed_nil, fun _ => rfl⟩
  | succ k ih =>
    cases s with
    | nil => exact ⟨fun _ => wellFormed_nil, fun _ => rfl⟩
    | cons a s =>
      cases read : decodeOne (a :: s) with
      | none =>
        simp only [scan, read, Bool.false_eq_true, false_iff]; exact not_wellFormed_of_decodeOne (by simp) read
      | some pair =>
        obtain ⟨n, rest⟩ := pair
        have shorter := length_of_decodeOne read
        simp only [scan, read, Bool.and_eq_true, decide_eq_true_eq, wellFormed_step read]
        rw [ih (by omega)]

instance (s : Bytes) : Decidable (WellFormed s) := decidable_of_iff _ (scan_iff (Nat.le_refl s.length))

end Machteld.Utf8
