import Machteld.TclText

namespace Machteld

/-- What a strict UTF-8 channel makes of one piece of a Tcl string: the
bytes it puts out and the rest of the string. U+0000 goes out as one zero
byte, a surrogate cannot be written. -/
def channelPut (s : Bytes) : Option (Bytes × Bytes) :=
  if [0xC0, 0x80] <+: s then some ([0], s.drop 2)
  else (Utf8.decodeOne s).bind fun (n, rest) => if Utf8.IsSurrogate n then none else some (Utf8.encode n, rest)

def channelLoop : Nat → Bytes → Option Bytes
  | _, [] => some []
  | 0, _ :: _ => none
  | k + 1, a :: s =>
    (channelPut (a :: s)).bind fun (out, rest) => (channelLoop k rest).map fun later => out ++ later

/-- The bytes `puts` sends for a string, or nothing when the strict profile
raises. -/
def channelWrite (s : Bytes) : Option Bytes := channelLoop s.length s

/-- The string `gets` returns for the bytes of a line, or nothing when the
strict profile raises. -/
def channelRead (line : Bytes) : Option Bytes :=
  if Utf8.WellFormed line then some (line.flatMap fun c => if c = 0 then [0xC0, 0x80] else [c]) else none

theorem channelPut_plain {n : Nat} (scalar : Utf8.IsScalar n) (rest : Bytes) :
    channelPut (Utf8.encode n ++ rest) = some (Utf8.encode n, rest) := by
  have read := Utf8.decodeOne_encode scalar.1 rest
  have notNul : ¬ [0xC0, 0x80] <+: Utf8.encode n ++ rest := by
    rintro ⟨tail, same⟩
    rw [← same] at read
    cases read
  simp only [channelPut, if_neg notNul, read, Option.bind_some, if_neg scalar.2]

/-- One step of a write that goes through: the zero of a U+0000, or a scalar
value left as it is. -/
theorem channelPut_some {s out rest : Bytes} (put : channelPut s = some (out, rest)) :
    (s = [0xC0, 0x80] ++ rest ∧ out = [0]) ∨ ∃ n, Utf8.IsScalar n ∧ s = Utf8.encode n ++ rest ∧
      out = Utf8.encode n := by
  unfold channelPut at put
  split_ifs at put with nul
  · simp only [Option.some.injEq, Prod.mk.injEq] at put
    obtain ⟨rfl, rfl⟩ := put
    obtain ⟨tail, rfl⟩ := nul
    exact Or.inl ⟨rfl, rfl⟩
  · obtain ⟨⟨n, tail⟩, read, next⟩ := Option.bind_eq_some_iff.mp put
    dsimp only at next
    split_ifs at next with surrogate
    simp only [Option.some.injEq, Prod.mk.injEq] at next
    obtain ⟨rfl, rfl⟩ := next
    obtain ⟨bound, spelled⟩ := Utf8.encode_of_decodeOne read
    exact Or.inr ⟨n, ⟨bound, surrogate⟩, spelled, rfl⟩

theorem channelLoop_step {k : Nat} {s : Bytes} (nonempty : s ≠ []) :
    channelLoop (k + 1) s =
      (channelPut s).bind fun (out, rest) => (channelLoop k rest).map fun later => out ++ later := by
  cases s with
  | nil => exact absurd rfl nonempty
  | cons a s => rfl

theorem channelLoop_plain {cs : List Nat} (scalars : ∀ c ∈ cs, Utf8.IsScalar c) :
    ∀ k, (cs.flatMap Utf8.encode).length ≤ k →
      channelLoop k (cs.flatMap Utf8.encode) = some (cs.flatMap Utf8.encode) := by
  induction cs with
  | nil => exact fun k _ => by cases k <;> rfl
  | cons c cs ih =>
    intro k enough
    obtain ⟨scalar, later⟩ := List.forall_mem_cons.mp scalars
    rw [List.flatMap_cons] at enough ⊢
    have put := channelPut_plain scalar (cs.flatMap Utf8.encode)
    have positive := List.length_pos_iff.mpr (Utf8.encode_ne_nil c)
    simp only [List.length_append] at enough
    obtain ⟨k, rfl⟩ := Nat.exists_eq_succ_of_ne_zero (show k ≠ 0 by omega)
    have rest := ih later k (by omega)
    have nonempty := List.append_ne_nil_of_left_ne_nil (Utf8.encode_ne_nil c) (cs.flatMap Utf8.encode)
    simp only [channelLoop_step nonempty, put, Option.bind_some, rest, Option.map_some]

/-- Well-formed UTF-8 goes out unchanged. -/
theorem channelWrite_wellFormed {s : Bytes} (whole : Utf8.WellFormed s) : channelWrite s = some s := by
  obtain ⟨cs, scalars, rfl⟩ := whole
  exact channelLoop_plain scalars _ (Nat.le_refl _)

/-- A string that goes out changed held U+0000, and shows it. -/
theorem channelLoop_some {k : Nat} {s out : Bytes} (written : channelLoop k s = some out) :
    (Utf8.WellFormed s ∨ (0 : UInt8) ∈ out) ∧ ∀ c ∈ out, c = 0 ∨ c ∈ s := by
  induction k generalizing s out with
  | zero =>
    cases s with
    | nil =>
      obtain rfl := Option.some.inj written
      exact ⟨Or.inl Utf8.wellFormed_nil, List.forall_mem_nil _⟩
    | cons a s => cases written
  | succ k ih =>
    cases s with
    | nil =>
      obtain rfl := Option.some.inj written
      exact ⟨Or.inl Utf8.wellFormed_nil, List.forall_mem_nil _⟩
    | cons a s =>
      obtain ⟨⟨piece, rest⟩, put, next⟩ := Option.bind_eq_some_iff.mp written
      obtain ⟨later, loop, rfl⟩ := Option.map_eq_some_iff.mp next
      obtain ⟨whole, known⟩ := ih loop
      obtain ⟨split, rfl⟩ | ⟨n, scalar, split, rfl⟩ := channelPut_some put
      · rw [split]
        refine ⟨Or.inr (List.mem_append_left _ (List.mem_singleton.mpr rfl)), fun c member => ?_⟩
        rcases List.mem_append.mp member with first | last
        · exact Or.inl (List.mem_singleton.mp first)
        · exact (known c last).imp_right (List.mem_append_right _)
      · rw [split]
        constructor
        · exact whole.imp (Utf8.wellFormed_encode scalar).append (List.mem_append_right _)
        · intro c member
          rcases List.mem_append.mp member with first | last
          · exact Or.inr (List.mem_append_left _ first)
          · exact (known c last).imp_right (List.mem_append_right _)

/-- A string that goes out and is not UTF-8 is one with U+0000 in it. -/
theorem channelWrite_some {s out : Bytes} (written : channelWrite s = some out) :
    (Utf8.WellFormed s ∧ out = s) ∨ (¬ Utf8.WellFormed s ∧ (0 : UInt8) ∈ out) := by
  by_cases whole : Utf8.WellFormed s
  · have same := channelWrite_wellFormed whole
    exact Or.inl ⟨whole, (Option.some.inj (same.symm.trans written)).symm⟩
  · exact Or.inr ⟨whole, (channelLoop_some written).1.resolve_left whole⟩

theorem channelWrite_subset {s out : Bytes} (written : channelWrite s = some out) : ∀ c ∈ out, c = 0 ∨ c ∈ s :=
  (channelLoop_some written).2

/-- What is read back of a line with no zero byte is the line. -/
theorem channelRead_plain {s : Bytes} (whole : Utf8.WellFormed s) (noNul : (0 : UInt8) ∉ s) :
    channelRead s = some s := by
  have same : ∀ s : Bytes, (0 : UInt8) ∉ s → (s.flatMap fun c => if c = 0 then [0xC0, 0x80] else [c]) = s := by
    intro s noNul
    induction s with
    | nil => rfl
    | cons c s ih =>
      simp only [List.mem_cons, not_or] at noNul
      have other : c ≠ 0 := fun zero => noNul.1 zero.symm
      simp [other, ih noNul.2]
  rw [channelRead, if_pos whole, same s noNul]

/-- A zero byte of the line is read as a spelling no UTF-8 text holds. -/
theorem channelRead_nul {line s : Bytes} (nul : (0 : UInt8) ∈ line) (read : channelRead line = some s) :
    ¬ Utf8.WellFormed s := by
  unfold channelRead at read
  split_ifs at read
  obtain rfl := Option.some.inj read
  have spelled : (0xC0 : UInt8) ∈ line.flatMap fun c => if c = 0 then [0xC0, 0x80] else [c] :=
    List.mem_flatMap.mpr ⟨0, nul, List.mem_cons_self ..⟩
  exact fun whole => Utf8.lead_of_wellFormed whole spelled

end Machteld
