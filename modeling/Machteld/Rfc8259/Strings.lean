import Machteld.Rfc8259.Grammar

namespace Machteld.Rfc8259

theorem Ws.nil : Ws [] := List.forall_mem_nil _

theorem Padded.bare {p : Bytes → Prop} {s : Bytes} (holds : p s) : Padded p s :=
  ⟨[], s, [], by simp, .nil, holds, .nil⟩

theorem IsWs.small {c : UInt8} (ws : IsWs c) : c.toNat < 0x80 := by
  rcases ws with rfl | rfl | rfl | rfl <;> decide

/-- A short escape is printable, and stands for an ASCII character. -/
theorem shortEscape_known {e v : UInt8} (known : shortEscape e = some v) :
    0x20 ≤ e.toNat ∧ e.toNat < 0x80 ∧ v.toNat < 0x80 := by
  unfold shortEscape at known
  split_ifs at known
  all_goals
    cases known
    subst_vars
    decide

theorem hexDigit_bound {c : UInt8} {n : Nat} (value : hexDigit c = some n) : c.toNat < 0x80 ∧ n < 16 := by
  unfold hexDigit at value
  split_ifs at value <;> simp only [Option.some.injEq] at value <;> omega

/-- Four hexadecimal digits are ASCII and name a unit of 16 bits. -/
theorem hex4_bound {a b c d : UInt8} {n : Nat} (value : hex4 a b c d = some n) :
    (a.toNat < 0x80 ∧ b.toNat < 0x80 ∧ c.toNat < 0x80 ∧ d.toNat < 0x80) ∧ n < 0x10000 := by
  simp only [hex4, Option.bind_eq_bind, Option.bind_eq_some_iff] at value
  obtain ⟨x, hx, y, hy, z, hz, w, hw, total⟩ := value
  have bx := hexDigit_bound hx
  have bY := hexDigit_bound hy
  have bz := hexDigit_bound hz
  have bw := hexDigit_bound hw
  simp only [Option.pure_def, Option.some.injEq] at total
  omega

/-- A string spelled in well-formed UTF-8 is well formed: escapes spell
whole scalars only. -/
theorem Chars.wellFormed {raw text : Bytes} (chars : Chars raw text) (p : Bytes)
    (whole : Utf8.WellFormed (p ++ raw)) : Utf8.WellFormed (p ++ text) := by
  induction chars generalizing p with
  | nil => exact whole
  | @plain c raw text high notQuote notSlash chars ih =>
    have moved := ih (p ++ [c]) (by simpa using whole)
    simpa using moved
  | @short e v raw text known chars ih =>
    have small := (shortEscape_known known).2
    have halves := (Utf8.wellFormed_split (by decide) p (e :: raw)).mp whole
    have rest := ih [] ((Utf8.wellFormed_cons small.1 raw).mp halves.2)
    exact (Utf8.wellFormed_split small.2 p text).mpr ⟨halves.1, rest⟩
  | @unicode a b c d n raw text value scalar chars ih =>
    have bound := hex4_bound value
    have halves := (Utf8.wellFormed_split (by decide) p _).mp whole
    have rest : Utf8.WellFormed raw := by
      have tail := halves.2
      rwa [Utf8.wellFormed_cons (by decide), Utf8.wellFormed_cons bound.1.1, Utf8.wellFormed_cons bound.1.2.1,
        Utf8.wellFormed_cons bound.1.2.2.1, Utf8.wellFormed_cons bound.1.2.2.2] at tail
    exact halves.1.append ((Utf8.wellFormed_encode ⟨by omega, scalar⟩).append (ih [] rest))
  | @pair a b c d a' b' c' d' hi lo raw text high isHigh low isLow chars ih =>
    have boundHi := hex4_bound high
    have boundLo := hex4_bound low
    have halves := (Utf8.wellFormed_split (by decide) p _).mp whole
    have rest : Utf8.WellFormed raw := by
      have tail := halves.2
      rwa [Utf8.wellFormed_cons (by decide), Utf8.wellFormed_cons boundHi.1.1, Utf8.wellFormed_cons boundHi.1.2.1,
        Utf8.wellFormed_cons boundHi.1.2.2.1, Utf8.wellFormed_cons boundHi.1.2.2.2,
        Utf8.wellFormed_cons (by decide), Utf8.wellFormed_cons (by decide), Utf8.wellFormed_cons boundLo.1.1,
        Utf8.wellFormed_cons boundLo.1.2.1, Utf8.wellFormed_cons boundLo.1.2.2.1,
        Utf8.wellFormed_cons boundLo.1.2.2.2] at tail
    have scalar : Utf8.IsScalar (0x10000 + (hi - 0xD800) * 1024 + (lo - 0xDC00)) :=
      ⟨by omega, fun bad => absurd bad.2 (by omega)⟩
    exact halves.1.append ((Utf8.wellFormed_encode scalar).append (ih [] rest))

/-- What the bytes of a piece of text owe to the strings and number literals
of the part of the tree they spell. -/
structure Sane (strings numbers : List Bytes) (s : Bytes) : Prop where
  printable : ∀ c ∈ s, 0x20 ≤ c.toNat ∨ IsWs c
  numbers : ∀ literal ∈ numbers, Number literal
  strings : Utf8.WellFormed s → ∀ text ∈ strings, Utf8.WellFormed text

/-- A text that does not begin in the middle of a code point. -/
def Boundary (s : Bytes) : Prop := s = [] ∨ ∃ c rest, s = c :: rest ∧ c.toNat < 0x80

theorem Boundary.split {a b : Bytes} (boundary : Boundary b) (whole : Utf8.WellFormed (a ++ b)) :
    Utf8.WellFormed a ∧ Utf8.WellFormed b := by
  rcases boundary with rfl | ⟨c, rest, rfl, small⟩
  · exact ⟨by simpa using whole, Utf8.wellFormed_nil⟩
  · have halves := (Utf8.wellFormed_split small a rest).mp whole
    exact ⟨halves.1, (Utf8.wellFormed_cons small rest).mpr halves.2⟩

theorem Ws.boundary {w : Bytes} (ws : Ws w) : Boundary w := by
  cases w with
  | nil => exact Or.inl rfl
  | cons c w => exact Or.inr ⟨c, w, rfl, (ws c (List.mem_cons_self ..)).small⟩

theorem Ws.sane {w : Bytes} (ws : Ws w) : Sane [] [] w :=
  ⟨fun c member => Or.inr (ws c member), nofun, nofun⟩

theorem Sane.follow {S N S' N' : List Bytes} {a b : Bytes} (left : Sane S N a) (right : Sane S' N' b)
    (boundary : Boundary b) : Sane (S ++ S') (N ++ N') (a ++ b) where
  printable c member := (List.mem_append.mp member).elim (left.printable c) (right.printable c)
  numbers literal member := (List.mem_append.mp member).elim (left.numbers literal) (right.numbers literal)
  strings whole text member :=
    have halves := boundary.split whole
    (List.mem_append.mp member).elim (left.strings halves.1 text) (right.strings halves.2 text)

theorem Sane.cons {S N : List Bytes} {c : UInt8} {s : Bytes} (ascii : 0x20 ≤ c.toNat ∧ c.toNat < 0x80)
    (sane : Sane S N s) : Sane S N (c :: s) where
  printable d member := by
    rcases List.mem_cons.mp member with rfl | later
    · exact Or.inl ascii.1
    · exact sane.printable d later
  numbers := sane.numbers
  strings whole := sane.strings ((Utf8.wellFormed_cons ascii.2 s).mp whole)

theorem Sane.bracket {S N : List Bytes} {opening closing : UInt8} {s : Bytes}
    (first : 0x20 ≤ opening.toNat ∧ opening.toNat < 0x80) (last : 0x20 ≤ closing.toNat ∧ closing.toNat < 0x80)
    (sane : Sane S N s) : Sane S N (opening :: (s ++ [closing])) := by
  have empty : Sane [] [] [closing] := .cons last ⟨nofun, nofun, nofun⟩
  have joined := (sane.follow empty (Or.inr ⟨closing, [], rfl, last.2⟩)).cons first
  simpa using joined

/-- White space around a text adds no string, no number and no byte that is
not printable. -/
theorem Sane.padded {S N : List Bytes} {p : Bytes → Prop} {s : Bytes} (padded : Padded p s)
    (inner : ∀ s, p s → Sane S N s) : Sane S N s := by
  obtain ⟨before, core, after, rfl, wsBefore, holds, wsAfter⟩ := padded
  have tail : Sane S N (core ++ after) := by
    simpa using (inner core holds).follow wsAfter.sane wsAfter.boundary
  clear holds
  induction before with
  | nil => exact tail
  | cons c before ih =>
    have ws := wsBefore c (List.mem_cons_self ..)
    have rest := ih fun d member => wsBefore d (List.mem_cons_of_mem _ member)
    refine ⟨fun d member => ?_, rest.numbers, fun whole =>
      rest.strings ((Utf8.wellFormed_cons ws.small _).mp whole)⟩
    rcases List.mem_cons.mp member with rfl | later
    · exact Or.inr ws
    · exact rest.printable d later

theorem hexDigit_high {c : UInt8} {n : Nat} (value : hexDigit c = some n) : 0x20 ≤ c.toNat := by
  unfold hexDigit at value
  split_ifs at value <;> omega

theorem hex4_high {a b c d : UInt8} {n : Nat} (value : hex4 a b c d = some n) :
    0x20 ≤ a.toNat ∧ 0x20 ≤ b.toNat ∧ 0x20 ≤ c.toNat ∧ 0x20 ≤ d.toNat := by
  simp only [hex4, Option.bind_eq_bind, Option.bind_eq_some_iff] at value
  obtain ⟨x, hx, y, hy, z, hz, w, hw, _⟩ := value
  exact ⟨hexDigit_high hx, hexDigit_high hy, hexDigit_high hz, hexDigit_high hw⟩

/-- No byte is a control character. -/
def Printable (s : Bytes) : Prop := ∀ c ∈ s, 0x20 ≤ c.toNat

theorem Printable.cons {c : UInt8} {s : Bytes} (first : 0x20 ≤ c.toNat) (rest : Printable s) : Printable (c :: s) :=
  List.forall_mem_cons.mpr ⟨first, rest⟩

theorem Printable.append {s t : Bytes} (left : Printable s) (right : Printable t) : Printable (s ++ t) :=
  List.forall_mem_append.mpr ⟨left, right⟩

theorem Printable.single {c : UInt8} (high : 0x20 ≤ c.toNat) : Printable [c] := .cons high (List.forall_mem_nil _)

theorem hex4_printable {a b c d : UInt8} {n : Nat} {s : Bytes} (value : hex4 a b c d = some n)
    (rest : Printable s) :
    Printable (backslash :: 0x75 :: a :: b :: c :: d :: s) := by
  obtain ⟨first, second, third, fourth⟩ := hex4_high value
  have digits : Printable (a :: b :: c :: d :: s) := .cons first (.cons second (.cons third (.cons fourth rest)))
  exact .cons (by decide) (.cons (by decide) digits)

theorem Chars.printable {raw text : Bytes} (chars : Chars raw text) : Printable raw := by
  induction chars with
  | nil => exact nofun
  | plain high _ _ _ ih => exact .cons high ih
  | short known _ ih => exact .cons (by decide) (.cons ((shortEscape_known known).1) ih)
  | unicode value _ _ ih => exact hex4_printable value ih
  | pair high _ low _ _ ih => exact hex4_printable high (hex4_printable low ih)

theorem Quoted.sane {text s : Bytes} (quoted : Quoted text s) : Sane [text] [] s := by
  obtain ⟨raw, rfl, chars⟩ := quoted
  refine Sane.bracket (by decide) (by decide) ⟨fun c member => Or.inl (chars.printable c member), nofun, ?_⟩
  simpa using fun whole => chars.wellFormed [] whole

/-- The characters a number literal is made of. -/
def IsNumberChar (c : UInt8) : Prop := IsDigit c ∨ c = 0x2B ∨ c = 0x2D ∨ c = 0x2E ∨ c = 0x45 ∨ c = 0x65

instance (c : UInt8) : Decidable (IsNumberChar c) := inferInstanceAs (Decidable (_ ∨ _))

theorem IntPart.digits {s : Bytes} (int : IntPart s) : s ≠ [] ∧ ∀ c ∈ s, IsDigit c := by
  rcases int with rfl | ⟨c, cs, rfl, digit, _, rest⟩
  · exact ⟨by simp, by simp [IsDigit]⟩
  · exact ⟨by simp, by simpa using And.intro digit rest⟩

theorem FracPart.chars {s : Bytes} (frac : FracPart s) : ∀ c ∈ s, IsNumberChar c := by
  obtain ⟨ds, rfl, digits⟩ := frac
  exact List.forall_mem_cons.mpr ⟨by decide, fun c member => Or.inl (digits.2 c member)⟩

theorem ExpPart.chars {s : Bytes} (exp : ExpPart s) : ∀ c ∈ s, IsNumberChar c := by
  obtain ⟨e, sign, ds, rfl, isE, isSign, digits⟩ := exp
  have first : IsNumberChar e := by rcases isE with rfl | rfl <;> decide
  have second : ∀ c ∈ sign, IsNumberChar c := by
    rcases isSign with rfl | rfl | rfl
    · simp
    · simpa using (by decide : IsNumberChar 0x2B)
    · simpa using (by decide : IsNumberChar 0x2D)
  intro c member
  rcases List.mem_cons.mp member with rfl | later
  · exact first
  · rcases List.mem_append.mp later with inSign | inDigits
    · exact second c inSign
    · exact Or.inl (digits.2 c inDigits)

/-- A number is not empty and has only the characters of numbers. -/
theorem Number.chars {s : Bytes} (number : Number s) : s ≠ [] ∧ ∀ c ∈ s, IsNumberChar c := by
  obtain ⟨sign, int, frac, exp, rfl, isSign, isInt, isFrac, isExp⟩ := number
  refine ⟨by simp [isInt.digits.1], fun c member => ?_⟩
  rcases List.mem_append.mp member with inSign | later
  · rcases isSign with rfl | rfl
    · cases inSign
    · obtain rfl := List.mem_singleton.mp inSign
      decide
  rcases List.mem_append.mp later with inInt | later
  · exact Or.inl (isInt.digits.2 c inInt)
  rcases List.mem_append.mp later with inFrac | inExp
  · exact isFrac.elim (fun none => by simp [none] at inFrac) fun part => part.chars c inFrac
  · exact isExp.elim (fun none => by simp [none] at inExp) fun part => part.chars c inExp

theorem IsNumberChar.ascii {c : UInt8} (char : IsNumberChar c) : 0x20 ≤ c.toNat ∧ c.toNat < 0x80 := by
  rcases char with digit | rfl | rfl | rfl | rfl | rfl
  · exact ⟨by have := digit.1; omega, by have := digit.2; omega⟩
  all_goals decide

theorem Number.sane {s : Bytes} (number : Number s) : Sane [] [s] s :=
  ⟨fun c member => Or.inl (number.chars.2 c member).ascii.1, by simpa using number, nofun⟩

theorem Value.literal_sane (word : String) (plain : ((ascii word).all fun c => decide (0x20 ≤ c.toNat)) = true) :
    Sane [] [] (ascii word) :=
  ⟨fun c member => Or.inl (of_decide_eq_true (List.all_eq_true.mp plain c member)), nofun, nofun⟩

theorem MoreItems.boundary {items : List Json} {s : Bytes} (more : MoreItems items s) : Boundary s := by
  cases items with
  | nil => exact Or.inl (by simpa [MoreItems] using more)
  | cons item items =>
    simp only [MoreItems] at more
    obtain ⟨_, _, rfl, _⟩ := more
    exact Or.inr ⟨_, _, rfl, by decide⟩

theorem MoreMembers.boundary {members : List (Bytes × Json)} {s : Bytes} (more : MoreMembers members s) :
    Boundary s := by
  cases members with
  | nil => exact Or.inl (by simpa [MoreMembers] using more)
  | cons member members =>
    simp only [MoreMembers] at more
    obtain ⟨_, _, _, rfl, _⟩ := more
    exact Or.inr ⟨_, _, rfl, by decide⟩

/-- A member: its name, a colon and its value. -/
theorem Sane.member {key : Bytes} {S N S' N' : List Bytes} {name first more : Bytes}
    (padded : Padded (Quoted key) name) (value : Sane S N first) (rest : Sane S' N' more)
    (boundary : Boundary more) :
    Sane (key :: S ++ S') (N ++ N') (name ++ 0x3A :: (first ++ more)) := by
  have named : Sane [key] [] name := .padded padded fun _ quoted => quoted.sane
  have tail := (value.follow rest boundary).cons (show 0x20 ≤ (0x3A : UInt8).toNat ∧ _ from ⟨by decide, by decide⟩)
  simpa using named.follow tail (Or.inr ⟨_, _, rfl, by decide⟩)

mutual

/-- The strings and numbers of a text are those of its value, and it is
printable beside them. -/
theorem Value.sane : ∀ {t : Json} {s : Bytes}, Value t s → Sane t.strings t.numbers s
  | .null, s, value => by
    simp only [Value] at value
    exact value ▸ Value.literal_sane "null" (by decide)
  | .bool b, s, value => by
    simp only [Value] at value
    subst value
    cases b
    · exact Value.literal_sane "false" (by decide)
    · exact Value.literal_sane "true" (by decide)
  | .number literal, s, value => by
    simp only [Value] at value
    obtain ⟨rfl, number⟩ := value
    exact number.sane
  | .string text, s, value => Quoted.sane value
  | .array items, s, value => by
    simp only [Value] at value
    obtain ⟨body, rfl, inside⟩ := value
    exact .bracket (by decide) (by decide) (Items.sane inside)
  | .object members, s, value => by
    simp only [Value] at value
    obtain ⟨body, rfl, inside⟩ := value
    exact .bracket (by decide) (by decide) (Members.sane inside)

theorem Items.sane : ∀ {items : List Json} {s : Bytes}, Items items s →
    Sane (stringsOfItems items) (numbersOfItems items) s
  | [], s, inside => Ws.sane inside
  | item :: items, s, inside => by
    simp only [Items] at inside
    obtain ⟨first, more, rfl, padded, later⟩ := inside
    exact (Sane.padded padded fun _ value => Value.sane value).follow (MoreItems.sane later) later.boundary

/-- The same for the items of an array. -/
theorem MoreItems.sane : ∀ {items : List Json} {s : Bytes}, MoreItems items s →
    Sane (stringsOfItems items) (numbersOfItems items) s
  | [], s, inside => by
    simp only [MoreItems] at inside
    exact inside ▸ ⟨nofun, nofun, nofun⟩
  | item :: items, s, inside => by
    simp only [MoreItems] at inside
    obtain ⟨first, more, rfl, padded, later⟩ := inside
    exact .cons (by decide)
      ((Sane.padded padded fun _ value => Value.sane value).follow (MoreItems.sane later) later.boundary)

theorem Members.sane : ∀ {members : List (Bytes × Json)} {s : Bytes}, Members members s →
    Sane (stringsOfMembers members) (numbersOfMembers members) s
  | [], s, inside => Ws.sane inside
  | (key, item) :: members, s, inside => by
    simp only [Members] at inside
    obtain ⟨name, first, more, rfl, named, padded, later⟩ := inside
    exact .member named (.padded padded fun _ value => Value.sane value) (MoreMembers.sane later) later.boundary

/-- The same for the members of an object. -/
theorem MoreMembers.sane : ∀ {members : List (Bytes × Json)} {s : Bytes}, MoreMembers members s →
    Sane (stringsOfMembers members) (numbersOfMembers members) s
  | [], s, inside => by
    simp only [MoreMembers] at inside
    exact inside ▸ ⟨nofun, nofun, nofun⟩
  | (key, item) :: members, s, inside => by
    simp only [MoreMembers] at inside
    obtain ⟨name, first, more, rfl, named, padded, later⟩ := inside
    exact .cons (by decide)
      (.member named (.padded padded fun _ value => Value.sane value) (MoreMembers.sane later) later.boundary)

end

theorem Text.sane {t : Json} {s : Bytes} (text : Text t s) : Sane t.strings t.numbers s :=
  .padded text.2 fun _ value => value.sane

theorem Text.strings {t : Json} {s : Bytes} (text : Text t s) : ∀ string ∈ t.strings, Utf8.WellFormed string :=
  text.sane.strings text.1

/-- A raw NUL never occurs in a JSON text. -/
theorem Text.no_nul {t : Json} {s : Bytes} (text : Text t s) : (0 : UInt8) ∉ s := by
  intro member
  rcases text.sane.printable 0 member with high | ws
  · exact absurd high (by decide)
  · exact absurd ws (by decide)

end Machteld.Rfc8259
