import Machteld.Rfc8259.Strings

namespace Machteld.Rfc8259

/-- A table that spells each byte of a string: a reader gets the byte back,
and only ASCII bytes are spelled otherwise than by themselves. -/
structure Spelling (spell : UInt8 → Bytes) : Prop where
  reads : ∀ c raw text, Chars raw text → Chars (spell c ++ raw) (c :: text)
  keeps : ∀ c, spell c = [c] ∨ (c.toNat < 0x80 ∧ ∀ d ∈ spell c, d.toNat < 0x80)

def quoteWith (spell : UInt8 → Bytes) (text : Bytes) : Bytes := dquote :: (text.flatMap spell ++ [dquote])

mutual

/-- The tree written without whitespace. -/
def compact (spell : UInt8 → Bytes) : Json → Bytes
  | .null => ascii "null"
  | .bool b => ascii (if b then "true" else "false")
  | .number literal => literal
  | .string text => quoteWith spell text
  | .array items => 0x5B :: (compactItems spell true items ++ [0x5D])
  | .object members => 0x7B :: (compactMembers spell true members ++ [0x7D])

def compactItems (spell : UInt8 → Bytes) : Bool → List Json → Bytes
  | _, [] => []
  | first, item :: items => (if first then [] else [0x2C]) ++ (compact spell item ++ compactItems spell false items)

def compactMembers (spell : UInt8 → Bytes) : Bool → List (Bytes × Json) → Bytes
  | _, [] => []
  | first, (key, item) :: members =>
    (if first then [] else [0x2C]) ++
      (quoteWith spell key ++ 0x3A :: (compact spell item ++ compactMembers spell false members))

end

theorem wellFormed_of_ascii {s : Bytes} (small : ∀ c ∈ s, c.toNat < 0x80) : Utf8.WellFormed s := by
  induction s with
  | nil => exact Utf8.wellFormed_nil
  | cons c s ih =>
    obtain ⟨first, rest⟩ := List.forall_mem_cons.mp small
    exact (Utf8.wellFormed_cons first s).mpr (ih rest)

theorem Number.wellFormed {s : Bytes} (number : Number s) : Utf8.WellFormed s :=
  wellFormed_of_ascii fun c member => (number.chars.2 c member).ascii.2

namespace Spelling

variable {spell : UInt8 → Bytes}

theorem chars (spelling : Spelling spell) (text : Bytes) : Chars (text.flatMap spell) text := by
  induction text with
  | nil => exact Chars.nil
  | cons c text ih => exact spelling.reads c _ _ ih

theorem quoted (spelling : Spelling spell) (text : Bytes) : Quoted text (quoteWith spell text) :=
  ⟨_, rfl, spelling.chars text⟩

/-- Spelling a string character by character keeps it well formed. -/
theorem flatMap_wellFormed (spelling : Spelling spell) (p text : Bytes) (whole : Utf8.WellFormed (p ++ text)) :
    Utf8.WellFormed (p ++ text.flatMap spell) := by
  induction text generalizing p with
  | nil => exact whole
  | cons c text ih =>
    rcases spelling.keeps c with itself | ⟨small, spelled⟩
    · have moved := ih (p ++ [c]) (by simpa using whole)
      simpa [itself] using moved
    · have halves := (Utf8.wellFormed_split small p text).mp whole
      have rest := ih [] halves.2
      exact halves.1.append ((wellFormed_of_ascii spelled).append rest)

theorem quote_wellFormed (spelling : Spelling spell) {text : Bytes} (whole : Utf8.WellFormed text) :
    Utf8.WellFormed (quoteWith spell text) := by
  have inside := spelling.flatMap_wellFormed [] text whole
  exact (Utf8.wellFormed_cons (by decide) _).mpr (Utf8.WellFormed.append inside (by decide))

mutual

/-- The compact form of a tree is a text of it. -/
theorem value (spelling : Spelling spell) :
    ∀ t : Json, (∀ literal ∈ t.numbers, Number literal) → Value t (compact spell t)
  | .null, _ => rfl
  | .bool _, _ => rfl
  | .number literal, numbers => ⟨rfl, numbers literal (List.mem_singleton.mpr rfl)⟩
  | .string text, _ => spelling.quoted text
  | .array list, numbers => ⟨_, rfl, spelling.items list numbers⟩
  | .object list, numbers => ⟨_, rfl, spelling.members list numbers⟩

theorem items (spelling : Spelling spell) : ∀ list : List Json, (∀ literal ∈ numbersOfItems list, Number literal) →
    Items list (compactItems spell true list)
  | [], _ => nofun
  | item :: list, numbers => by
    have halves := List.forall_mem_append.mp numbers
    exact ⟨compact spell item, compactItems spell false list, rfl, .bare (spelling.value item halves.1),
      spelling.moreItems list halves.2⟩

theorem moreItems (spelling : Spelling spell) :
    ∀ list : List Json, (∀ literal ∈ numbersOfItems list, Number literal) →
    MoreItems list (compactItems spell false list)
  | [], _ => rfl
  | item :: list, numbers => by
    have halves := List.forall_mem_append.mp numbers
    exact ⟨compact spell item, compactItems spell false list, rfl, .bare (spelling.value item halves.1),
      spelling.moreItems list halves.2⟩

theorem members (spelling : Spelling spell) :
    ∀ list : List (Bytes × Json), (∀ literal ∈ numbersOfMembers list, Number literal) →
    Members list (compactMembers spell true list)
  | [], _ => nofun
  | (key, item) :: list, numbers => by
    have halves := List.forall_mem_append.mp numbers
    exact ⟨quoteWith spell key, compact spell item, compactMembers spell false list, rfl,
      .bare (spelling.quoted key), .bare (spelling.value item halves.1), spelling.moreMembers list halves.2⟩

theorem moreMembers (spelling : Spelling spell) :
    ∀ list : List (Bytes × Json), (∀ literal ∈ numbersOfMembers list, Number literal) →
    MoreMembers list (compactMembers spell false list)
  | [], _ => rfl
  | (key, item) :: list, numbers => by
    have halves := List.forall_mem_append.mp numbers
    exact ⟨quoteWith spell key, compact spell item, compactMembers spell false list, rfl,
      .bare (spelling.quoted key), .bare (spelling.value item halves.1), spelling.moreMembers list halves.2⟩

end

mutual

/-- The compact form of a tree with well-formed strings is well formed. -/
theorem compact_wellFormed (spelling : Spelling spell) : ∀ t : Json, (∀ literal ∈ t.numbers, Number literal) →
    (∀ text ∈ t.strings, Utf8.WellFormed text) → Utf8.WellFormed (compact spell t)
  | .null, _, _ => (by decide : Utf8.WellFormed (ascii "null"))
  | .bool true, _, _ => (by decide : Utf8.WellFormed (ascii "true"))
  | .bool false, _, _ => (by decide : Utf8.WellFormed (ascii "false"))
  | .number literal, numbers, _ => (numbers literal (List.mem_singleton.mpr rfl)).wellFormed
  | .string text, _, strings => spelling.quote_wellFormed (strings text (List.mem_singleton.mpr rfl))
  | .array list, numbers, strings =>
    (Utf8.wellFormed_cons (by decide) _).mpr
      ((spelling.compactItems_wellFormed true list numbers strings).append (show Utf8.WellFormed [_] by decide))
  | .object list, numbers, strings =>
    (Utf8.wellFormed_cons (by decide) _).mpr
      ((spelling.compactMembers_wellFormed true list numbers strings).append (show Utf8.WellFormed [_] by decide))

theorem compactItems_wellFormed (spelling : Spelling spell) : ∀ (first : Bool) (list : List Json),
    (∀ literal ∈ numbersOfItems list, Number literal) → (∀ text ∈ stringsOfItems list, Utf8.WellFormed text) →
      Utf8.WellFormed (compactItems spell first list)
  | _, [], _, _ => Utf8.wellFormed_nil
  | first, item :: list, numbers, strings => by
    have fine := List.forall_mem_append.mp numbers
    have clean := List.forall_mem_append.mp strings
    have comma : Utf8.WellFormed (if first then [] else [0x2C]) := by cases first <;> decide
    exact comma.append ((spelling.compact_wellFormed item fine.1 clean.1).append
      (spelling.compactItems_wellFormed false list fine.2 clean.2))

theorem compactMembers_wellFormed (spelling : Spelling spell) : ∀ (first : Bool) (list : List (Bytes × Json)),
    (∀ literal ∈ numbersOfMembers list, Number literal) →
      (∀ text ∈ stringsOfMembers list, Utf8.WellFormed text) → Utf8.WellFormed (compactMembers spell first list)
  | _, [], _, _ => Utf8.wellFormed_nil
  | first, (key, item) :: list, numbers, strings => by
    have fine := List.forall_mem_append.mp numbers
    obtain ⟨name, later⟩ := List.forall_mem_cons.mp strings
    have clean := List.forall_mem_append.mp later
    have comma : Utf8.WellFormed (if first then [] else [0x2C]) := by cases first <;> decide
    have rest := (spelling.compact_wellFormed item fine.1 clean.1).append
      (spelling.compactMembers_wellFormed false list fine.2 clean.2)
    exact comma.append ((spelling.quote_wellFormed name).append ((Utf8.wellFormed_cons (by decide) _).mpr rest))

end

/-- What the writer makes of a tree with clean strings is a text of that
tree. -/
theorem text (spelling : Spelling spell) {t : Json} (numbers : ∀ literal ∈ t.numbers, Number literal)
    (strings : ∀ text ∈ t.strings, Utf8.WellFormed text) : Text t (compact spell t) :=
  ⟨spelling.compact_wellFormed t numbers strings, .bare (spelling.value t numbers)⟩

end Spelling

end Machteld.Rfc8259
