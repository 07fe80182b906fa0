import Machteld.Except
import Machteld.Json.Encode

namespace Machteld

open Rfc8259

/-- What an emitted piece is for the tree it stands for: a spelling by the
grammar, and UTF-8 as soon as the strings of the tree are. -/
structure Emitted {α : Type} (spells : α → Bytes → Prop) (strings : α → List Bytes) (t : α)
    (out : Bytes) : Prop where
  spelled : spells t out
  clean : (∀ text ∈ strings t, Utf8.WellFormed text) → Utf8.WellFormed out

theorem jsonCapped_ok {depth : Nat} {emit : Except TclError Bytes} {out : Bytes} :
    jsonCapped depth emit = .ok out ↔ depth < 512 ∧ emit = .ok out := by
  unfold jsonCapped jsonMaxDepth
  split_ifs with deep
  · exact ⟨nofun, fun both => absurd both.1 (Nat.not_lt.mpr deep)⟩
  · exact ⟨fun same => ⟨Nat.lt_of_not_le deep, same⟩, And.right⟩

/-- Only a plain encoding refuses a typed value whose node can be written.
-/
theorem jsonEmitTyped_ok {yy : Yyjson} {plainOnly : Bool} {x : TypedJson} {out : Bytes} :
    jsonEmitTyped yy plainOnly x = .ok out ↔ plainOnly = false ∧ jsonNodeWrite yy x = some out := by
  unfold jsonEmitTyped
  cases plainOnly with
  | true => exact ⟨nofun, fun both => nomatch both.1⟩
  | false =>
    cases written : jsonNodeWrite yy x with
    | none => exact ⟨nofun, fun both => nomatch both.2⟩
    | some s => simp

/-- A leaf goes out bare when it is a number literal, and quoted otherwise.
-/
theorem emitted_leaf (s : Bytes) :
    Emitted (fun t => Padded (Value t)) Json.strings (Obj.str s).tree
      (if jsonIsNumberLiteral s then s else jsonQuote s) := by
  unfold Obj.tree
  by_cases number : jsonIsNumberLiteral s = true
  · rw [if_pos number, if_pos number]
    have literal := (jsonIsNumberLiteral_iff s).mp number
    exact ⟨.bare ⟨rfl, literal⟩, fun _ => literal.wellFormed⟩
  · rw [if_neg number, if_neg number]
    exact ⟨.bare (jsonQuote_quoted s), fun clean => jsonQuote_wellFormed (clean s (List.mem_singleton.mpr rfl))⟩

theorem wellFormed_comma (first : Bool) {s : Bytes} (whole : Utf8.WellFormed s) :
    Utf8.WellFormed ((if first then [] else [0x2C]) ++ s) := by
  cases first
  · exact (Utf8.wellFormed_cons (by decide) s).mpr whole
  · exact whole

section

variable {yy : Yyjson} {plainOnly : Bool}

mutual

/-- What is emitted of a value is a text of its tree, with its strings in
their escaped forms. The induction is on the value, with a lemma for lists
and one for dicts. -/
theorem jsonEmit_emitted (spec : yy.Spec) : ∀ {v : Obj} {depth : Nat} {out : Bytes},
    jsonEmit yy plainOnly depth v = .ok out → Emitted (fun t => Padded (Value t)) Json.strings v.tree out
  | .str s, depth, out, emitted => by
    obtain ⟨_, same⟩ := jsonCapped_ok.mp emitted
    exact Except.ok.inj same ▸ emitted_leaf s
  | .typed x, depth, out, emitted => by
    obtain ⟨_, typed⟩ := jsonCapped_ok.mp emitted
    have text := jsonNodeWrite_text spec (jsonEmitTyped_ok.mp typed).2
    exact ⟨text.2, fun _ => text.1⟩
  | .list items, depth, out, emitted => by
    obtain ⟨_, inside⟩ := jsonCapped_ok.mp emitted
    obtain ⟨body, emittedBody, rfl⟩ := Except.map_ok.mp inside
    have list := jsonEmitItems_emitted spec emittedBody
    exact ⟨.bare ⟨body, rfl, list.spelled⟩, fun clean => Utf8.wellFormed_bracket (by decide) (by decide)
      (list.clean clean)⟩
  | .dict entries, depth, out, emitted => by
    obtain ⟨_, inside⟩ := jsonCapped_ok.mp emitted
    obtain ⟨body, emittedBody, rfl⟩ := Except.map_ok.mp inside
    have list := jsonEmitEntries_emitted spec emittedBody
    exact ⟨.bare ⟨body, rfl, list.spelled⟩, fun clean => Utf8.wellFormed_bracket (by decide) (by decide)
      (list.clean clean)⟩

/-- The items of an array, behind its bracket or behind a comma. -/
theorem jsonEmitItems_emitted (spec : yy.Spec) : ∀ {items : List Obj} {first : Bool} {depth : Nat} {out : Bytes},
    jsonEmitItems yy plainOnly first depth items = .ok out →
      Emitted (if first then Items else MoreItems) stringsOfItems (treeOfItems items) out
  | [], first, depth, out, emitted => by
    obtain rfl : [] = out := Except.ok.inj emitted
    refine ⟨?_, fun _ => Utf8.wellFormed_nil⟩
    cases first
    · rfl
    · exact nofun
  | item :: items, first, depth, out, emitted => by
    obtain ⟨head, emittedHead, later⟩ := Except.bind_ok.mp emitted
    obtain ⟨tail, emittedTail, rfl⟩ := Except.map_ok.mp later
    have here := jsonEmit_emitted spec emittedHead
    have there := jsonEmitItems_emitted spec emittedTail
    refine ⟨?_, fun clean => ?_⟩
    · cases first
      · exact ⟨head, tail, rfl, here.spelled, there.spelled⟩
      · exact ⟨head, tail, rfl, here.spelled, there.spelled⟩
    · have halves := List.forall_mem_append.mp clean
      exact wellFormed_comma first ((here.clean halves.1).append (there.clean halves.2))

/-- The members of an object, behind its brace or behind a comma. -/
theorem jsonEmitEntries_emitted (spec : yy.Spec) :
    ∀ {entries : List (Bytes × Obj)} {first : Bool} {depth : Nat} {out : Bytes},
      jsonEmitEntries yy plainOnly first depth entries = .ok out →
        Emitted (if first then Members else MoreMembers) stringsOfMembers (treeOfEntries entries) out
  | [], first, depth, out, emitted => by
    obtain rfl : [] = out := Except.ok.inj emitted
    refine ⟨?_, fun _ => Utf8.wellFormed_nil⟩
    cases first
    · rfl
    · exact nofun
  | (key, value) :: entries, first, depth, out, emitted => by
    obtain ⟨head, emittedHead, later⟩ := Except.bind_ok.mp emitted
    obtain ⟨tail, emittedTail, rfl⟩ := Except.map_ok.mp later
    have here := jsonEmit_emitted spec emittedHead
    have there := jsonEmitEntries_emitted spec emittedTail
    refine ⟨?_, fun clean => ?_⟩
    · cases first
      · exact ⟨jsonQuote key, head, tail, rfl, .bare (jsonQuote_quoted key), here.spelled, there.spelled⟩
      · exact ⟨jsonQuote key, head, tail, rfl, .bare (jsonQuote_quoted key), here.spelled, there.spelled⟩
    · obtain ⟨name, rest⟩ := List.forall_mem_cons.mp clean
      have halves := List.forall_mem_append.mp rest
      have value := (here.clean halves.1).append (there.clean halves.2)
      exact wellFormed_comma first ((jsonQuote_wellFormed name).append
        ((Utf8.wellFormed_cons (by decide) _).mpr value))

end

/-- The emitted bytes are a text of the value's tree exactly when the
strings of that tree are UTF-8. -/
theorem jsonEmit_text (spec : yy.Spec) {v : Obj} {depth : Nat} {out : Bytes}
    (emitted : jsonEmit yy plainOnly depth v = .ok out) : Text v.tree out ↔ Clean v.tree := by
  have piece := jsonEmit_emitted spec emitted
  exact ⟨Text.strings, fun clean => ⟨piece.clean clean, piece.spelled⟩⟩

/-- The bytes are a text of any tree at all only when they are one of the
value's own. -/
theorem jsonEmit_valid_iff (spec : yy.Spec) {v : Obj} {depth : Nat} {out : Bytes}
    (emitted : jsonEmit yy plainOnly depth v = .ok out) : (∃ t, Text t out) ↔ Clean v.tree := by
  constructor
  · rintro ⟨t, text⟩
    have piece := jsonEmit_emitted spec emitted
    exact (jsonEmit_text spec emitted).mp ⟨text.1, piece.spelled⟩
  · exact fun clean => ⟨_, (jsonEmit_text spec emitted).mpr clean⟩

/-- What `json_emit` needs of a value: room under the cap, and typed values
only where they are let through and can be written. -/
structure Encodable (plainOnly : Bool) (depth height : Nat) (typed : List TypedJson) : Prop where
  room : depth + height ≤ 512
  plain : plainOnly = true → typed = []
  written : ∀ x ∈ typed, Clean x.node

/-- Two parts beside each other are encodable where each of them is. -/
theorem Encodable.append {depth height height' : Nat} {typed typed' : List TypedJson} :
    Encodable plainOnly depth (max height height') (typed ++ typed') ↔
      Encodable plainOnly depth height typed ∧ Encodable plainOnly depth height' typed' := by
  constructor
  · rintro ⟨room, plain, written⟩
    have halves := List.forall_mem_append.mp written
    exact ⟨⟨by omega, fun only => (List.append_eq_nil_iff.mp (plain only)).1, halves.1⟩,
      ⟨by omega, fun only => (List.append_eq_nil_iff.mp (plain only)).2, halves.2⟩⟩
  · rintro ⟨left, right⟩
    exact ⟨by have := left.room; have := right.room; omega,
      fun only => by rw [left.plain only, right.plain only]; rfl,
      List.forall_mem_append.mpr ⟨left.written, right.written⟩⟩

theorem Encodable.inside {depth height : Nat} {typed : List TypedJson} :
    Encodable plainOnly depth (1 + height) typed ↔ depth < 512 ∧ Encodable plainOnly (depth + 1) height typed := by
  constructor
  · rintro ⟨room, plain, written⟩
    exact ⟨by omega, by omega, plain, written⟩
  · rintro ⟨_, room, plain, written⟩
    exact ⟨by omega, plain, written⟩

/-- A list or a dict is encodable where its first part and its others are.
This is the step of the loops over items and over entries. -/
theorem Encodable.more {depth height height' : Nat} {typed typed' : List TypedJson} {room : Prop}
    {x y : Except TclError Bytes}
    {joined : Bytes → Bytes → Bytes} (here : (∃ head, x = .ok head) ↔ Encodable plainOnly depth height typed)
    (there : (room ∧ ∃ tail, y = .ok tail) ↔ Encodable plainOnly depth height' typed') :
    (room ∧ ∃ out, (x.bind fun head => y.map (joined head)) = .ok out) ↔
      Encodable plainOnly depth (max height height') (typed ++ typed') := by
  constructor
  · rintro ⟨room, out, emitted⟩
    obtain ⟨head, emittedHead, later⟩ := Except.bind_ok.mp emitted
    obtain ⟨tail, emittedTail, _⟩ := Except.map_ok.mp later
    exact Encodable.append.mpr ⟨here.mp ⟨head, emittedHead⟩, there.mp ⟨room, tail, emittedTail⟩⟩
  · intro able
    obtain ⟨left, right⟩ := Encodable.append.mp able
    obtain ⟨head, emittedHead⟩ := here.mpr left
    obtain ⟨room, tail, emittedTail⟩ := there.mpr right
    exact ⟨room, _, Except.bind_ok.mpr ⟨head, emittedHead, Except.map_ok.mpr ⟨tail, emittedTail, rfl⟩⟩⟩

mutual

/-- Whether an encoding succeeds is decided by depth and typed values alone:
no string and no number makes it fail. -/
theorem jsonEmit_ok_iff (spec : yy.Spec) : ∀ (v : Obj) (depth : Nat),
    (∃ out, jsonEmit yy plainOnly depth v = .ok out) ↔ Encodable plainOnly depth v.depth v.typedValues
  | .str s, depth => by
    constructor
    · rintro ⟨out, emitted⟩
      have room := (jsonCapped_ok.mp emitted).1
      exact ⟨room, fun _ => rfl, nofun⟩
    · intro able
      exact ⟨_, jsonCapped_ok.mpr ⟨able.room, rfl⟩⟩
  | .typed x, depth => by
    constructor
    · rintro ⟨out, emitted⟩
      obtain ⟨room, typed⟩ := jsonCapped_ok.mp emitted
      obtain ⟨full, written⟩ := jsonEmitTyped_ok.mp typed
      have clean := (jsonNodeWrite_iff spec x).mp ⟨out, written⟩
      have refused : plainOnly = true → [x] = [] := fun only => Bool.noConfusion (full.symm.trans only)
      exact ⟨room, refused, List.forall_mem_singleton.mpr clean⟩
    · intro able
      have full : plainOnly = false := Bool.eq_false_iff.mpr fun only => nomatch able.plain only
      obtain ⟨s, written⟩ := (jsonNodeWrite_iff spec x).mpr (able.written x (List.mem_singleton.mpr rfl))
      exact ⟨s, jsonCapped_ok.mpr ⟨able.room, jsonEmitTyped_ok.mpr ⟨full, written⟩⟩⟩
  | .list items, depth => by
    have inside := jsonEmitItems_ok_iff spec items true depth
    constructor
    · rintro ⟨out, emitted⟩
      obtain ⟨room, mapped⟩ := jsonCapped_ok.mp emitted
      obtain ⟨body, emittedBody, _⟩ := Except.map_ok.mp mapped
      exact Encodable.inside.mpr ⟨room, inside.mp ⟨room, body, emittedBody⟩⟩
    · intro able
      obtain ⟨room, rest⟩ := Encodable.inside.mp able
      obtain ⟨_, body, emittedBody⟩ := inside.mpr rest
      exact ⟨_, jsonCapped_ok.mpr ⟨room, Except.map_ok.mpr ⟨body, emittedBody, rfl⟩⟩⟩
  | .dict entries, depth => by
    have inside := jsonEmitEntries_ok_iff spec entries true depth
    constructor
    · rintro ⟨out, emitted⟩
      obtain ⟨room, mapped⟩ := jsonCapped_ok.mp emitted
      obtain ⟨body, emittedBody, _⟩ := Except.map_ok.mp mapped
      exact Encodable.inside.mpr ⟨room, inside.mp ⟨room, body, emittedBody⟩⟩
    · intro able
      obtain ⟨room, rest⟩ := Encodable.inside.mp able
      obtain ⟨_, body, emittedBody⟩ := inside.mpr rest
      exact ⟨_, jsonCapped_ok.mpr ⟨room, Except.map_ok.mpr ⟨body, emittedBody, rfl⟩⟩⟩

/-- The same for the items of a list, one level deeper. -/
theorem jsonEmitItems_ok_iff (spec : yy.Spec) : ∀ (items : List Obj) (first : Bool) (depth : Nat),
    (depth < 512 ∧ ∃ out, jsonEmitItems yy plainOnly first depth items = .ok out) ↔
      Encodable plainOnly (depth + 1) (depthOfItems items) (typedOfItems items)
  | [], first, depth => by
    constructor
    · rintro ⟨room, _⟩
      exact ⟨room, fun _ => rfl, nofun⟩
    · intro able
      exact ⟨able.room, [], rfl⟩
  | item :: items, first, depth => by
    have here := jsonEmit_ok_iff spec item (depth + 1)
    have there := jsonEmitItems_ok_iff spec items false depth
    exact Encodable.more here there

/-- The same for the entries of a dict, one level deeper. -/
theorem jsonEmitEntries_ok_iff (spec : yy.Spec) : ∀ (entries : List (Bytes × Obj)) (first : Bool) (depth : Nat),
    (depth < 512 ∧ ∃ out, jsonEmitEntries yy plainOnly first depth entries = .ok out) ↔
      Encodable plainOnly (depth + 1) (depthOfEntries entries) (typedOfEntries entries)
  | [], first, depth => by
    constructor
    · rintro ⟨room, _⟩
      exact ⟨room, fun _ => rfl, nofun⟩
    · intro able
      exact ⟨able.room, [], rfl⟩
  | (key, value) :: entries, first, depth => by
    have here := jsonEmit_ok_iff spec value (depth + 1)
    have there := jsonEmitEntries_ok_iff spec entries false depth
    exact Encodable.more here there

end

end

mutual

theorem Obj.tree_numbers : ∀ v : Obj, ∀ literal ∈ v.tree.numbers, Number literal
  | .str s => by
    unfold Obj.tree
    split_ifs with number
    · exact List.forall_mem_singleton.mpr ((jsonIsNumberLiteral_iff s).mp number)
    · exact nofun
  | .list items => treeOfItems_numbers items
  | .dict entries => treeOfEntries_numbers entries
  | .typed x => x.literals

theorem treeOfItems_numbers : ∀ items : List Obj, ∀ literal ∈ numbersOfItems (treeOfItems items), Number literal
  | [] => nofun
  | item :: items => List.forall_mem_append.mpr ⟨Obj.tree_numbers item, treeOfItems_numbers items⟩

theorem treeOfEntries_numbers :
    ∀ entries : List (Bytes × Obj), ∀ literal ∈ numbersOfMembers (treeOfEntries entries), Number literal
  | [] => nofun
  | (_, value) :: entries => List.forall_mem_append.mpr ⟨Obj.tree_numbers value, treeOfEntries_numbers entries⟩

end

mutual

/-- The strings of the tree are those of the typed values, the keys, and the
leaves; a leaf that is a number literal is UTF-8 anyway. -/
theorem Obj.clean_iff : ∀ v : Obj, Clean v.tree ↔
    (∀ x ∈ v.typedValues, Clean x.node) ∧ ∀ s ∈ v.plainStrings, Utf8.WellFormed s
  | .str s => by
    unfold Obj.tree Obj.typedValues Obj.plainStrings
    split_ifs with number
    · have whole := ((jsonIsNumberLiteral_iff s).mp number).wellFormed
      exact ⟨fun _ => ⟨nofun, List.forall_mem_singleton.mpr whole⟩, fun _ => nofun⟩
    · exact ⟨fun clean => ⟨nofun, clean⟩, And.right⟩
  | .typed x => by
    exact ⟨fun clean => ⟨List.forall_mem_singleton.mpr clean, nofun⟩,
      fun both => both.1 x (List.mem_singleton.mpr rfl)⟩
  | .list items => itemsClean_iff items
  | .dict entries => entriesClean_iff entries

/-- The strings of a tree are well formed where those of its typed values
and of its plain ones are. -/
theorem itemsClean_iff : ∀ items : List Obj, (∀ s ∈ stringsOfItems (treeOfItems items), Utf8.WellFormed s) ↔
    (∀ x ∈ typedOfItems items, Clean x.node) ∧ ∀ s ∈ plainStringsOfItems items, Utf8.WellFormed s
  | [] => ⟨fun _ => ⟨nofun, nofun⟩, fun _ => nofun⟩
  | item :: items => by
    have here := Obj.clean_iff item
    have there := itemsClean_iff items
    simp only [treeOfItems, stringsOfItems, typedOfItems, plainStringsOfItems, List.forall_mem_append]
    rw [there, show (∀ s ∈ item.tree.strings, Utf8.WellFormed s) ↔ _ from here]
    exact and_and_and_comm

theorem entriesClean_iff : ∀ entries : List (Bytes × Obj),
    (∀ s ∈ stringsOfMembers (treeOfEntries entries), Utf8.WellFormed s) ↔
      (∀ x ∈ typedOfEntries entries, Clean x.node) ∧ ∀ s ∈ plainStringsOfEntries entries, Utf8.WellFormed s
  | [] => ⟨fun _ => ⟨nofun, nofun⟩, fun _ => nofun⟩
  | (key, value) :: entries => by
    have here := Obj.clean_iff value
    have there := entriesClean_iff entries
    simp only [treeOfEntries, stringsOfMembers, typedOfEntries, plainStringsOfEntries, List.forall_mem_append,
      List.forall_mem_cons, List.cons_append]
    rw [there, show (∀ s ∈ value.tree.strings, Utf8.WellFormed s) ↔ _ from here, and_and_and_comm, and_left_comm]

end

end Machteld
