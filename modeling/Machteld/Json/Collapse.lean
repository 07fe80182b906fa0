import Machteld.Json.RoundTrip

namespace Machteld

open Rfc8259

mutual

/-- The documented losses of a plain decode followed by an encode: booleans
become 1 and 0, null the empty string, a string that is a number literal
that number, and of duplicate members the last value stays. -/
def collapse : Json → Json
  | .null => .string []
  | .bool b => .number (ascii (if b then "1" else "0"))
  | .number literal => .number literal
  | .string text => if jsonIsNumberLiteral text then .number text else .string text
  | .array items => .array (collapseItems items)
  | .object members => .object (collapseMembers [] members)

def collapseItems : List Json → List Json
  | [] => []
  | item :: items => collapse item :: collapseItems items

def collapseMembers (kept : List (Bytes × Json)) : List (Bytes × Json) → List (Bytes × Json)
  | [] => kept
  | (key, item) :: members => collapseMembers (dictPut key (collapse item) kept) members

end

mutual

/-- No array of the tree is empty. -/
def NoEmptyArray : Json → Prop
  | .array items => items ≠ [] ∧ NoEmptyArrayIn items
  | .object members => NoEmptyArrayAmong members
  | _ => True

def NoEmptyArrayIn : List Json → Prop
  | [] => True
  | item :: items => NoEmptyArray item ∧ NoEmptyArrayIn items

def NoEmptyArrayAmong : List (Bytes × Json) → Prop
  | [] => True
  | (_, item) :: members => NoEmptyArray item ∧ NoEmptyArrayAmong members

end

mutual

/-- The tree with every empty array written as the empty string. -/
def blankArrays : Json → Json
  | .array [] => .string []
  | .array (item :: items) => .array (blankArrays item :: blankItems items)
  | .object members => .object (blankMembers members)
  | t => t

def blankItems : List Json → List Json
  | [] => []
  | item :: items => blankArrays item :: blankItems items

def blankMembers : List (Bytes × Json) → List (Bytes × Json)
  | [] => []
  | (key, item) :: members => (key, blankArrays item) :: blankMembers members

end

mutual

/-- Turning empty arrays into strings changes a tree exactly where it has
one. -/
theorem blankArrays_same : ∀ t : Json, blankArrays t = t ↔ NoEmptyArray t
  | .null => ⟨fun _ => trivial, fun _ => rfl⟩
  | .bool _ => ⟨fun _ => trivial, fun _ => rfl⟩
  | .number _ => ⟨fun _ => trivial, fun _ => rfl⟩
  | .string _ => ⟨fun _ => trivial, fun _ => rfl⟩
  | .array [] => ⟨nofun, fun full => absurd rfl full.1⟩
  | .array (item :: items) => by
    have head := blankArrays_same item
    have tail := blankItems_same items
    simp only [blankArrays, Json.array.injEq, List.cons.injEq, head, tail]
    exact ⟨fun both => ⟨nofun, both⟩, And.right⟩
  | .object members => by
    have inside := blankMembers_same members
    simp only [blankArrays, Json.object.injEq, inside]
    exact Iff.rfl

theorem blankItems_same : ∀ items : List Json, blankItems items = items ↔ NoEmptyArrayIn items
  | [] => ⟨fun _ => trivial, fun _ => rfl⟩
  | item :: items => by
    simp only [blankItems, List.cons.injEq, blankArrays_same item, blankItems_same items]
    exact Iff.rfl

theorem blankMembers_same : ∀ members : List (Bytes × Json), blankMembers members = members ↔
    NoEmptyArrayAmong members
  | [] => ⟨fun _ => trivial, fun _ => rfl⟩
  | (key, item) :: members => by
    simp only [blankMembers, List.cons.injEq, Prod.mk.injEq, true_and, blankArrays_same item,
      blankMembers_same members]
    exact Iff.rfl

end

theorem blankMembers_map (members : List (Bytes × Json)) :
    blankMembers members = members.map (Prod.map id blankArrays) := by
  induction members with
  | nil => rfl
  | cons member members ih => simp only [blankMembers, ih, List.map_cons, Prod.map, id]

theorem treeOfEntries_map (entries : List (Bytes × Obj)) :
    treeOfEntries entries = entries.map (Prod.map id Obj.tree) := by
  induction entries with
  | nil => rfl
  | cons entry entries ih => simp only [treeOfEntries, ih, List.map_cons, Prod.map, id]

mutual

/-- A decoded value has the collapsed tree, but for its empty arrays. -/
theorem yyToTcl_tree : ∀ {t : Json} {depth : Nat} {v : Obj}, (∀ literal ∈ t.numbers, Number literal) →
    yyToTcl depth t = some v → v.tree = blankArrays (collapse t)
  | .null, depth, v, _, decoded => by
    simp only [yyToTcl, Option.ite_none_left_eq_some, Option.some.injEq] at decoded
    obtain ⟨_, rfl⟩ := decoded
    rfl
  | .bool b, depth, v, _, decoded => by
    simp only [yyToTcl, Option.ite_none_left_eq_some, Option.some.injEq] at decoded
    obtain ⟨_, rfl⟩ := decoded
    cases b <;> rfl
  | .number literal, depth, v, numbers, decoded => by
    simp only [yyToTcl, Option.ite_none_left_eq_some, Option.some.injEq] at decoded
    obtain ⟨_, rfl⟩ := decoded
    have number := numbers literal (List.mem_singleton.mpr rfl)
    simp only [Obj.tree, if_pos ((jsonIsNumberLiteral_iff literal).mpr number), collapse, blankArrays]
  | .string text, depth, v, _, decoded => by
    simp only [yyToTcl, Option.ite_none_left_eq_some, Option.some.injEq] at decoded
    obtain ⟨_, rfl⟩ := decoded
    unfold Obj.tree collapse
    split_ifs <;> rfl
  | .array items, depth, v, numbers, decoded => by
    simp only [yyToTcl, Option.ite_none_left_eq_some, Option.map_eq_some_iff] at decoded
    obtain ⟨_, os, inside, rfl⟩ := decoded
    have trees := yyItemsToTcl_tree numbers inside
    match os, items with
    | [], [] => rfl
    | o :: os, item :: items =>
      simp only [newListObj, Obj.tree, trees, collapse, collapseItems, blankItems, blankArrays]
  | .object members, depth, v, numbers, decoded => by
    simp only [yyToTcl, Option.ite_none_left_eq_some, Option.map_eq_some_iff] at decoded
    obtain ⟨_, entries, inside, rfl⟩ := decoded
    have start : treeOfEntries [] = blankMembers [] := rfl
    have trees := yyMembersToTcl_tree numbers inside start
    simp only [Obj.tree, trees, collapse, blankArrays]

/-- The tree of a decoded array is that of the text with equal keys
collapsed and empty arrays blank. -/
theorem yyItemsToTcl_tree : ∀ {items : List Json} {depth : Nat} {os : List Obj},
    (∀ literal ∈ numbersOfItems items, Number literal) → yyItemsToTcl depth items = some os →
      treeOfItems os = blankItems (collapseItems items)
  | [], depth, os, _, decoded => by
    obtain rfl := Option.some.inj decoded
    rfl
  | item :: items, depth, os, numbers, decoded => by
    obtain ⟨o, first, later⟩ := Option.bind_eq_some_iff.mp decoded
    obtain ⟨rest, others, rfl⟩ := Option.map_eq_some_iff.mp later
    have fine := List.forall_mem_append.mp numbers
    simp only [treeOfItems, yyToTcl_tree fine.1 first, yyItemsToTcl_tree fine.2 others, collapseItems, blankItems]

/-- Of equal keys the dict keeps the last value at the place of the first
one. -/
theorem yyMembersToTcl_tree : ∀ {members kept : List (Bytes × Json)} {depth : Nat}
    {before entries : List (Bytes × Obj)},
    (∀ literal ∈ numbersOfMembers members, Number literal) → yyMembersToTcl depth before members = some entries →
      treeOfEntries before = blankMembers kept → treeOfEntries entries = blankMembers (collapseMembers kept members)
  | [], kept, depth, before, entries, _, decoded, trees => by
    obtain rfl := Option.some.inj decoded
    exact trees
  | (key, item) :: members, kept, depth, before, entries, numbers, decoded, trees => by
    obtain ⟨o, first, later⟩ := Option.bind_eq_some_iff.mp decoded
    have fine := List.forall_mem_append.mp numbers
    have tree := yyToTcl_tree fine.1 first
    have put : treeOfEntries (dictPut key o before) = blankMembers (dictPut key (collapse item) kept) := by
      rw [treeOfEntries_map, map_dictPut, ← treeOfEntries_map, trees, tree, blankMembers_map, blankMembers_map,
        map_dictPut]
    have rest := yyMembersToTcl_tree fine.2 later put
    exact rest

end

/-- Plain decode and encode keep the collapsed tree of a text exactly when
no array that is left in it is empty. -/
theorem jsonEncode_collapse_iff {yy : Yyjson} (spec : yy.Spec) (tcl : Tcl) {s : Bytes} {t : Json} {v : Obj}
    {args : List Obj} (text : Text t s) (decoded : jsonDecode yy tcl s = .ok v) (call : PlainCall yy tcl args v) :
    (∃ out, jsonEncode yy tcl args = .ok out ∧ Text (collapse t) out) ↔ NoEmptyArray (collapse t) := by
  obtain ⟨t', text', value⟩ := (jsonDecode_ok_iff spec tcl).mp decoded
  obtain rfl := text_unique text text'
  have tree := yyToTcl_tree text.sane.numbers value
  have fits := yyToTcl_fits text.sane.numbers text.strings value
  obtain ⟨out, emitted, spelled⟩ := (fits.emitted spec : ∃ out, jsonEmit yy false 0 v = .ok out ∧ Text v.tree out)
  have encoded : jsonEncode yy tcl args = .ok out := by rw [call.encode, emitted]
  rw [← blankArrays_same, ← tree]
  constructor
  · rintro ⟨out', encoded', spelled'⟩
    obtain rfl := Except.ok.inj (encoded.symm.trans encoded')
    exact text_unique spelled spelled'
  · exact fun same => ⟨out, encoded, same ▸ spelled⟩

theorem jsonEncode_collapse_empty :
    Text (.array []) (ascii "[]") ∧ jsonDecode referenceYyjson strictTcl (ascii "[]") = .ok (.str []) ∧
      jsonEncode referenceYyjson strictTcl [.str (ascii "--"), .str []] = .ok [dquote, dquote] ∧
      ¬ Text (collapse (.array [])) [dquote, dquote] := by
  refine ⟨⟨by decide, .bare ⟨[], rfl, Ws.nil⟩⟩, rfl, rfl, ?_⟩
  intro text
  have empty : Text (.string []) [dquote, dquote] := ⟨by decide, .bare ⟨[], rfl, .nil⟩⟩
  cases text_unique text empty

/-- An empty array in a member that another one of the same name replaces.
-/
def replacedArray : Json :=
  .object [(ascii "a", .array []), (ascii "a", .object [(ascii "b", .array [.number (ascii "1"), .bool true])])]

def replacedValue : Obj := .dict [(ascii "a", .dict [(ascii "b", .list [.str (ascii "1"), .str (ascii "1")])])]

theorem replacedArray_text : Text replacedArray (compact jsonEscape replacedArray) := by
  have names : ∀ text ∈ [ascii "a", ascii "a", ascii "b"], Utf8.WellFormed text := by decide
  exact jsonEscape_spelling.text (List.forall_mem_singleton.mpr ((jsonIsNumberLiteral_iff _).mp (by decide))) names

theorem jsonEncode_collapse_object :
    jsonDecode referenceYyjson strictTcl (compact jsonEscape replacedArray) = .ok replacedValue ∧
      ∃ out, jsonEncode referenceYyjson strictTcl [.str (ascii "--"), replacedValue] = .ok out ∧
        Text (collapse replacedArray) out := by
  have decoded : jsonDecode referenceYyjson strictTcl (compact jsonEscape replacedArray) = .ok replacedValue :=
    (jsonDecode_ok_iff referenceYyjson_spec strictTcl).mpr ⟨replacedArray, replacedArray_text, rfl⟩
  refine ⟨decoded, (jsonEncode_collapse_iff referenceYyjson_spec strictTcl replacedArray_text decoded
    (Or.inl rfl)).mpr ?_⟩
  exact ⟨⟨⟨List.cons_ne_nil _ _, trivial, trivial, trivial⟩, trivial⟩, trivial⟩

end Machteld
