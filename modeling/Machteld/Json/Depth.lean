import Machteld.Json.Strict

namespace Machteld

open Rfc8259

/-- No item is deeper than its array. -/
theorem depthOfJsonItems_le {items : List Json} {c : Json} (member : c ∈ items) :
    c.depth ≤ depthOfJsonItems items := by
  induction items with
  | nil => cases member
  | cons item items ih =>
    rw [depthOfJsonItems]
    rcases List.mem_cons.mp member with rfl | later
    · exact Nat.le_max_left ..
    · exact Nat.le_trans (ih later) (Nat.le_max_right ..)

/-- No member is deeper than its object. -/
theorem depthOfJsonMembers_le {members : List (Bytes × Json)} {c : Json} (member : c ∈ members.map Prod.snd) :
    c.depth ≤ depthOfJsonMembers members := by
  induction members with
  | nil => cases member
  | cons entry members ih =>
    rw [depthOfJsonMembers]
    rcases List.mem_cons.mp member with rfl | later
    · exact Nat.le_max_left ..
    · exact Nat.le_trans (ih later) (Nat.le_max_right ..)

/-- A child is less deep than its parent, which is what the walks are measured by.
-/
theorem Json.depth_child {t c : Json} (inside : c ∈ t.children) : c.depth < t.depth := by
  cases t with
  | array items =>
    have below : c.depth ≤ depthOfJsonItems items := depthOfJsonItems_le inside
    rw [Json.depth]
    omega
  | object members =>
    have below : c.depth ≤ depthOfJsonMembers members := depthOfJsonMembers_le inside
    rw [Json.depth]
    omega
  | _ => cases inside

theorem leaf_some {depth : Nat} {v : Obj} :
    (∃ w, (if jsonMaxDepth ≤ depth then none else some v) = some w) ↔ depth + 1 ≤ 512 := by
  by_cases deep : jsonMaxDepth ≤ depth
  · have cap : 512 ≤ depth := deep
    rw [if_pos deep]
    refine iff_of_false ?_ (by omega)
    rintro ⟨w, missing⟩
    cases missing
  · have cap : ¬ 512 ≤ depth := deep
    rw [if_neg deep]
    exact iff_of_true ⟨v, rfl⟩ (by omega)

/-- A container at a depth is walked when there is room for it and for what
is in it. -/
theorem container_some {α : Type} {depth : Nat} {inner : Option α} {f : α → Obj} {empty : Prop} {height : Nat}
    (walked : (∃ a, inner = some a) ↔ empty ∨ depth + 1 + height ≤ 512) (low : empty → height = 0) :
    (∃ w, (if jsonMaxDepth ≤ depth then none else inner.map f) = some w) ↔ depth + (1 + height) ≤ 512 := by
  by_cases deep : jsonMaxDepth ≤ depth
  · have cap : 512 ≤ depth := deep
    rw [if_pos deep]
    refine iff_of_false ?_ (by omega)
    rintro ⟨w, missing⟩
    cases missing
  · have cap : ¬ 512 ≤ depth := deep
    rw [if_neg deep]
    constructor
    · rintro ⟨w, mapped⟩
      obtain ⟨a, found, _⟩ := Option.map_eq_some_iff.mp mapped
      rcases walked.mp ⟨a, found⟩ with hollow | room
      · have flat := low hollow
        omega
      · omega
    · intro room
      obtain ⟨a, found⟩ := walked.mpr (.inr (by omega))
      exact ⟨f a, by rw [found]; rfl⟩

mutual

/-- The plain reader fails exactly on what is nested too deeply. -/
theorem yyToTcl_some : ∀ (t : Json) (depth : Nat), (∃ v, yyToTcl depth t = some v) ↔ depth + t.depth ≤ 512
  | .null, _ => leaf_some
  | .bool _, _ => leaf_some
  | .number _, _ => leaf_some
  | .string _, _ => leaf_some
  | .array items, depth => by
    rw [yyToTcl, Json.depth]
    exact container_some (yyItemsToTcl_some items (depth + 1)) fun empty => by rw [empty, depthOfJsonItems]
  | .object members, depth => by
    rw [yyToTcl, Json.depth]
    exact container_some (yyMembersToTcl_some members (depth + 1) []) fun empty => by rw [empty, depthOfJsonMembers]

/-- The items of an array are converted where the deepest of them stays within the
limit. The walk fails at the first that does not, so the bound is on the maximum.
-/
theorem yyItemsToTcl_some : ∀ (items : List Json) (depth : Nat),
    (∃ os, yyItemsToTcl depth items = some os) ↔ items = [] ∨ depth + depthOfJsonItems items ≤ 512
  | [], _ => iff_of_true ⟨[], rfl⟩ (.inl rfl)
  | item :: items, depth => by
    rw [yyItemsToTcl, depthOfJsonItems, or_iff_right (List.cons_ne_nil _ _)]
    have here := yyToTcl_some item depth
    have later := yyItemsToTcl_some items depth
    constructor
    · rintro ⟨os, walked⟩
      obtain ⟨o, first, rest⟩ := Option.bind_eq_some_iff.mp walked
      obtain ⟨os', others, _⟩ := Option.map_eq_some_iff.mp rest
      have room := here.mp ⟨o, first⟩
      rcases later.mp ⟨os', others⟩ with rfl | rooms
      · rw [depthOfJsonItems]
        omega
      · omega
    · intro room
      obtain ⟨o, first⟩ := here.mpr (by omega)
      obtain ⟨os, others⟩ := later.mpr (.inr (by omega))
      exact ⟨o :: os, by rw [first, Option.bind_some, others, Option.map_some]⟩

/-- The members of an object are converted where the deepest of them stays
within the limit, whatever their keys are. -/
theorem yyMembersToTcl_some : ∀ (members : List (Bytes × Json)) (depth : Nat) (entries : List (Bytes × Obj)),
    (∃ es, yyMembersToTcl depth entries members = some es) ↔ members = [] ∨ depth + depthOfJsonMembers members ≤ 512
  | [], _, entries => iff_of_true ⟨entries, rfl⟩ (.inl rfl)
  | (key, item) :: members, depth, entries => by
    rw [yyMembersToTcl, depthOfJsonMembers, or_iff_right (List.cons_ne_nil _ _)]
    have here := yyToTcl_some item depth
    constructor
    · rintro ⟨es, walked⟩
      obtain ⟨o, first, rest⟩ := Option.bind_eq_some_iff.mp walked
      have room := here.mp ⟨o, first⟩
      rcases (yyMembersToTcl_some members depth _).mp ⟨es, rest⟩ with rfl | rooms
      · rw [depthOfJsonMembers]
        omega
      · omega
    · intro room
      obtain ⟨o, first⟩ := here.mpr (by omega)
      obtain ⟨es, others⟩ := (yyMembersToTcl_some members depth (dictPut key o entries)).mpr (.inr (by omega))
      exact ⟨es, by rw [first, Option.bind_some, others]⟩

end

mutual

/-- The two readers of a document agree. -/
theorem yyMutToTcl_eq : ∀ (t : Json) (depth : Nat), yyMutToTcl depth t = yyToTcl depth t
  | .null, _ => rfl
  | .bool _, _ => rfl
  | .number _, _ => rfl
  | .string _, _ => rfl
  | .array items, depth => by rw [yyMutToTcl, yyToTcl, yyMutItemsToTcl_eq items]
  | .object members, depth => by rw [yyMutToTcl, yyToTcl, yyMutMembersToTcl_eq members]

/-- The walk over a mutable document is the walk over an immutable one, item
by item. -/
theorem yyMutItemsToTcl_eq :
    ∀ (items : List Json) (depth : Nat), yyMutItemsToTcl depth items = yyItemsToTcl depth items
  | [], _ => rfl
  | item :: items, depth => by rw [yyMutItemsToTcl, yyItemsToTcl, yyMutToTcl_eq item, yyMutItemsToTcl_eq items]

theorem yyMutMembersToTcl_eq : ∀ (members : List (Bytes × Json)) (depth : Nat) (entries : List (Bytes × Obj)),
    yyMutMembersToTcl depth entries members = yyMembersToTcl depth entries members
  | [], _, _ => rfl
  | (key, item) :: members, depth, entries => by
    rw [yyMutMembersToTcl, yyMembersToTcl, yyMutToTcl_eq item]
    exact congrArg _ (funext fun o => yyMutMembersToTcl_eq members depth (dictPut key o entries))

end

theorem TypedJson.plainValue_eq (x : TypedJson) : x.plainValue = yyToTcl 0 x.node := by
  unfold TypedJson.plainValue
  split
  · rfl
  · rw [yyMutToTcl_eq]

/-- A typed value unwraps exactly when it is within the cap. -/
theorem jsonUnwrap_ok (x : TypedJson) : (∃ v, jsonUnwrap (.typed x) = .ok v) ↔ x.node.depth ≤ 512 := by
  have plain := yyToTcl_some x.node 0
  rw [Nat.zero_add] at plain
  rw [← plain, jsonUnwrap, x.plainValue_eq]
  cases yyToTcl 0 x.node with
  | none =>
    refine iff_of_false ?_ ?_
    · rintro ⟨w, failed⟩
      cases failed
    · rintro ⟨w, missing⟩
      cases missing
  | some v => exact iff_of_true ⟨v, rfl⟩ ⟨v, rfl⟩

theorem strictCapped_tooDeep {depth : Nat} {check : Except StrictFault Unit}
    (failed : strictCapped depth check = .error .tooDeep) : 512 ≤ depth ∨ check = .error .tooDeep := by
  unfold strictCapped at failed
  split_ifs at failed with deep
  · exact .inl deep
  · exact .inr failed

mutual

/-- The strict check says too deep only of what is. -/
theorem jsonCheckStrict_tooDeep : ∀ {t : Json} {depth : Nat}, jsonCheckStrict depth t = .error .tooDeep →
    512 < depth + t.depth
  | .null, depth, failed => by
    have deep := (strictCapped_tooDeep failed).resolve_right nofun
    rw [Json.depth]
    · omega
    all_goals exact nofun
  | .bool _, depth, failed => by
    have deep := (strictCapped_tooDeep failed).resolve_right nofun
    rw [Json.depth]
    · omega
    all_goals exact nofun
  | .number _, depth, failed => by
    have deep := (strictCapped_tooDeep failed).resolve_right nofun
    rw [Json.depth]
    · omega
    all_goals exact nofun
  | .string _, depth, failed => by
    have deep := (strictCapped_tooDeep failed).resolve_right nofun
    rw [Json.depth]
    · omega
    all_goals exact nofun
  | .array items, depth, failed => by
    rw [Json.depth]
    rcases strictCapped_tooDeep failed with deep | inside
    · omega
    · have below := jsonCheckItems_tooDeep inside
      omega
  | .object members, depth, failed => by
    rw [Json.depth]
    rcases strictCapped_tooDeep failed with deep | inside
    · omega
    · rcases Except.bind_error inside with duplicate | ⟨_, _, walked⟩
      · rw [checkDuplicate] at duplicate
        split at duplicate <;> cases duplicate
      · have below := jsonCheckMembers_tooDeep walked
        omega

/-- The strict walk refuses a depth only where it is too deep. -/
theorem jsonCheckItems_tooDeep : ∀ {items : List Json} {depth : Nat}, jsonCheckItems depth items = .error .tooDeep →
    512 < depth + depthOfJsonItems items
  | [], _, failed => nomatch failed
  | item :: items, depth, failed => by
    rw [depthOfJsonItems]
    rcases Except.bind_error failed with here | ⟨_, _, later⟩
    · have deep := jsonCheckStrict_tooDeep here
      omega
    · have deep := jsonCheckItems_tooDeep later
      omega

theorem jsonCheckMembers_tooDeep : ∀ {members : List (Bytes × Json)} {depth : Nat},
    jsonCheckMembers depth members = .error .tooDeep → 512 < depth + depthOfJsonMembers members
  | [], _, failed => nomatch failed
  | (_, item) :: members, depth, failed => by
    rw [depthOfJsonMembers]
    rcases Except.bind_error failed with here | ⟨_, _, later⟩
    · have deep := jsonCheckStrict_tooDeep here
      omega
    · have deep := jsonCheckMembers_tooDeep later
      omega

end

mutual

/-- What the constructor walk makes is the tree of the value. -/
theorem jsonBuildMut_tree : ∀ {v : Obj} {depth : Nat} {m : MutNode}, jsonBuildMut depth v = .ok m → m.node = v.tree
  | .str _, depth, m, built => by
    rw [jsonBuildMut, jsonBuildCapped] at built
    split_ifs at built
  | .typed x, depth, m, built => by
    rw [jsonBuildMut, jsonBuildCapped] at built
    split_ifs at built
    obtain rfl := Except.ok.inj built
    rfl
  | .list items, depth, m, built => by
    rw [jsonBuildMut, jsonBuildCapped] at built
    split_ifs at built
    obtain ⟨ms, inside, rfl⟩ := Except.map_ok.mp built
    rw [Obj.tree, ← jsonBuildItems_tree inside]
    rfl
  | .dict entries, depth, m, built => by
    rw [jsonBuildMut, jsonBuildCapped] at built
    split_ifs at built
    obtain ⟨ms, inside, rfl⟩ := Except.map_ok.mp built
    rw [Obj.tree, ← jsonBuildEntries_tree inside]
    rfl

/-- What is built of a list is the tree of its items. -/
theorem jsonBuildItems_tree : ∀ {items : List Obj} {depth : Nat} {ms : List MutNode},
    jsonBuildItems depth items = .ok ms → ms.map MutNode.node = treeOfItems items
  | [], _, _, built => by
    obtain rfl := Except.ok.inj built
    rfl
  | item :: items, depth, ms, built => by
    obtain ⟨m, here, rest⟩ := Except.bind_ok.mp built
    obtain ⟨others, later, rfl⟩ := Except.map_ok.mp rest
    rw [List.map_cons, jsonBuildMut_tree here, jsonBuildItems_tree later, treeOfItems]

/-- What is built of a dict is the tree of its entries. -/
theorem jsonBuildEntries_tree : ∀ {entries : List (Bytes × Obj)} {depth : Nat} {ms : List (Bytes × MutNode)},
    jsonBuildEntries depth entries = .ok ms → (ms.map fun m => (m.1, m.2.node)) = treeOfEntries entries
  | [], _, _, built => by
    obtain rfl := Except.ok.inj built
    rfl
  | (key, value) :: entries, depth, ms, built => by
    obtain ⟨m, here, rest⟩ := Except.bind_ok.mp built
    obtain ⟨others, later, rfl⟩ := Except.map_ok.mp rest
    rw [List.map_cons, jsonBuildMut_tree here, jsonBuildEntries_tree later, treeOfEntries]

end

theorem jsonBuildCapped_ok {α : Type} {depth : Nat} {build : Except Bytes α} {a : α} :
    jsonBuildCapped depth build = .ok a ↔ depth < 512 ∧ build = .ok a := by
  unfold jsonBuildCapped jsonMaxDepth
  split_ifs with deep
  · exact ⟨nofun, fun both => absurd both.1 (Nat.not_lt.mpr deep)⟩
  · exact ⟨fun same => ⟨Nat.lt_of_not_le deep, same⟩, And.right⟩

mutual

/-- The walk counts the plain levels. -/
theorem jsonBuildMut_room : ∀ {v : Obj} {depth : Nat} {m : MutNode}, jsonBuildMut depth v = .ok m →
    depth + v.depth ≤ 512
  | .str _, depth, m, built => (jsonBuildCapped_ok.mp built).1
  | .typed _, depth, m, built => (jsonBuildCapped_ok.mp built).1
  | .list items, depth, m, built => by
    obtain ⟨room, inside⟩ := jsonBuildCapped_ok.mp built
    obtain ⟨ms, walked, _⟩ := Except.map_ok.mp inside
    have below := jsonBuildItems_room walked room
    rw [Obj.depth]
    omega
  | .dict entries, depth, m, built => by
    obtain ⟨room, inside⟩ := jsonBuildCapped_ok.mp built
    obtain ⟨ms, walked, _⟩ := Except.map_ok.mp inside
    have below := jsonBuildEntries_room walked room
    rw [Obj.depth]
    omega

/-- What is built was within the limit, typed values apart. -/
theorem jsonBuildItems_room : ∀ {items : List Obj} {depth : Nat} {ms : List MutNode},
    jsonBuildItems depth items = .ok ms → depth ≤ 512 → depth + depthOfItems items ≤ 512
  | [], _, _, _, room => room
  | item :: items, depth, ms, built, room => by
    obtain ⟨m, here, rest⟩ := Except.bind_ok.mp built
    obtain ⟨others, later, _⟩ := Except.map_ok.mp rest
    have first := jsonBuildMut_room here
    have tail := jsonBuildItems_room later room
    rw [depthOfItems]
    omega

theorem jsonBuildEntries_room : ∀ {entries : List (Bytes × Obj)} {depth : Nat} {ms : List (Bytes × MutNode)},
    jsonBuildEntries depth entries = .ok ms → depth ≤ 512 → depth + depthOfEntries entries ≤ 512
  | [], _, _, _, room => room
  | (_, value) :: entries, depth, ms, built, room => by
    obtain ⟨m, here, rest⟩ := Except.bind_ok.mp built
    obtain ⟨others, later, _⟩ := Except.map_ok.mp rest
    have first := jsonBuildMut_room here
    have tail := jsonBuildEntries_room later room
    rw [depthOfEntries]
    omega

end

mutual

/-- Every typed value inside a value is within the cap where it stands. -/
def Obj.TypedFit : Nat → Obj → Prop
  | _, .str _ => True
  | depth, .list items => TypedItemsFit (depth + 1) items
  | depth, .dict entries => TypedEntriesFit (depth + 1) entries
  | depth, .typed x => depth + x.node.depth ≤ 512

def TypedItemsFit : Nat → List Obj → Prop
  | _, [] => True
  | depth, item :: items => item.TypedFit depth ∧ TypedItemsFit depth items

def TypedEntriesFit : Nat → List (Bytes × Obj) → Prop
  | _, [] => True
  | depth, (_, value) :: entries => value.TypedFit depth ∧ TypedEntriesFit depth entries

end

mutual

/-- Where the plain levels are within the cap, what the value stands for is
exactly when its typed values fit. -/
theorem Obj.tree_depth :
    ∀ {v : Obj} {depth : Nat}, depth + v.depth ≤ 512 → (depth + v.tree.depth ≤ 512 ↔ v.TypedFit depth)
  | .str s, depth, room => by
    have leaf : (Obj.str s).tree.depth = 1 := by
      rw [Obj.tree]
      split_ifs <;> rfl
    rw [leaf]
    exact iff_of_true room trivial
  | .typed _, _, _ => Iff.rfl
  | .list items, depth, room => by
    rw [Obj.depth] at room
    have inside := @treeOfItems_depth items (depth + 1) (by omega)
    rw [Obj.tree, Json.depth, ← Nat.add_assoc]
    exact inside
  | .dict entries, depth, room => by
    rw [Obj.depth] at room
    have inside := @treeOfEntries_depth entries (depth + 1) (by omega)
    rw [Obj.tree, Json.depth, ← Nat.add_assoc]
    exact inside

/-- The tree of a list is within the limit where its typed values fit in at
their places. -/
theorem treeOfItems_depth : ∀ {items : List Obj} {depth : Nat}, depth + depthOfItems items ≤ 512 →
    (depth + depthOfJsonItems (treeOfItems items) ≤ 512 ↔ TypedItemsFit depth items)
  | [], _, room => iff_of_true room trivial
  | item :: items, depth, room => by
    rw [depthOfItems] at room
    have here := @Obj.tree_depth item depth (by omega)
    have later := @treeOfItems_depth items depth (by omega)
    rw [treeOfItems, depthOfJsonItems, TypedItemsFit, ← here, ← later]
    omega

/-- The tree of a dict is within the limit where its typed values fit in at
their places. -/
theorem treeOfEntries_depth : ∀ {entries : List (Bytes × Obj)} {depth : Nat}, depth + depthOfEntries entries ≤ 512 →
    (depth + depthOfJsonMembers (treeOfEntries entries) ≤ 512 ↔ TypedEntriesFit depth entries)
  | [], _, room => iff_of_true room trivial
  | (_, value) :: entries, depth, room => by
    rw [depthOfEntries] at room
    have here := @Obj.tree_depth value depth (by omega)
    have later := @treeOfEntries_depth entries depth (by omega)
    rw [treeOfEntries, depthOfJsonMembers, TypedEntriesFit, ← here, ← later]
    omega

end

theorem typedOfEntries_dictPut {key : Bytes} {o : Obj} (plain : o.typedValues = []) :
    ∀ {entries : List (Bytes × Obj)}, typedOfEntries entries = [] → typedOfEntries (dictPut key o entries) = []
  | [], _ => by rw [dictPut, typedOfEntries, plain, typedOfEntries, List.append_nil]
  | (k, value) :: entries, untyped => by
    obtain ⟨here, later⟩ := List.append_eq_nil_iff.mp untyped
    rw [dictPut]
    split_ifs with same
    · rw [typedOfEntries, plain, later, List.append_nil]
    · rw [typedOfEntries, here, typedOfEntries_dictPut plain later, List.append_nil]

mutual

/-- What is read as plain values has no typed value in it. -/
theorem yyToTcl_untyped : ∀ {t : Json} {depth : Nat} {v : Obj}, yyToTcl depth t = some v → v.typedValues = []
  | .null, _, _, walked => Option.some.inj (Option.ite_none_left_eq_some.mp walked).2 ▸ rfl
  | .bool _, _, _, walked => Option.some.inj (Option.ite_none_left_eq_some.mp walked).2 ▸ rfl
  | .number _, _, _, walked => Option.some.inj (Option.ite_none_left_eq_some.mp walked).2 ▸ rfl
  | .string _, _, _, walked => Option.some.inj (Option.ite_none_left_eq_some.mp walked).2 ▸ rfl
  | .array items, depth, v, walked => by
    obtain ⟨_, inside⟩ := Option.ite_none_left_eq_some.mp walked
    obtain ⟨os, read, rfl⟩ := Option.map_eq_some_iff.mp inside
    have plain := yyItemsToTcl_untyped read
    cases os with
    | nil => rfl
    | cons o os => exact plain
  | .object members, depth, v, walked => by
    obtain ⟨_, inside⟩ := Option.ite_none_left_eq_some.mp walked
    obtain ⟨es, read, rfl⟩ := Option.map_eq_some_iff.mp inside
    exact yyMembersToTcl_untyped read rfl

theorem yyItemsToTcl_untyped : ∀ {items : List Json} {depth : Nat} {os : List Obj},
    yyItemsToTcl depth items = some os → typedOfItems os = []
  | [], _, _, walked => Option.some.inj walked ▸ rfl
  | item :: items, depth, os, walked => by
    obtain ⟨o, first, rest⟩ := Option.bind_eq_some_iff.mp walked
    obtain ⟨others, later, rfl⟩ := Option.map_eq_some_iff.mp rest
    rw [typedOfItems, yyToTcl_untyped first, yyItemsToTcl_untyped later, List.append_nil]

theorem yyMembersToTcl_untyped : ∀ {members : List (Bytes × Json)} {depth : Nat}
    {before entries : List (Bytes × Obj)},
    yyMembersToTcl depth before members = some entries → typedOfEntries before = [] → typedOfEntries entries = []
  | [], _, _, _, walked, untyped => Option.some.inj walked ▸ untyped
  | (key, item) :: members, depth, before, entries, walked, untyped => by
    obtain ⟨o, first, rest⟩ := Option.bind_eq_some_iff.mp walked
    exact yyMembersToTcl_untyped rest (typedOfEntries_dictPut (yyToTcl_untyped first) untyped)

end

end Machteld
