import Machteld.Json.Session

namespace Machteld

open Rfc8259

section

variable (yy : Yyjson) (tcl : Tcl) (words : TclWords)

/-- One step into a plain value: a key of a dict or an index of a list. -/
def plainStep (step : Obj) : Obj → Option Obj
  | .dict entries => dictGet (getString yy tcl step) entries
  | .list items =>
    match words.wideInt step with
    | none => none
    | some i => if i < 0 then none else items[i.toNat]?
  | _ => none

/-- The value a path leads to in a plain value. -/
def navigate : Obj → List Obj → Option Obj
  | v, [] => some v
  | v, step :: path => (plainStep yy tcl words step v).bind fun w => navigate w path

end

/-- What Tcl keeps when it reads a value as a list or a dict: the objects in
it, and each key of a dict once. -/
structure Tcl.Keeps (tcl : Tcl) : Prop where
  list_typed : ∀ v items, tcl.listOf v = .ok items → typedOfItems items ⊆ v.typedValues
  dict_typed : ∀ v entries, tcl.dictOf v = .ok entries → typedOfEntries entries ⊆ v.typedValues
  list_lawful : ∀ v items, v.Lawful → tcl.listOf v = .ok items → LawfulItems items
  dict_lawful : ∀ v entries, v.Lawful → tcl.dictOf v = .ok entries → (Obj.dict entries).Lawful

section

variable {tcl : Tcl}

theorem Tcl.Keeps.list_inside (keeps : tcl.Keeps) {v : Obj} {items : List Obj}
    (read : listElements tcl v = .ok items) :
    typedOfItems items ⊆ v.typedValues := by
  unfold listElements at read
  split at read
  · exact Except.ok.inj read ▸ List.Subset.refl _
  · exact keeps.list_typed _ _ read

theorem Tcl.Keeps.dict_inside (keeps : tcl.Keeps) {v : Obj} {entries : List (Bytes × Obj)}
    (read : dictEntries tcl v = .ok entries) : typedOfEntries entries ⊆ v.typedValues := by
  unfold dictEntries at read
  split at read
  · exact Except.ok.inj read ▸ List.Subset.refl _
  · exact keeps.dict_typed _ _ read

theorem Tcl.Keeps.list_fine (keeps : tcl.Keeps) {v : Obj} {items : List Obj} (lawful : v.Lawful)
    (read : listElements tcl v = .ok items) : LawfulItems items := by
  unfold listElements at read
  split at read
  · exact Except.ok.inj read ▸ lawful
  · exact keeps.list_lawful _ _ lawful read

theorem Tcl.Keeps.dict_fine (keeps : tcl.Keeps) {v : Obj} {entries : List (Bytes × Obj)} (lawful : v.Lawful)
    (read : dictEntries tcl v = .ok entries) : (Obj.dict entries).Lawful := by
  unfold dictEntries at read
  split at read
  · exact Except.ok.inj read ▸ lawful
  · exact keeps.dict_lawful _ _ lawful read

end

mutual

/-- A value whose dicts and typed parts have each key once stands for such a
document. -/
theorem Obj.tree_noDuplicates : ∀ {v : Obj}, v.Lawful → (∀ x ∈ v.typedValues, x.node.NoDuplicates) →
    v.tree.NoDuplicates
  | .str s, _, _ => by
    rw [Obj.tree]
    split_ifs <;> exact trivial
  | .typed x, _, typed => typed x (List.mem_singleton.mpr rfl)
  | .list _, lawful, typed => treeOfItems_noDuplicates lawful typed
  | .dict entries, lawful, typed =>
    ⟨(treeOfEntries_keys entries).symm ▸ lawful.1, treeOfEntries_noDuplicates lawful.2 typed⟩

theorem treeOfItems_noDuplicates : ∀ {items : List Obj}, LawfulItems items →
    (∀ x ∈ typedOfItems items, x.node.NoDuplicates) → NoDuplicatesIn (treeOfItems items)
  | [], _, _ => trivial
  | _ :: _, lawful, typed =>
    have halves := List.forall_mem_append.mp typed
    ⟨Obj.tree_noDuplicates lawful.1 halves.1, treeOfItems_noDuplicates lawful.2 halves.2⟩

theorem treeOfEntries_noDuplicates : ∀ {entries : List (Bytes × Obj)}, LawfulEntries entries →
    (∀ x ∈ typedOfEntries entries, x.node.NoDuplicates) → NoDuplicatesAmong (treeOfEntries entries)
  | [], _, _ => trivial
  | (_, _) :: _, lawful, typed =>
    have halves := List.forall_mem_append.mp typed
    ⟨Obj.tree_noDuplicates lawful.1 halves.1, treeOfEntries_noDuplicates lawful.2 halves.2⟩

end

theorem noDuplicatesIn_mem {items : List Json} (distinct : NoDuplicatesIn items) : ∀ c ∈ items, c.NoDuplicates := by
  induction items with
  | nil => exact nofun
  | cons item items ih => exact List.forall_mem_cons.mpr ⟨distinct.1, ih distinct.2⟩

theorem noDuplicatesAmong_mem {members : List (Bytes × Json)} (distinct : NoDuplicatesAmong members) :
    ∀ c ∈ members.map Prod.snd, c.NoDuplicates := by
  induction members with
  | nil => exact nofun
  | cons entry members ih => exact List.forall_mem_cons.mpr ⟨distinct.1, ih distinct.2⟩

theorem Json.NoDuplicates.child {t c : Json} (distinct : t.NoDuplicates) (inside : c ∈ t.children) :
    c.NoDuplicates := by
  cases t with
  | array items => exact noDuplicatesIn_mem distinct c inside
  | object members => exact noDuplicatesAmong_mem distinct.2 c inside
  | _ => cases inside

theorem Json.noDuplicates_leaf {t : Json} (leaf : t.children = []) : t.NoDuplicates := by
  cases t with
  | array items =>
    obtain rfl : items = [] := leaf
    exact trivial
  | object members =>
    obtain rfl : members = [] := List.map_eq_nil_iff.mp leaf
    exact ⟨List.nodup_nil, trivial⟩
  | _ => exact trivial

section

variable {yy : Yyjson} {spec : yy.Spec} {tcl : Tcl} {words : TclWords}

/-- The constructors build lawful values, whose typed parts are those of
their arguments; so what a run can build is lawful as a whole. -/
theorem Walks.value_lawful (keeps : tcl.Keeps) {args : List Obj} {w : Obj} (walks : Walks yy tcl (.value args) w)
    (lawful : LawfulItems args) : w.Lawful ∧ w.typedValues ⊆ typedOfItems args := by
  cases walks with
  | array _ read =>
    refine ⟨keeps.list_fine lawful.2.1 read, ?_⟩
    have inside := keeps.list_inside read
    exact List.Subset.trans inside (List.subset_append_of_subset_right _ (List.subset_append_left ..))
  | object _ read =>
    refine ⟨keeps.dict_fine lawful.2.1 read, ?_⟩
    have inside := keeps.dict_inside read
    exact List.Subset.trans inside (List.subset_append_of_subset_right _ (List.subset_append_left ..))

theorem jsonValue_noDuplicates (keeps : tcl.Keeps) {args : List Obj} {x : TypedJson} (lawful : LawfulItems args)
    (typed : ∀ y ∈ typedOfItems args, y.node.NoDuplicates) (made : jsonValue yy tcl words args = .ok x) :
    x.node.NoDuplicates := by
  rcases jsonValue_node tcl words made with leaf | ⟨w, walks, same, _⟩
  · exact Json.noDuplicates_leaf leaf
  · obtain ⟨fine, inside⟩ := walks.value_lawful keeps lawful
    exact same ▸ Obj.tree_noDuplicates fine fun y member => typed y (inside member)

/-- A part of a node without duplicate keys has none. -/
theorem jsonGetPath_noDuplicates {path : List Obj} {x y : TypedJson} (distinct : x.node.NoDuplicates)
    (found : jsonGetPath yy tcl words x path = .ok y) : y.node.NoDuplicates := by
  induction path generalizing x with
  | nil => exact Except.ok.inj found ▸ distinct
  | cons step path ih =>
    rw [jsonGetPath] at found
    split at found
    · rename_i c inside stepped
      have below : (x.child c inside).node.NoDuplicates := Json.NoDuplicates.child distinct inside
      exact ih below found
    · cases found
    · cases found

theorem jsonGet_noDuplicates {args : List Obj} {y : TypedJson} (found : jsonGet yy tcl words args = .ok y)
    (typed : ∀ x ∈ typedOfItems args, x.node.NoDuplicates) : y.node.NoDuplicates := by
  unfold jsonGet at found
  split at found
  · cases found
  · rename_i x path
    exact jsonGetPath_noDuplicates (typed x (List.mem_cons_self ..)) found
  · cases found

/-- Every typed value a script has had is free of duplicates. -/
theorem JsonRuns.noDuplicates (keeps : tcl.Keeps) {calls : List JsonCall} {s : JsonSession}
    (runs : JsonRuns spec tcl words calls s) (lawful : ∀ call ∈ calls, LawfulItems call.args) :
    ∀ x ∈ s.typed, x.node.NoDuplicates := by
  induction runs with
  | start => exact nofun
  | @call calls s s' call earlier known performed ih =>
    obtain ⟨last, others⟩ := List.forall_mem_cons.mp lawful
    have before := ih others
    have typed : ∀ y ∈ typedOfItems call.args, y.node.NoDuplicates := fun y member => before y (known member)
    cases call with
    | decode args =>
      obtain ⟨v, decoded, rfl⟩ := Except.map_ok.mp performed
      exact List.forall_mem_append.mpr ⟨fun x member =>
        (jsonDecodeCmd_ok spec tcl words decoded x member).2, before⟩
    | value args =>
      obtain ⟨x, made, rfl⟩ := Except.map_ok.mp performed
      exact List.forall_mem_cons.mpr ⟨jsonValue_noDuplicates keeps last typed made, before⟩
    | get args =>
      obtain ⟨x, found, rfl⟩ := Except.map_ok.mp performed
      exact List.forall_mem_cons.mpr ⟨jsonGet_noDuplicates found typed, before⟩
    | encode args =>
      obtain ⟨out, _, rfl⟩ := Except.map_ok.mp performed
      exact before

end

section

variable {yy : Yyjson} {tcl : Tcl} {words : TclWords}

/-- The two kinds of document step alike. -/
theorem jsonStepMut_eq (step : Obj) (t : Json) :
    jsonStepMut yy tcl words step t = jsonStepRead yy tcl words step t := by
  cases t <;> rfl

theorem jsonStep_eq (x : TypedJson) (step : Obj) :
    jsonStep yy tcl words x step = jsonStepRead yy tcl words step x.node := by
  unfold jsonStep
  split
  · rfl
  · exact jsonStepMut_eq step x.node

/-- The outcomes of a path in two documents: the same failure, or the same
node. -/
def SameFound : Except TclError TypedJson → Except TclError TypedJson → Prop
  | .error e, .error e' => e = e'
  | .ok x, .ok y => x.node = y.node
  | _, _ => False

/-- Typed values with one node find the same along every path. -/
theorem jsonPath_same {path : List Obj} {x y : TypedJson} (same : x.node = y.node) :
    SameFound (jsonGetPath yy tcl words x path) (jsonGetPath yy tcl words y path) ∧
      jsonExistsPath yy tcl words x path = jsonExistsPath yy tcl words y path := by
  induction path generalizing x y with
  | nil => exact ⟨same, rfl⟩
  | cons step path ih =>
    obtain ⟨wrap, node, literals, decoded⟩ := x
    obtain ⟨wrap', node', literals', decoded'⟩ := y
    obtain rfl : node = node' := same
    simp only [jsonGetPath, jsonExistsPath, jsonStep_eq]
    cases jsonStepRead yy tcl words step node with
    | child c inside => exact ih rfl
    | absent => exact ⟨rfl, rfl⟩
    | stepErr => exact ⟨rfl, rfl⟩

mutual

/-- What is read at some depth is read at a lower one. -/
theorem yyToTcl_lower : ∀ {t : Json} {depth lower : Nat} {v : Obj}, lower ≤ depth → yyToTcl depth t = some v →
    yyToTcl lower t = some v
  | .null, depth, lower, v, below, walked => by
    obtain ⟨room, same⟩ := Option.ite_none_left_eq_some.mp walked
    exact Option.ite_none_left_eq_some.mpr ⟨fun deep => room (deep.trans below), same⟩
  | .bool _, depth, lower, v, below, walked => by
    obtain ⟨room, same⟩ := Option.ite_none_left_eq_some.mp walked
    exact Option.ite_none_left_eq_some.mpr ⟨fun deep => room (deep.trans below), same⟩
  | .number _, depth, lower, v, below, walked => by
    obtain ⟨room, same⟩ := Option.ite_none_left_eq_some.mp walked
    exact Option.ite_none_left_eq_some.mpr ⟨fun deep => room (deep.trans below), same⟩
  | .string _, depth, lower, v, below, walked => by
    obtain ⟨room, same⟩ := Option.ite_none_left_eq_some.mp walked
    exact Option.ite_none_left_eq_some.mpr ⟨fun deep => room (deep.trans below), same⟩
  | .array items, depth, lower, v, below, walked => by
    obtain ⟨room, mapped⟩ := Option.ite_none_left_eq_some.mp walked
    obtain ⟨os, read, made⟩ := Option.map_eq_some_iff.mp mapped
    have inside := yyItemsToTcl_lower (Nat.succ_le_succ below) read
    exact Option.ite_none_left_eq_some.mpr
      ⟨fun deep => room (deep.trans below), Option.map_eq_some_iff.mpr ⟨os, inside, made⟩⟩
  | .object members, depth, lower, v, below, walked => by
    obtain ⟨room, mapped⟩ := Option.ite_none_left_eq_some.mp walked
    obtain ⟨es, read, made⟩ := Option.map_eq_some_iff.mp mapped
    have inside := yyMembersToTcl_lower (Nat.succ_le_succ below) read
    exact Option.ite_none_left_eq_some.mpr
      ⟨fun deep => room (deep.trans below), Option.map_eq_some_iff.mpr ⟨es, inside, made⟩⟩

/-- What is converted at some depth is converted the same at a smaller one.
-/
theorem yyItemsToTcl_lower : ∀ {items : List Json} {depth lower : Nat} {os : List Obj}, lower ≤ depth →
    yyItemsToTcl depth items = some os → yyItemsToTcl lower items = some os
  | [], _, _, _, _, walked => walked
  | item :: items, depth, lower, os, below, walked => by
    obtain ⟨o, first, rest⟩ := Option.bind_eq_some_iff.mp walked
    obtain ⟨others, later, made⟩ := Option.map_eq_some_iff.mp rest
    have tail := yyItemsToTcl_lower below later
    exact Option.bind_eq_some_iff.mpr
      ⟨o, yyToTcl_lower below first, Option.map_eq_some_iff.mpr ⟨others, tail, made⟩⟩

theorem yyMembersToTcl_lower : ∀ {members : List (Bytes × Json)} {depth lower : Nat}
    {before entries : List (Bytes × Obj)},
    lower ≤ depth → yyMembersToTcl depth before members = some entries →
      yyMembersToTcl lower before members = some entries
  | [], _, _, _, _, _, walked => walked
  | (key, item) :: members, depth, lower, before, entries, below, walked => by
    obtain ⟨o, first, rest⟩ := Option.bind_eq_some_iff.mp walked
    exact Option.bind_eq_some_iff.mpr ⟨o, yyToTcl_lower below first, yyMembersToTcl_lower below rest⟩

end

/-- An item of a converted array is the conversion of the item. -/
theorem yyItemsToTcl_get {depth : Nat} {items : List Json} {os : List Obj}
    (walked : yyItemsToTcl depth items = some os)
    {i : Nat} (inside : i < items.length) : ∃ u, os[i]? = some u ∧ yyToTcl depth items[i] = some u := by
  induction items generalizing os i with
  | nil => cases inside
  | cons item items ih =>
    obtain ⟨o, first, rest⟩ := Option.bind_eq_some_iff.mp walked
    obtain ⟨others, later, rfl⟩ := Option.map_eq_some_iff.mp rest
    cases i with
    | zero => exact ⟨o, rfl, first⟩
    | succ i =>
      obtain ⟨u, known, read⟩ := ih later (Nat.lt_of_succ_lt_succ inside)
      exact ⟨u, known, read⟩

/-- With each key once, the member a key leads to is the one the dict has.
-/
theorem yyMembersToTcl_found {depth : Nat} {key : Bytes} {c : Json} : ∀ {members : List (Bytes × Json)}
    {before entries : List (Bytes × Obj)}, (members.map Prod.fst).Nodup → dictGet key members = some c →
      yyMembersToTcl depth before members = some entries →
        ∃ u, dictGet key entries = some u ∧ yyToTcl depth c = some u
  | (k, item) :: members, before, entries, distinct, found, walked => by
    obtain ⟨o, first, rest⟩ := Option.bind_eq_some_iff.mp walked
    obtain ⟨fresh, others⟩ := List.nodup_cons.mp distinct
    by_cases same : k = key
    · subst same
      obtain rfl : item = c := by simpa [dictGet] using found
      refine ⟨o, ?_, first⟩
      rw [yyMembersToTcl_get rest fresh, dictGet_dictPut, if_pos rfl]
    · have later : dictGet key members = some c := by simpa [dictGet, same] using found
      exact yyMembersToTcl_found others later rest

/-- A step in a document and the step in what it unwraps to. -/
theorem plainStep_child {depth : Nat} {t c : Json} {inside : c ∈ t.children} {v step : Obj}
    (distinct : t.NoDuplicates)
    (stepped : jsonStepRead yy tcl words step t = .child c inside) (whole : yyToTcl depth t = some v) :
    ∃ u, plainStep yy tcl words step v = some u ∧ yyToTcl (depth + 1) c = some u := by
  cases t with
  | object members =>
    obtain ⟨_, mapped⟩ := Option.ite_none_left_eq_some.mp whole
    obtain ⟨entries, read, rfl⟩ := Option.map_eq_some_iff.mp mapped
    have found : yyObjGetn members (getString yy tcl step) = .child c inside := stepped
    unfold yyObjGetn at found
    split at found
    · rename_i c' known
      cases found
      exact yyMembersToTcl_found distinct.1 known read
    · cases found
  | array items =>
    obtain ⟨_, mapped⟩ := Option.ite_none_left_eq_some.mp whole
    obtain ⟨os, read, rfl⟩ := Option.map_eq_some_iff.mp mapped
    rw [jsonStepRead] at stepped
    split at stepped
    · cases stepped
    · rename_i i index
      split_ifs at stepped with negative
      unfold yyArrGet at stepped
      split_ifs at stepped with within
      cases stepped
      obtain ⟨u, known, plain⟩ := yyItemsToTcl_get read within
      refine ⟨u, ?_, plain⟩
      cases os with
      | nil => cases known
      | cons o os =>
        have full : newListObj (o :: os) = .list (o :: os) := rfl
        rw [full, plainStep, index]
        exact (if_neg negative).trans known
  | _ => cases stepped

/-- A path in a document and the same path in what it unwraps to. -/
theorem navigate_found {path : List Obj} {x y : TypedJson} {depth : Nat} {v : Obj} (distinct : x.node.NoDuplicates)
    (found : jsonGetPath yy tcl words x path = .ok y) (whole : yyToTcl depth x.node = some v) :
    ∃ u, navigate yy tcl words v path = some u ∧ yyToTcl 0 y.node = some u := by
  induction path generalizing x depth v with
  | nil =>
    obtain rfl := Except.ok.inj found
    exact ⟨v, rfl, yyToTcl_lower (Nat.zero_le depth) whole⟩
  | cons step path ih =>
    rw [jsonGetPath] at found
    split at found
    · rename_i c inside stepped
      rw [jsonStep_eq] at stepped
      obtain ⟨w, plain, read⟩ := plainStep_child distinct stepped whole
      have below : (x.child c inside).node.NoDuplicates := Json.NoDuplicates.child distinct inside
      obtain ⟨u, rest, value⟩ := ih below found read
      exact ⟨u, by rw [navigate, plain, Option.bind_some, rest], value⟩
    · cases found
    · cases found

end

section

variable {yy : Yyjson} (spec : yy.Spec) {tcl : Tcl} {words : TclWords}

theorem jsonUnwrap_node {x : TypedJson} {u : Obj} (read : yyToTcl 0 x.node = some u) :
    jsonUnwrap (.typed x) = .ok u := by
  rw [jsonUnwrap, x.plainValue_eq, read]

theorem jsonType_node {x y : TypedJson} (same : x.node = y.node) : jsonType (.typed x) = jsonType (.typed y) := by
  simp only [jsonType, jsonNodeTag, same]

/-- How a typed value was made does not show in what is written of its node.
-/
theorem jsonNodeWrite_same (writers : ∀ t, (∀ literal ∈ t.numbers, Number literal) → Clean t →
      yy.valWrite t = yy.mutValWrite t)
    {x y : TypedJson} (clean : Clean x.node) (same : x.node = y.node) :
    jsonNodeWrite yy x = jsonNodeWrite yy y := by
  have both : ∀ z : TypedJson, z.node = x.node → jsonNodeWrite yy z = yy.mutValWrite x.node := by
    intro z node
    unfold jsonNodeWrite
    split
    · rw [node, writers x.node x.literals clean]
    · rw [node]
  rw [both x rfl, both y same.symm]

theorem jsonGetPath_clean {path : List Obj} {x y : TypedJson} (clean : Clean x.node)
    (found : jsonGetPath yy tcl words x path = .ok y) : Clean y.node := by
  induction path generalizing x with
  | nil => exact Except.ok.inj found ▸ clean
  | cons step path ih =>
    rw [jsonGetPath] at found
    split at found
    · rename_i c inside stepped
      have below : Clean (x.child c inside).node := fun text member => clean text (Json.strings_child inside member)
      exact ih below found
    · cases found
    · cases found

include spec in
/-- What `json encode` gives of a typed value is a text of its node. -/
theorem encoded_text {args : List Obj} {flags : EncodeFlags} {v : TypedJson} {text : Bytes}
    (call : EncodeWords yy tcl args flags (.typed v)) (unread : flags.asList = false)
    (encoded : jsonEncode yy tcl args = .ok text) : Text v.node text := by
  have single : ¬ (flags.asDict ∧ flags.asList) := fun both => nomatch unread.symm.trans both.2
  rw [call.encode single] at encoded
  obtain ⟨walked, read, emitted⟩ := Except.bind_ok.mp encoded
  have kept : forced tcl flags (.typed v) = .ok (.typed v) := by
    have off : ¬ flags.asList = true := fun list => Bool.noConfusion (unread.symm.trans list)
    rw [forced, if_neg off]
    split_ifs
    · rfl
    · rfl
  obtain rfl := Except.ok.inj (kept.symm.trans read)
  exact jsonNodeWrite_text spec (jsonEmitTyped_ok.mp (jsonCapped_ok.mp emitted).2).2

/-- The strict decode of a text has the node of the value it was written
for. -/
theorem decoded_node {args : List Obj} {flags : DecodeFlags} {v d : TypedJson} {w : Obj}
    (own : Text v.node (getString yy tcl w))
    (call : decodeArgs yy tcl words .default none args = .ok (flags, some w))
    (decoded : jsonDecodeCmd spec tcl words args = .ok (.typed d)) : d.node = v.node := by
  obtain ⟨flags', word, call', typed⟩ := jsonDecodeCmd_source spec tcl words decoded d (List.mem_cons_self ..)
  obtain ⟨rfl, same⟩ := Prod.mk.inj (Except.ok.inj (call.symm.trans call'))
  obtain rfl := Option.some.inj same
  exact text_unique (jsonDecodeTyped_ok spec typed).1 own

/-- What a path finds in a typed value that was built and in the one its
text is decoded to. -/
structure PathsAgree (yy : Yyjson) (tcl : Tcl) (words : TclWords) (v d : TypedJson) (path : List Obj) : Prop where
  exists_same : jsonExists yy tcl words (.typed v :: path) = jsonExists yy tcl words (.typed d :: path)
  error_same : ∀ e, jsonGet yy tcl words (.typed v :: path) = .error e ↔
    jsonGet yy tcl words (.typed d :: path) = .error e
  found_same : ∀ x y, jsonGet yy tcl words (.typed v :: path) = .ok x →
    jsonGet yy tcl words (.typed d :: path) = .ok y →
    jsonType (.typed x) = jsonType (.typed y) ∧
      (∃ out, jsonEncode yy tcl [.str (ascii "--"), .typed x] = .ok out ∧
        jsonEncode yy tcl [.str (ascii "--"), .typed y] = .ok out) ∧
      ∃ u whole, jsonUnwrap (.typed x) = .ok u ∧ jsonUnwrap (.typed y) = .ok u ∧ jsonUnwrap (.typed v) = .ok whole ∧
        jsonUnwrap (.typed d) = .ok whole ∧ navigate yy tcl words whole path = some u

include spec in
/-- Along every path the two documents hold the same, whether it is typed or
not, and a path that leads nowhere in one leads nowhere in the other. -/
theorem pathsAgree (writers : ∀ t, (∀ literal ∈ t.numbers, Number literal) → Clean t →
      yy.valWrite t = yy.mutValWrite t)
    {v d : TypedJson} (same : v.node = d.node) (clean : Clean v.node) (room : v.node.depth ≤ 512)
    (distinct : v.node.NoDuplicates) (path : List Obj) : PathsAgree yy tcl words v d path := by
  obtain ⟨both, known⟩ := @jsonPath_same yy tcl words path v d same
  constructor
  · cases path with
    | nil => rfl
    | cons step path => exact congrArg Except.ok known
  · intro e
    show jsonGetPath yy tcl words v path = .error e ↔ jsonGetPath yy tcl words d path = .error e
    cases here : jsonGetPath yy tcl words v path with
    | error e₁ =>
      cases there : jsonGetPath yy tcl words d path with
      | error e₂ =>
        rw [here, there] at both
        obtain rfl : e₁ = e₂ := both
        exact Iff.rfl
      | ok y =>
        rw [here, there] at both
        exact both.elim
    | ok x =>
      cases there : jsonGetPath yy tcl words d path with
      | error e₂ =>
        rw [here, there] at both
        exact both.elim
      | ok y => exact iff_of_false Except.error_ne_ok.symm Except.error_ne_ok.symm
  · intro x y here there
    have here' : jsonGetPath yy tcl words v path = .ok x := here
    have there' : jsonGetPath yy tcl words d path = .ok y := there
    rw [here', there'] at both
    have node : x.node = y.node := both
    have pure := jsonGetPath_clean clean here'
    obtain ⟨out, written⟩ := (jsonNodeWrite_iff spec x).mpr pure
    have again := (jsonNodeWrite_same writers pure node).symm.trans written
    obtain ⟨whole, read⟩ := (yyToTcl_some v.node 0).mpr (by omega)
    obtain ⟨u, led, value⟩ := navigate_found distinct here' read
    refine ⟨jsonType_node node, ⟨out, jsonEncode_typed written, jsonEncode_typed again⟩, u, whole,
      jsonUnwrap_node value,
      jsonUnwrap_node (node ▸ value), jsonUnwrap_node read, jsonUnwrap_node (same ▸ read), led⟩

/-- A built typed value and the strict decode of its text cannot be told
apart by a path, and a path leads in them where it leads in what they unwrap
to. -/
theorem jsonDocuments_agree
    (writers : ∀ t, (∀ literal ∈ t.numbers, Number literal) → Clean t → yy.valWrite t = yy.mutValWrite t)
    (keeps : tcl.Keeps) {calls : List JsonCall} {s : JsonSession} (runs : JsonRuns spec tcl words calls s)
    (lawful : ∀ call ∈ calls, LawfulItems call.args) {v : TypedJson} (built : v ∈ s.typed)
    (room : v.node.depth ≤ 512)
    {args args' : List Obj} {flags : EncodeFlags} {flags' : DecodeFlags} {w : Obj} {text : Bytes}
    (call : EncodeWords yy tcl args flags (.typed v)) (unread : flags.asList = false)
    (encoded : jsonEncode yy tcl args = .ok text)
    (call' : decodeArgs yy tcl words .default none args' = .ok (flags', some w))
    (typed : flags'.typed = true) (word : getString yy tcl w = text) :
    (flags'.maxBytes ≤ jsonTypedHardMaxbytes → (text.length : Int) ≤ flags'.maxBytes →
      ∃ d, jsonDecodeCmd spec tcl words args' = .ok (.typed d)) ∧
    ∀ d, jsonDecodeCmd spec tcl words args' = .ok (.typed d) → ∀ path, PathsAgree yy tcl words v d path := by
  have distinct := runs.noDuplicates keeps lawful v built
  have own := encoded_text spec call unread encoded
  subst word
  constructor
  · intro cap within
    have parsed := (spec.read_iff _ v.node).mpr own
    have strict : jsonCheckStrict 0 v.node = .ok () := jsonCheckStrict_ok.mpr ⟨by omega, distinct⟩
    refine ⟨⟨.idoc, v.node, decoded_numbers spec parsed, fun _ => decoded_strings spec parsed⟩, ?_⟩
    rw [jsonDecodeCmd_typed spec tcl words call' typed, (jsonDecodeTyped_checked spec cap within parsed).2 strict]
    rfl
  · intro d decoded path
    have node := decoded_node spec own call' decoded
    exact pathsAgree spec writers node.symm own.strings room distinct path

end

theorem strictTcl_keeps : strictTcl.Keeps where
  list_typed _ _ read := nomatch read
  dict_typed _ _ read := nomatch read
  list_lawful _ _ _ read := nomatch read
  dict_lawful _ _ _ read := nomatch read

/-- The array of a number, built and read back. -/
theorem jsonDocuments_agree_sample :
    ∃ v d, v.wrap = .mdoc ∧ v.node = .array [.number (ascii "7")] ∧
      jsonDecodeCmd referenceYyjson_spec strictTcl plainWords [.str (ascii "-typed"), .str (ascii "[7]")] =
        .ok (.typed d) ∧
      PathsAgree referenceYyjson strictTcl plainWords v d [.str (ascii "0")] := by
  let v := (MutNode.array [jsonNodeToMut sevenTyped]).wrap
  have again : jsonBuildMut 1 (.typed sevenTyped) = .ok (jsonNodeToMut sevenTyped) :=
    jsonBuildCapped_ok.mpr ⟨by omega, rfl⟩
  have first : JsonRuns referenceYyjson_spec strictTcl plainWords [.value [.str (ascii "number"), .str (ascii "7")]]
      ⟨[sevenTyped], []⟩ := JsonRuns.value .start rfl nofun
  have second : JsonRuns referenceYyjson_spec strictTcl plainWords _ ⟨[v, sevenTyped], []⟩ :=
    first.value (jsonValue_array again) (List.Subset.refl [sevenTyped])
  have written : jsonNodeWrite referenceYyjson v = some (ascii "[7]") := rfl
  have call : EncodeWords referenceYyjson strictTcl [.str (ascii "--"), .typed v] .none (.typed v) := rfl
  have call' : decodeArgs referenceYyjson strictTcl plainWords .default none
      [.str (ascii "-typed"), .str (ascii "[7]")] = .ok
        (⟨true, false, jsonTypedDefaultMaxbytes⟩, some (.str (ascii "[7]"))) :=
    rfl
  have lawful : ∀ call ∈ [JsonCall.value [.str (ascii "array"), .list [.typed sevenTyped]],
      .value [.str (ascii "number"), .str (ascii "7")]], LawfulItems call.args :=
    List.forall_mem_cons.mpr ⟨⟨trivial, ⟨trivial, trivial⟩, trivial⟩,
      List.forall_mem_singleton.mpr ⟨trivial, trivial, trivial⟩⟩
  have agree := jsonDocuments_agree referenceYyjson_spec (fun _ _ _ => rfl) strictTcl_keeps second lawful
    (List.mem_cons_self ..) (by decide) call rfl (jsonEncode_typed written) call' rfl rfl
  obtain ⟨d, decoded⟩ := agree.1 (by decide) (by decide)
  exact ⟨v, d, rfl, rfl, decoded, agree.2 d decoded _⟩

end Machteld
