import Machteld.Json.Depth
import Machteld.Json.PlainGuard

namespace Machteld

open Rfc8259

/-- A call of `json` with the words behind its subcommand. -/
inductive JsonCall
  | decode (args : List Obj)
  | value (args : List Obj)
  | get (args : List Obj)
  | encode (args : List Obj)

def JsonCall.args : JsonCall → List Obj
  | .decode args => args
  | .value args => args
  | .get args => args
  | .encode args => args

/-- What a script has had of `json` so far. -/
structure JsonSession where
  typed : List TypedJson
  texts : List Bytes

def JsonSession.empty : JsonSession := ⟨[], []⟩

def JsonSession.keepValue (s : JsonSession) (v : Obj) : JsonSession := ⟨v.typedValues ++ s.typed, s.texts⟩

def JsonSession.keepText (s : JsonSession) (text : Bytes) : JsonSession := ⟨s.typed, text :: s.texts⟩

section

variable {yy : Yyjson} (spec : yy.Spec) (tcl : Tcl) (words : TclWords)

def jsonPerform (s : JsonSession) : JsonCall → Except TclError JsonSession
  | .decode args => (jsonDecodeCmd spec tcl words args).map s.keepValue
  | .value args => (jsonValue yy tcl words args).map fun x => s.keepValue (.typed x)
  | .get args => (jsonGet yy tcl words args).map fun x => s.keepValue (.typed x)
  | .encode args => (jsonEncode yy tcl args).map s.keepText

/-- Calls that all succeed, the last one first. A typed value in their words
is one the script has had. -/
inductive JsonRuns : List JsonCall → JsonSession → Prop
  | start : JsonRuns [] .empty
  | call {calls : List JsonCall} {s s' : JsonSession} {call : JsonCall} : JsonRuns calls s →
      typedOfItems call.args ⊆ s.typed → jsonPerform spec tcl words s call = .ok s' → JsonRuns (call :: calls) s'

end

/-- The container a call walks for the typed values in it. -/
inductive Walks (yy : Yyjson) (tcl : Tcl) : JsonCall → Obj → Prop
  | array {kind v : Obj} {items : List Obj} :
      dictGet (cString (getString yy tcl kind)) jsonKinds = some .array → listElements tcl v = .ok items →
        Walks yy tcl (.value [kind, v]) (.list items)
  | object {kind v : Obj} {entries : List (Bytes × Obj)} :
      dictGet (cString (getString yy tcl kind)) jsonKinds = some .object → dictEntries tcl v = .ok entries →
        Walks yy tcl (.value [kind, v]) (.dict entries)
  | encode {args : List Obj} {flags : EncodeFlags} {v w : Obj} : encodeCall yy tcl args = .ok (flags, v) →
      forced tcl flags v = .ok w → Walks yy tcl (.encode args) w

/-- The typed values a call is given fit where they stand. -/
def JsonCall.Fit (yy : Yyjson) (tcl : Tcl) (call : JsonCall) : Prop := ∀ w, Walks yy tcl call w → w.TypedFit 0

/-- Everything the script has had is within the cap. -/
structure JsonSession.Capped (s : JsonSession) : Prop where
  typed : ∀ x ∈ s.typed, x.node.depth ≤ 512
  texts : ∀ text ∈ s.texts, ∀ t, Text t text → t.depth ≤ 512

theorem JsonSession.Capped.keepValue {s : JsonSession} (capped : s.Capped) {v : Obj}
    (shallow : ∀ x ∈ v.typedValues, x.node.depth ≤ 512) : (s.keepValue v).Capped :=
  ⟨List.forall_mem_append.mpr ⟨shallow, capped.typed⟩, capped.texts⟩

theorem jsonBuilt_node {built : Except Bytes MutNode} {x : TypedJson} (made : jsonBuilt built = .ok x) :
    ∃ m, built = .ok m ∧ x.node = m.node := by
  cases built with
  | error err => cases made
  | ok m => exact ⟨m, rfl, Except.ok.inj made ▸ rfl⟩

section

variable {yy : Yyjson} (spec : yy.Spec) (tcl : Tcl) (words : TclWords)

/-- A constructor of a scalar makes a leaf, and one of a container what is
walked. -/
theorem jsonValueOf_node {kind : JsonKind} {v : Obj} {x : TypedJson}
    (made : jsonValueOf yy tcl words kind v = .ok x) :
    x.node.children = [] ∨
      (∃ items, kind = .array ∧ listElements tcl v = .ok items ∧ x.node = (Obj.list items).tree ∧
        (Obj.list items).depth ≤ 512) ∨
      ∃ entries, kind = .object ∧ dictEntries tcl v = .ok entries ∧ x.node = (Obj.dict entries).tree ∧
        (Obj.dict entries).depth ≤ 512 := by
  cases kind with
  | string => exact .inl (Except.ok.inj made ▸ rfl)
  | null => exact .inl (Except.ok.inj made ▸ rfl)
  | number =>
    rw [jsonValueOf] at made
    split at made
    · exact .inl (Except.ok.inj made ▸ rfl)
    · cases made
  | boolean =>
    obtain ⟨b, _, rfl⟩ := Except.map_ok.mp made
    exact .inl rfl
  | array =>
    obtain ⟨items, read, built⟩ := Except.bind_ok.mp made
    obtain ⟨m, walked, same⟩ := jsonBuilt_node built
    obtain ⟨ms, inside, rfl⟩ := Except.map_ok.mp walked
    have room := jsonBuildItems_room inside (by omega)
    refine .inr (.inl ⟨items, rfl, read, ?_, ?_⟩)
    · rw [same, Obj.tree, ← jsonBuildItems_tree inside]
      rfl
    · rw [Obj.depth]
      exact room
  | object =>
    obtain ⟨entries, read, built⟩ := Except.bind_ok.mp made
    obtain ⟨m, walked, same⟩ := jsonBuilt_node built
    obtain ⟨ms, inside, rfl⟩ := Except.map_ok.mp walked
    have room := jsonBuildEntries_room inside (by omega)
    refine .inr (.inr ⟨entries, rfl, read, ?_, ?_⟩)
    · rw [same, Obj.tree, ← jsonBuildEntries_tree inside]
      rfl
    · rw [Obj.depth]
      exact room

theorem jsonValue_node {args : List Obj} {x : TypedJson} (made : jsonValue yy tcl words args = .ok x) :
    x.node.children = [] ∨ ∃ w, Walks yy tcl (.value args) w ∧ x.node = w.tree ∧ w.depth ≤ 512 := by
  cases args with
  | nil => cases made
  | cons kind args =>
    rw [jsonValue] at made
    split at made
    · cases made
    · split_ifs at made
      exact .inl (Except.ok.inj made ▸ rfl)
    · rename_i k known
      split at made
      · rcases jsonValueOf_node tcl words made with leaf | ⟨items, rfl, read, same, room⟩ |
          ⟨entries, rfl, read, same, room⟩
        · exact .inl leaf
        · exact .inr ⟨_, .array known read, same, room⟩
        · exact .inr ⟨_, .object known read, same, room⟩
      · cases made

theorem Json.depth_leaf {t : Json} (leaf : t.children = []) : t.depth = 1 := by
  cases t with
  | array items =>
    obtain rfl : items = [] := leaf
    rfl
  | object members =>
    obtain rfl : members = [] := List.map_eq_nil_iff.mp leaf
    rfl
  | _ => rfl

theorem walked_depth {w : Obj} (room : w.depth ≤ 512) (fit : w.TypedFit 0) : w.tree.depth ≤ 512 := by
  have both := @Obj.tree_depth w 0 (by omega)
  rw [Nat.zero_add] at both
  exact both.mpr fit

theorem jsonValue_depth {args : List Obj} {x : TypedJson} (made : jsonValue yy tcl words args = .ok x)
    (fit : (JsonCall.value args).Fit yy tcl) : x.node.depth ≤ 512 := by
  rcases jsonValue_node tcl words made with leaf | ⟨w, walks, same, room⟩
  · have one := Json.depth_leaf leaf
    omega
  · exact same ▸ walked_depth room (fit w walks)

theorem jsonGetPath_depth {path : List Obj} {x y : TypedJson} (found : jsonGetPath yy tcl words x path = .ok y) :
    y.node.depth ≤ x.node.depth := by
  induction path generalizing x with
  | nil => exact Except.ok.inj found ▸ le_rfl
  | cons step path ih =>
    rw [jsonGetPath] at found
    split at found
    · rename_i c inside stepped
      have lower : c.depth < x.node.depth := Json.depth_child inside
      exact (ih found).trans lower.le
    · cases found
    · cases found

theorem jsonGet_depth {args : List Obj} {y : TypedJson} (found : jsonGet yy tcl words args = .ok y)
    (shallow : ∀ x ∈ typedOfItems args, x.node.depth ≤ 512) : y.node.depth ≤ 512 := by
  unfold jsonGet at found
  split at found
  · cases found
  · rename_i x path
    exact (jsonGetPath_depth tcl words found).trans (shallow x (List.mem_cons_self ..))
  · cases found

include spec in
theorem jsonEncode_depth {args : List Obj} {out : Bytes} (encoded : jsonEncode yy tcl args = .ok out)
    (fit : (JsonCall.encode args).Fit yy tcl) {t : Json} (text : Text t out) : t.depth ≤ 512 := by
  obtain ⟨flags, v, w, call, force, emitted⟩ := (jsonEncode_ok_iff yy tcl args out).mp encoded
  have able := (jsonEmit_ok_iff spec w 0).mp ⟨out, emitted⟩
  have own := (jsonEmit_text spec emitted).mpr ((jsonEmit_valid_iff spec emitted).mp ⟨t, text⟩)
  obtain rfl := text_unique text own
  have room := able.room
  exact walked_depth (by omega) (fit w (.encode call force))

theorem jsonDecodeTyped_ok {maxBytes : Int} {s : Bytes} {x : TypedJson}
    (decoded : jsonDecodeTyped spec maxBytes s = .ok x) :
    Text x.node s ∧ x.node.depth ≤ 512 ∧ x.node.NoDuplicates := by
  unfold jsonDecodeTyped at decoded
  split_ifs at decoded
  split at decoded
  · cases decoded
  · rename_i t read
    split at decoded
    · cases decoded
    · rename_i checked
      have strict := jsonCheckStrict_ok.mp checked
      rw [Nat.zero_add] at strict
      exact Except.ok.inj decoded ▸ ⟨(spec.read_iff s t).mp read, strict⟩

theorem jsonDecodeText_untyped {s : Bytes} {v : Obj} (decoded : jsonDecodeText yy s = .ok v) :
    v.typedValues = [] := by
  unfold jsonDecodeText at decoded
  split at decoded
  · cases decoded
  · split at decoded
    · cases decoded
    · rename_i walked
      exact Except.ok.inj decoded ▸ yyToTcl_untyped walked

/-- A typed value comes out of the strict decode of the text. -/
theorem jsonDecodeCmd_source {args : List Obj} {v : Obj} (decoded : jsonDecodeCmd spec tcl words args = .ok v) :
    ∀ x ∈ v.typedValues, ∃ flags word, decodeArgs yy tcl words .default none args = .ok (flags, some word) ∧
      jsonDecodeTyped spec flags.maxBytes (getString yy tcl word) = .ok x := by
  obtain ⟨⟨flags, text⟩, call, rest⟩ := Except.bind_ok.mp decoded
  cases text with
  | none => cases rest
  | some word =>
    dsimp only at rest
    split_ifs at rest
    · obtain ⟨x, read, rfl⟩ := Except.map_ok.mp rest
      exact List.forall_mem_singleton.mpr ⟨flags, word, call, read⟩
    · rw [jsonDecodeText_untyped rest]
      exact List.forall_mem_nil _

theorem jsonDecodeCmd_ok {args : List Obj} {v : Obj} (decoded : jsonDecodeCmd spec tcl words args = .ok v) :
    ∀ x ∈ v.typedValues, x.node.depth ≤ 512 ∧ x.node.NoDuplicates := by
  intro x member
  obtain ⟨_, _, _, read⟩ := jsonDecodeCmd_source spec tcl words decoded x member
  exact (jsonDecodeTyped_ok spec read).2

/-- One call keeps the cap, where the typed values it is given fit. -/
theorem JsonSession.Capped.perform {s s' : JsonSession} {call : JsonCall} (capped : s.Capped)
    (known : typedOfItems call.args ⊆ s.typed) (performed : jsonPerform spec tcl words s call = .ok s')
    (fit : call.Fit yy tcl) : s'.Capped := by
  cases call with
  | decode args =>
    obtain ⟨v, decoded, rfl⟩ := Except.map_ok.mp performed
    exact capped.keepValue fun x member => (jsonDecodeCmd_ok spec tcl words decoded x member).1
  | value args =>
    obtain ⟨x, made, rfl⟩ := Except.map_ok.mp performed
    exact capped.keepValue (List.forall_mem_singleton.mpr (jsonValue_depth tcl words made fit))
  | get args =>
    obtain ⟨x, found, rfl⟩ := Except.map_ok.mp performed
    have shallow := jsonGet_depth tcl words found fun x member => capped.typed x (known member)
    exact capped.keepValue (List.forall_mem_singleton.mpr shallow)
  | encode args =>
    obtain ⟨out, encoded, rfl⟩ := Except.map_ok.mp performed
    exact ⟨capped.typed, List.forall_mem_cons.mpr ⟨fun t text =>
      jsonEncode_depth spec tcl encoded fit text, capped.texts⟩⟩

theorem JsonRuns.capped {calls : List JsonCall} {s : JsonSession} (runs : JsonRuns spec tcl words calls s)
    (fit : ∀ call ∈ calls, call.Fit yy tcl) : s.Capped := by
  induction runs with
  | start => exact ⟨nofun, nofun⟩
  | call earlier known performed ih =>
    obtain ⟨last, others⟩ := List.forall_mem_cons.mp fit
    exact (ih others).perform spec tcl words known performed last

theorem jsonErr_depth {code : String} (other : ascii code ≠ ascii "depth") (message : Bytes) :
    (jsonErr code message).errorcode ≠ jsonDepthError.errorcode := by
  intro same
  exact other (List.cons.inj (List.cons.inj (List.cons.inj same).2).2).1

include spec in
theorem jsonDecodeText_depth {s : Bytes} (shallow : ∀ t, Text t s → t.depth ≤ 512) {e : TclError}
    (failed : jsonDecodeText yy s = .error e) : e.errorcode ≠ jsonDepthError.errorcode := by
  unfold jsonDecodeText at failed
  split at failed
  · obtain rfl := Except.error.inj failed
    exact jsonErr_depth (by decide) _
  · rename_i t read
    have room := shallow t ((spec.read_iff s t).mp read)
    obtain ⟨v, walked⟩ := (yyToTcl_some t 0).mpr (by omega)
    rw [walked] at failed
    cases failed

theorem jsonDecodeTyped_shallow {maxBytes : Int} {s : Bytes}
    (shallow : ∀ t, Text t s → t.depth ≤ 512) {e : TclError}
    (failed : jsonDecodeTyped spec maxBytes s = .error e) : e.errorcode ≠ jsonDepthError.errorcode := by
  unfold jsonDecodeTyped at failed
  split_ifs at failed
  · obtain rfl := Except.error.inj failed
    exact jsonErr_depth (by decide) _
  · obtain rfl := Except.error.inj failed
    exact jsonErr_depth (by decide) _
  · split at failed
    · obtain rfl := Except.error.inj failed
      exact jsonErr_depth (by decide) _
    · rename_i t read
      have room := shallow t ((spec.read_iff s t).mp read)
      split at failed
      · rename_i fault refused
        obtain rfl := Except.error.inj failed
        cases fault with
        | duplicate badKey => exact jsonErr_depth (by decide) _
        | tooDeep =>
          have deep := jsonCheckStrict_tooDeep refused
          omega
      · cases failed

/-- Neither kind of decode refuses a text within the cap for its depth. -/
theorem jsonDecodeCmd_shallow {args : List Obj} {flags : DecodeFlags} {v : Obj}
    (call : decodeArgs yy tcl words .default none args = .ok (flags, some v))
    (shallow : ∀ t, Text t (getString yy tcl v) → t.depth ≤ 512) {e : TclError}
    (failed : jsonDecodeCmd spec tcl words args = .error e) : e.errorcode ≠ jsonDepthError.errorcode := by
  simp only [jsonDecodeCmd, call, Except.bind] at failed
  split_ifs at failed
  · obtain rfl := Except.error.inj failed
    exact jsonErr_depth (by decide) _
  · exact jsonDecodeTyped_shallow spec shallow (Except.map_error failed)
  · exact jsonDecodeText_depth spec shallow failed

/-- Where in every call the typed values fit, everything stays within the
cap, and nothing is refused for its depth afterwards. -/
theorem jsonRuns_depth {calls : List JsonCall} {s : JsonSession} (runs : JsonRuns spec tcl words calls s)
    (fit : ∀ call ∈ calls, call.Fit yy tcl) :
    (∀ x ∈ s.typed, x.node.depth ≤ 512 ∧ ∃ v, jsonUnwrap (.typed x) = .ok v) ∧
    ∀ text ∈ s.texts, (∀ t, Text t text → t.depth ≤ 512) ∧
      ∀ args flags v e, decodeArgs yy tcl words .default none args = .ok (flags, some v) →
        getString yy tcl v = text →
        jsonDecodeCmd spec tcl words args = .error e → e.errorcode ≠ jsonDepthError.errorcode := by
  have capped := JsonRuns.capped spec tcl words runs fit
  constructor
  · exact fun x member => ⟨capped.typed x member, (jsonUnwrap_ok x).mpr (capped.typed x member)⟩
  · intro text member
    refine ⟨capped.texts text member, ?_⟩
    rintro args flags v e call rfl failed
    exact jsonDecodeCmd_shallow spec tcl words call (capped.texts _ member) failed

end

/-- Lists of one item around an empty dict. -/
def nest : Nat → Obj
  | 0 => .dict []
  | k + 1 => .list [nest k]

theorem nest_depth (k : Nat) : (nest k).tree.depth = k + 1 := by
  induction k with
  | zero => rfl
  | succ k ih =>
    have deeper : (nest (k + 1)).tree.depth = 1 + max (nest k).tree.depth 0 := rfl
    rw [deeper, ih]
    omega

theorem nest_built {k depth : Nat} (room : depth + k < 512) : ∃ m, jsonBuildMut depth (nest k) = .ok m := by
  induction k generalizing depth with
  | zero => exact ⟨_, jsonBuildCapped_ok.mpr ⟨room, rfl⟩⟩
  | succ k ih =>
    obtain ⟨m, built⟩ := ih (by omega : depth + 1 + k < 512)
    refine ⟨_, jsonBuildCapped_ok.mpr ⟨by omega, Except.map_ok.mpr ⟨[m], ?_, rfl⟩⟩⟩
    rw [jsonBuildItems, built]
    rfl

theorem nest_clean (k : Nat) : (nest k).tree.strings = [] := by
  induction k with
  | zero => rfl
  | succ k ih =>
    have inside : (nest (k + 1)).tree.strings = (nest k).tree.strings ++ [] := rfl
    rw [inside, ih]
    rfl

theorem jsonValue_array {yy : Yyjson} {tcl : Tcl} {words : TclWords} {item : Obj} {m : MutNode}
    (built : jsonBuildMut 1 item = .ok m) :
    jsonValue yy tcl words [.str (ascii "array"), .list [item]] = .ok (MutNode.array [m]).wrap := by
  show jsonBuilt ((jsonBuildItems 1 [item]).map .array) = _
  rw [jsonBuildItems, built]
  rfl

theorem jsonEncode_typed {yy : Yyjson} {tcl : Tcl} {x : TypedJson} {text : Bytes}
    (written : jsonNodeWrite yy x = some text) :
    jsonEncode yy tcl [.str (ascii "--"), .typed x] = .ok text := by
  have read : encodeArgs yy tcl true .none none [.str (ascii "--"), .typed x] = .ok (.none, some (.typed x)) := rfl
  rw [jsonEncode_of_args read (by decide)]
  exact jsonCapped_ok.mpr ⟨Nat.zero_lt_succ _, jsonEmitTyped_ok.mpr ⟨rfl, written⟩⟩

theorem cString_bracket (rest : Bytes) :
    cString (0x5B :: rest) ≠ ascii "-typed" ∧ cString (0x5B :: rest) ≠ ascii "-maxbytes" := by
  have first : cString (0x5B :: rest) = 0x5B :: cString rest := rfl
  rw [first]
  constructor
  · intro same
    exact absurd (List.cons.inj same).1 (by decide)
  · intro same
    exact absurd (List.cons.inj same).1 (by decide)

theorem nest_untyped (k : Nat) : (nest k).typedValues = [] := by
  induction k with
  | zero => rfl
  | succ k ih =>
    have inside : (nest (k + 1)).typedValues = (nest k).typedValues ++ [] := rfl
    rw [inside, ih]
    rfl

/-- A text nested more deeply than the cap is read by neither decode. -/
theorem jsonDecodeCmd_tooDeep {yy : Yyjson} (spec : yy.Spec) (tcl : Tcl) (words : TclWords) {items : List Json}
    {body : Bytes} (text : Text (.array items) (0x5B :: body)) (deep : 512 < (Json.array items).depth) :
    jsonDecodeCmd spec tcl words [.str (0x5B :: body)] = .error jsonDepthError := by
  obtain ⟨notTyped, notLimit⟩ := cString_bracket body
  rw [jsonDecodeCmd_plain, jsonDecode, if_neg notTyped, if_neg notLimit, jsonDecodeText,
    (spec.read_iff _ _).mpr text]
  cases walked : yyToTcl 0 (.array items) with
  | none =>
    dsimp only
    rw [walked]
    rfl
  | some v =>
    have room := (yyToTcl_some (.array items) 0).mp ⟨v, walked⟩
    omega

theorem jsonUnwrap_tooDeep {x : TypedJson} (deep : 512 < x.node.depth) :
    jsonUnwrap (.typed x) = .error jsonDepthError := by
  have plain := yyToTcl_some x.node 0
  rw [jsonUnwrap, x.plainValue_eq]
  cases walked : yyToTcl 0 x.node with
  | none => rfl
  | some v =>
    have room := plain.mp ⟨v, walked⟩
    omega

section

variable {yy : Yyjson} {spec : yy.Spec} {tcl : Tcl} {words : TclWords} {calls : List JsonCall} {s : JsonSession}
  {args : List Obj}

theorem JsonRuns.value {x : TypedJson} (runs : JsonRuns spec tcl words calls s)
    (made : jsonValue yy tcl words args = .ok x) (known : typedOfItems args ⊆ s.typed) :
    JsonRuns spec tcl words (.value args :: calls) (s.keepValue (.typed x)) :=
  .call runs known (by rw [jsonPerform, made]; rfl)

theorem JsonRuns.encode {text : Bytes} (runs : JsonRuns spec tcl words calls s)
    (encoded : jsonEncode yy tcl args = .ok text) (known : typedOfItems args ⊆ s.typed) :
    JsonRuns spec tcl words (.encode args :: calls) (s.keepText text) :=
  .call runs known (by rw [jsonPerform, encoded]; rfl)

end

/-- An array of a nest, an array of that array, and its text. -/
theorem nest_runs (tcl : Tcl) (words : TclWords) {k : Nat} (room : 1 + k < 512) :
    ∃ calls s, JsonRuns referenceYyjson_spec tcl words calls s ∧ (∃ x ∈ s.typed, x.node.depth = k + 3) ∧
      ∃ items body, 0x5B :: body ∈ s.texts ∧ Text (.array items)
        (0x5B :: body) ∧ (Json.array items).depth = k + 3 := by
  obtain ⟨m, built⟩ := nest_built room
  let inner := (MutNode.array [m]).wrap
  let outer := (MutNode.array [jsonNodeToMut inner]).wrap
  have node : outer.node = (nest (k + 2)).tree := by
    show Json.array [.array [m.node]] = .array [.array [(nest k).tree]]
    rw [jsonBuildMut_tree built]
  have depth : outer.node.depth = k + 3 := by rw [node, nest_depth]
  have clean : ∀ text ∈ outer.node.strings, Utf8.WellFormed text := by
    rw [node, nest_clean]
    exact List.forall_mem_nil _
  have written : jsonNodeWrite referenceYyjson outer = some (compact jsonEscape outer.node) := if_pos clean
  have plain : typedOfItems [.str (ascii "array"), .list [nest k]] = [] := by
    simp only [typedOfItems, Obj.typedValues, nest_untyped, List.append_nil]
  have again : jsonBuildMut 1 (.typed inner) = .ok (jsonNodeToMut inner) := jsonBuildCapped_ok.mpr ⟨by omega, rfl⟩
  have first : JsonRuns referenceYyjson_spec tcl words _ _ :=
    JsonRuns.value .start (jsonValue_array built) (List.subset_nil.mpr plain)
  have second : JsonRuns referenceYyjson_spec tcl words _ ⟨[outer, inner], []⟩ :=
    first.value (jsonValue_array again) (List.Subset.refl [inner])
  have third : JsonRuns referenceYyjson_spec tcl words _ _ :=
    second.encode (jsonEncode_typed written) (List.cons_subset.mpr ⟨List.mem_cons_self .., List.nil_subset _⟩)
  have text : Text outer.node (compact jsonEscape outer.node) := jsonNodeWrite_text referenceYyjson_spec written
  exact ⟨_, _, third, ⟨outer, List.mem_cons_self .., depth⟩, _, _, List.mem_cons_self .., text, depth⟩

/-- An array within the cap inside another one is not: neither it nor its
text is read again. -/
theorem jsonRuns_tooDeep :
    ∃ calls s, JsonRuns referenceYyjson_spec strictTcl plainWords calls s ∧
      (∃ x ∈ s.typed, x.node.depth = 513 ∧ jsonUnwrap (.typed x) = .error jsonDepthError) ∧
      ∃ text ∈ s.texts, jsonDecodeCmd referenceYyjson_spec strictTcl plainWords [.str text] =
        .error jsonDepthError := by
  obtain ⟨calls, s, runs, ⟨x, member, depth⟩, items, body, known, text, deep⟩ :=
    nest_runs strictTcl plainWords (by omega : 1 + 510 < 512)
  refine ⟨calls, s, runs, ⟨x, member, depth, jsonUnwrap_tooDeep (by omega)⟩, _, known, ?_⟩
  exact jsonDecodeCmd_tooDeep referenceYyjson_spec strictTcl plainWords text (by omega)

/-- A typed value in a dict in a list. -/
def sevenInside : Obj := .dict [(ascii "b", .typed sevenTyped)]

/-- `json value number 7`, `json value array` of a list with a dict around
it, and `json encode` of that. -/
theorem jsonRuns_depth_sample : ∃ calls s x text, JsonRuns referenceYyjson_spec strictTcl plainWords calls s ∧
    s.typed = [x, sevenTyped] ∧
    s.texts = [text] ∧ (∃ v, jsonUnwrap (.typed x) = .ok v) ∧ ∀ t, Text t text → t.depth ≤ 512 := by
  obtain ⟨m, built⟩ : ∃ m, jsonBuildMut 1 sevenInside = .ok m := ⟨_, rfl⟩
  let x := (MutNode.array [m]).wrap
  have node : x.node = (Obj.list [sevenInside]).tree := by
    show Json.array [m.node] = .array [sevenInside.tree]
    rw [jsonBuildMut_tree built]
  have clean : ∀ text ∈ x.node.strings, Utf8.WellFormed text := by
    rw [node]
    exact (show ∀ text ∈ [ascii "b"], Utf8.WellFormed text by decide)
  have written : jsonNodeWrite referenceYyjson x = some (compact jsonEscape x.node) := if_pos clean
  have first : JsonRuns referenceYyjson_spec strictTcl plainWords [.value [.str (ascii "number"), .str (ascii "7")]]
      ⟨[sevenTyped], []⟩ := JsonRuns.value .start rfl nofun
  have second : JsonRuns referenceYyjson_spec strictTcl plainWords _ ⟨[x, sevenTyped], []⟩ :=
    first.value (jsonValue_array built) (List.Subset.refl [sevenTyped])
  have third : JsonRuns referenceYyjson_spec strictTcl plainWords _
    ⟨[x, sevenTyped], [compact jsonEscape x.node]⟩ :=
    second.encode (jsonEncode_typed written) (List.cons_subset.mpr ⟨List.mem_cons_self .., List.nil_subset _⟩)
  have number : (JsonCall.value [.str (ascii "number"), .str (ascii "7")]).Fit referenceYyjson strictTcl := by
    intro w walked
    cases walked with
    | array kind => cases kind
    | object kind => cases kind
  have array : (JsonCall.value [.str (ascii "array"), .list [sevenInside]]).Fit referenceYyjson strictTcl := by
    intro w walked
    cases walked with
    | array _ read =>
      obtain rfl := Except.ok.inj read
      exact ⟨⟨show 2 + 1 ≤ 512 by omega, trivial⟩, trivial⟩
    | object kind => cases kind
  have encode : (JsonCall.encode [.str (ascii "--"), .typed x]).Fit referenceYyjson strictTcl := by
    intro w walked
    cases walked with
    | encode call force =>
      have known : encodeCall referenceYyjson strictTcl [.str (ascii "--"), .typed x] = .ok (.none, .typed x) := rfl
      obtain ⟨rfl, rfl⟩ := Prod.mk.inj (Except.ok.inj (known.symm.trans call))
      obtain rfl := Except.ok.inj force
      show 0 + x.node.depth ≤ 512
      rw [node]
      exact (show 3 ≤ 512 by omega)
  have run := jsonRuns_depth referenceYyjson_spec strictTcl plainWords third
    (List.forall_mem_cons.mpr ⟨encode, List.forall_mem_cons.mpr ⟨array, List.forall_mem_singleton.mpr number⟩⟩)
  exact ⟨_, _, x, _, third, rfl, rfl, (run.1 x (List.mem_cons_self ..)).2, (run.2 _ (List.mem_cons_self ..)).1⟩

end Machteld
