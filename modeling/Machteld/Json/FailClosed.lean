import Machteld.Json.RoundTrip

namespace Machteld

open Rfc8259

/-- The value that is walked, once the outer container a flag forces has
been read out of it. -/
def forced (tcl : Tcl) (flags : EncodeFlags) (v : Obj) : Except TclError Obj :=
  if flags.asList then (listElements tcl v).map .list
  else if flags.asDict then
    match v with
    | .typed x => .ok (.typed x)
    | v => (dictEntries tcl v).map .dict
  else .ok v

theorem emit_readEntries (yy : Yyjson) (plainOnly : Bool) (read : Except TclError (List (Bytes × Obj))) :
    (read.bind fun entries =>
      (jsonEmitEntries yy plainOnly true 0 entries).map fun body => 0x7B :: (body ++ [0x7D])) =
        (read.map .dict).bind (jsonEmit yy plainOnly 0) := by
  cases read <;> rfl

/-- `-list` and `-string` act once, on the value as a whole, and the emitter
sees what they made of it. -/
theorem jsonEncodeValue_forced (yy : Yyjson) (tcl : Tcl) (flags : EncodeFlags) (v : Obj) :
    jsonEncodeValue yy tcl flags v = (forced tcl flags v).bind (jsonEmit yy flags.plainOnly 0) := by
  unfold jsonEncodeValue forced
  split_ifs with list dict
  · unfold jsonEmitList
    cases listElements tcl v <;> rfl
  · unfold jsonEmitAsDict
    cases v with
    | typed x => rfl
    | str s => exact emit_readEntries yy flags.plainOnly _
    | list items => exact emit_readEntries yy flags.plainOnly _
    | dict entries => rfl
  · rfl

/-- Unless the call is refused (its words, its forced container, the depth
cap, a typed value under `-plain` or one the typed writer cannot write),
every key and every leaf the emitter writes itself is UTF-8. -/
def EncodesClean (yy : Yyjson) (tcl : Tcl) (args : List Obj) : Prop :=
  ∀ flags v w, encodeCall yy tcl args = .ok (flags, v) → forced tcl flags v = .ok w →
    Encodable flags.plainOnly 0 w.depth w.typedValues → ∀ s ∈ w.plainStrings, Utf8.WellFormed s

/-- An encoding succeeds where its words are a call, its value is converted
as the options ask, and the emitter accepts it; these are its only three
ways to fail. -/
theorem jsonEncode_ok_iff (yy : Yyjson) (tcl : Tcl) (args : List Obj) (out : Bytes) :
    jsonEncode yy tcl args = .ok out ↔
      ∃ flags v w, encodeCall yy tcl args = .ok (flags, v) ∧ forced tcl flags v = .ok w ∧
        jsonEmit yy flags.plainOnly 0 w = .ok out := by
  unfold jsonEncode
  constructor
  · intro encoded
    obtain ⟨⟨flags, v⟩, call, rest⟩ := Except.bind_ok.mp encoded
    have walked : (forced tcl flags v).bind (jsonEmit yy flags.plainOnly 0) = .ok out :=
      (jsonEncodeValue_forced yy tcl flags v).symm.trans rest
    obtain ⟨w, force, emitted⟩ := Except.bind_ok.mp walked
    exact ⟨flags, v, w, call, force, emitted⟩
  · rintro ⟨flags, v, w, call, force, emitted⟩
    refine Except.bind_ok.mpr ⟨(flags, v), call, ?_⟩
    exact (jsonEncodeValue_forced yy tcl flags v).trans (Except.bind_ok.mpr ⟨w, force, emitted⟩)

/-- A typed value shows itself as a text of its node exactly where its
strings are well formed. -/
theorem jsonTypeString_text_iff {yy : Yyjson} (spec : yy.Spec) (x : TypedJson) :
    Text x.node (jsonTypeString yy x) ↔ Clean x.node := by
  constructor
  · exact Text.strings
  · intro clean
    obtain ⟨s, written⟩ := (jsonNodeWrite_iff spec x).mpr clean
    have text := jsonNodeWrite_text spec written
    simpa only [jsonTypeString, written] using text

theorem null_text : Text .null (ascii "null") := ⟨by decide, .bare rfl⟩

/-- A successful encode is one valid text exactly for the calls whose own
keys and leaves are UTF-8, and a typed value's string is its JSON text
exactly when its strings are. -/
theorem jsonEncode_valid_iff {yy : Yyjson} (spec : yy.Spec) (tcl : Tcl) :
    (∀ args, (∀ out, jsonEncode yy tcl args = .ok out → ∃ t, Text t out ∧ yy.readOpts out = .ok t) ↔
      EncodesClean yy tcl args) ∧
    ∀ x : TypedJson, (Text x.node (jsonTypeString yy x) ∧
      (jsonTypeString yy x = ascii "null" → jsonNodeTag x = ascii "null")) ↔ Clean x.node := by
  constructor
  · intro args
    constructor
    · intro valid flags v w call force able
      obtain ⟨out, emitted⟩ := (jsonEmit_ok_iff spec w 0).mpr able
      obtain ⟨t, text, _⟩ := valid out ((jsonEncode_ok_iff yy tcl args out).mpr ⟨flags, v, w, call, force, emitted⟩)
      have clean := (jsonEmit_valid_iff spec emitted).mp ⟨t, text⟩
      exact (w.clean_iff.mp clean).2
    · intro clean out encoded
      obtain ⟨flags, v, w, call, force, emitted⟩ := (jsonEncode_ok_iff yy tcl args out).mp encoded
      have able := (jsonEmit_ok_iff spec w 0).mp ⟨out, emitted⟩
      have strings := clean flags v w call force able
      have text := (jsonEmit_text spec emitted).mpr (w.clean_iff.mpr ⟨able.written, strings⟩)
      exact ⟨w.tree, text, (spec.read_iff out w.tree).mpr text⟩
  · intro x
    constructor
    · exact fun both => (jsonTypeString_text_iff spec x).mp both.1
    · intro clean
      have text := (jsonTypeString_text_iff spec x).mpr clean
      refine ⟨text, fun null => ?_⟩
      rw [null] at text
      rw [jsonNodeTag, text_unique text null_text]

/-- `json value string` with U+0000 in it. -/
def nulTyped : TypedJson where
  wrap := .mdoc
  node := .string [0xC0, 0x80]
  literals := nofun
  decoded := nofun

theorem jsonEncode_valid_nul :
    jsonEncode referenceYyjson strictTcl [.str (ascii "--"), .str [0xC0, 0x80]] =
        .ok [dquote, 0xC0, 0x80, dquote] ∧
      (¬ ∃ t, Text t [dquote, 0xC0, 0x80, dquote]) ∧
      jsonTypeString referenceYyjson nulTyped = ascii "null" ∧ jsonNodeTag nulTyped = ascii "string" := by
  refine ⟨rfl, ?_, rfl, rfl⟩
  rintro ⟨t, text⟩
  exact absurd text.1 (by decide)

theorem jsonEncode_valid_sample :
    ((∀ out, jsonEncode referenceYyjson strictTcl [samplePlain] = .ok out →
        ∃ t, Text t out ∧ referenceYyjson.readOpts out = .ok t) ↔
      EncodesClean referenceYyjson strictTcl [samplePlain]) ∧
    ((Text nulTyped.node (jsonTypeString referenceYyjson nulTyped) ∧
      (jsonTypeString referenceYyjson nulTyped = ascii "null" → jsonNodeTag nulTyped = ascii "null")) ↔
        Clean nulTyped.node) :=
  have both := jsonEncode_valid_iff referenceYyjson_spec strictTcl
  ⟨both.1 [samplePlain], both.2 nulTyped⟩

end Machteld
