import Machteld.Json.Plain

namespace Machteld

open Rfc8259

/-- A call that hands `v` to `json encode` and no flag: behind `--`, or bare
where its string is not an option word. -/
def PlainCall (yy : Yyjson) (tcl : Tcl) (args : List Obj) (v : Obj) : Prop :=
  args = [.str (ascii "--"), v] ∨ args = [v] ∧ ¬ IsOptionWord (getString yy tcl v)

theorem PlainCall.encode {yy : Yyjson} {tcl : Tcl} {args : List Obj} {v : Obj} (call : PlainCall yy tcl args v) :
    jsonEncode yy tcl args = jsonEmit yy false 0 v := by
  rcases call with rfl | ⟨rfl, notOption⟩
  · rfl
  · exact jsonEncode_of_args (encodeArgs_value notOption) (by decide)

/-- Encoding a plain tree succeeds and decoding its text gives the value
back; a leaf is emitted bare exactly when it is a number literal. -/
theorem jsonEncode_roundTrip {yy : Yyjson} (spec : yy.Spec) (tcl : Tcl) {args : List Obj} {v : Obj}
    (call : PlainCall yy tcl args v) (plain : v.Plain PlainText) (nonempty : v.NoEmptyList)
    (nesting : v.depth ≤ 512) :
    (∃ text, jsonEncode yy tcl args = .ok text ∧ Text v.tree text ∧ jsonDecode yy tcl text = .ok v) ∧
      ∀ s depth, depth < 512 →
        (Number s → jsonEmit yy false depth (.str s) = .ok s) ∧
          (¬ Number s → jsonEmit yy false depth (.str s) = .ok (jsonQuote s)) := by
  have room : 0 + v.depth ≤ 512 := by omega
  obtain ⟨text, emitted, spelled⟩ := plain.emitted spec (fun _ => PlainText.wellFormed) room
  have back : yyToTcl 0 v.tree = some v := by
    rw [plain.decoded room, Obj.canon_same nonempty]
  refine ⟨⟨text, by rw [call.encode, emitted], spelled, (jsonDecode_ok_iff spec tcl).mpr ⟨_, spelled, back⟩⟩, ?_⟩
  intro s depth below
  constructor
  · intro number
    exact jsonCapped_ok.mpr ⟨below, by rw [if_pos ((jsonIsNumberLiteral_iff s).mpr number)]⟩
  · intro other
    have refused : ¬ jsonIsNumberLiteral s = true := fun accepted => other ((jsonIsNumberLiteral_iff s).mp accepted)
    exact jsonCapped_ok.mpr ⟨below, by rw [if_neg refused]⟩

/-- A Tcl with nothing to convert. -/
def strictTcl : Tcl where
  stringOf _ := []
  listOf _ := .error ⟨ascii "missing list", []⟩
  dictOf _ := .error ⟨ascii "missing value to go with key", [ascii "TCL", ascii "VALUE", ascii "DICTIONARY"]⟩
  exprOf v := .ok v
  wrongNumArgs usage := ⟨ascii "wrong # args: should be " ++ usage, [ascii "TCL", ascii "WRONGARGS"]⟩

def samplePlain : Obj :=
  .dict [(ascii "id", .list [.str (ascii "007"), .str (ascii "-1.5e3"), .dict []]), ([], .str [0x0A, 0xC3, 0xA9])]

theorem samplePlain_plain : samplePlain.Plain PlainText := by
  refine ⟨by decide, ⟨[0x69, 0x64], by decide, rfl⟩, ⟨?_, ?_, ⟨by decide, trivial⟩, trivial⟩, ?_, ?_, trivial⟩
  · exact ⟨[0x30, 0x30, 0x37], by decide, rfl⟩
  · exact ⟨[0x2D, 0x31, 0x2E, 0x35, 0x65, 0x33], by decide, rfl⟩
  · exact ⟨[], by decide, rfl⟩
  · exact ⟨[0x0A, 0xE9], by decide, rfl⟩

theorem jsonEncode_roundTrip_sample :
    ∃ text, jsonEncode referenceYyjson strictTcl [.str (ascii "--"), samplePlain] = .ok text ∧
      Text samplePlain.tree text ∧ jsonDecode referenceYyjson strictTcl text = .ok samplePlain :=
  have full : samplePlain.NoEmptyList :=
    ⟨⟨List.cons_ne_nil _ _, trivial, trivial, trivial, trivial⟩, trivial, trivial⟩
  (jsonEncode_roundTrip referenceYyjson_spec strictTcl (Or.inl rfl) samplePlain_plain full (by decide)).1

end Machteld
