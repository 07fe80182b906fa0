import Machteld.Json.Encode
import Machteld.Rfc8259.ReaderComplete

namespace Machteld

open Rfc8259

mutual

/-- `yy_to_tcl`; no result stands for a breach of the depth cap. -/
def yyToTcl (depth : Nat) : Json → Option Obj
  | .null => if jsonMaxDepth ≤ depth then none else some (.str [])
  | .bool b => if jsonMaxDepth ≤ depth then none else some (.str (ascii (if b then "1" else "0")))
  | .number literal => if jsonMaxDepth ≤ depth then none else some (.str literal)
  | .string text => if jsonMaxDepth ≤ depth then none else some (.str text)
  | .array items => if jsonMaxDepth ≤ depth then none else (yyItemsToTcl (depth + 1) items).map newListObj
  | .object members => if jsonMaxDepth ≤ depth then none else (yyMembersToTcl (depth + 1) [] members).map .dict

def yyItemsToTcl (depth : Nat) : List Json → Option (List Obj)
  | [] => some []
  | item :: items => (yyToTcl depth item).bind fun o => (yyItemsToTcl depth items).map fun os => o :: os

/-- The members in wire order, put one by one into the dict. -/
def yyMembersToTcl (depth : Nat) (entries : List (Bytes × Obj)) : List (Bytes × Json) → Option (List (Bytes × Obj))
  | [] => some entries
  | (key, item) :: members =>
    (yyToTcl depth item).bind fun o => yyMembersToTcl depth (dictPut key o entries) members

end

/-- `%s (byte %zu)` in a buffer of 192 bytes. -/
def jsonParseMessage (err : YyjsonReadErr) : Bytes :=
  ((err.msg.getD (ascii "invalid JSON")) ++ (ascii " (byte " ++ (decimal err.pos ++ ascii ")"))).take 191

/-- The text as `json decode` reads it, once it has been told from an
option. -/
def jsonDecodeText (yy : Yyjson) (s : Bytes) : Except TclError Obj :=
  match yy.readOpts s with
  | .error err => .error (jsonErr "parse" (jsonParseMessage err))
  | .ok t =>
    match yyToTcl 0 t with
    | none => .error (jsonErr "depth" (ascii "too deeply nested"))
    | some v => .ok v

/-- `json decode` with one word. -/
def jsonDecode (yy : Yyjson) (tcl : Tcl) (s : Bytes) : Except TclError Obj :=
  if cString s = ascii "-typed" then .error (tcl.wrongNumArgs (ascii "?-typed? ?-maxbytes N? text"))
  else if cString s = ascii "-maxbytes" then
    .error (jsonErr "usage" (ascii "-maxbytes needs a positive byte count"))
  else jsonDecodeText yy s

/-- The reader and writer of the grammar themselves, as a library to run the
model with. -/
def referenceYyjson : Yyjson where
  readOpts s :=
    match readText jsonIsNumberLiteral s with
    | some t => .ok t
    | none => .error ⟨none, 0⟩
  valWrite t := if ∀ text ∈ t.strings, Utf8.WellFormed text then some (compact jsonEscape t) else none
  mutValWrite t := if ∀ text ∈ t.strings, Utf8.WellFormed text then some (compact jsonEscape t) else none

theorem referenceYyjson_spec : referenceYyjson.Spec where
  read_iff s t := by
    rw [← readText_iff jsonIsNumberLiteral_iff]
    simp only [referenceYyjson]
    cases readText jsonIsNumberLiteral s <;> simp
  valWrite_text numbers written := by
    simp only [referenceYyjson] at written
    split_ifs at written with clean
    exact Option.some.inj written ▸ jsonEscape_spelling.text numbers clean
  valWrite_clean _ clean := ⟨_, if_pos clean⟩
  mutValWrite_text numbers written := by
    simp only [referenceYyjson] at written
    split_ifs at written with clean
    exact Option.some.inj written ▸ jsonEscape_spelling.text numbers clean
  mutValWrite_clean _ clean := ⟨_, if_pos clean⟩

/-- A JSON text spells one tree only. -/
theorem text_unique {s : Bytes} {t t' : Json} (text : Text t s) (text' : Text t' s) : t = t' := by
  have read := readText_complete jsonIsNumberLiteral_iff text
  have read' := readText_complete jsonIsNumberLiteral_iff text'
  exact Option.some.inj (read.symm.trans read')

/-- A minus sign with no number behind it. -/
theorem Rfc8259.Text.not_minus {t : Json} {c : UInt8} {s : Bytes} (notNumber : ¬ IsNumberChar c) :
    ¬ Text t (0x2D :: c :: s) := by
  intro text
  have read := readText_complete jsonIsNumberLiteral_iff text
  have start : skipWs (0x2D :: c :: s) = 0x2D :: c :: s := skipWs_cons (by decide) _
  have refused : readNumber jsonIsNumberLiteral (0x2D :: c :: s) = none := by
    have minus : IsNumberChar 0x2D := by decide
    have literal : ((0x2D :: c :: s).takeWhile fun c => decide (IsNumberChar c)) = [0x2D] := by
      simp [minus, notNumber]
    simp only [readNumber, literal]
    rfl
  have value : readValue jsonIsNumberLiteral (0x2D :: c :: s).length (0x2D :: c :: s) = none := refused
  simp only [readText, start, value, Option.bind_none, ite_self] at read
  cases read

/-- No option word is a JSON text. -/
theorem Rfc8259.Text.not_option {t : Json} {s : Bytes} (text : Text t s) :
    cString s ≠ ascii "-typed" ∧ cString s ≠ ascii "-maxbytes" := by
  have split : s = cString s ++ s.dropWhile fun c => c != 0 := List.takeWhile_append_dropWhile.symm
  constructor
  · intro same
    rw [same] at split
    exact Text.not_minus (by decide) (split ▸ text)
  · intro same
    rw [same] at split
    exact Text.not_minus (by decide) (split ▸ text)

theorem jsonDecode_of_text {yy : Yyjson} (spec : yy.Spec) (tcl : Tcl) {s : Bytes} {t : Json} (text : Text t s) :
    jsonDecode yy tcl s = match yyToTcl 0 t with
      | none => .error (jsonErr "depth" (ascii "too deeply nested"))
      | some v => .ok v := by
  have options := text.not_option
  simp only [jsonDecode, if_neg options.1, if_neg options.2, jsonDecodeText, (spec.read_iff s t).mpr text]

/-- What plain decode accepts and what it makes of it. -/
theorem jsonDecode_ok_iff {yy : Yyjson} (spec : yy.Spec) (tcl : Tcl) {s : Bytes} {v : Obj} :
    jsonDecode yy tcl s = .ok v ↔ ∃ t, Text t s ∧ yyToTcl 0 t = some v := by
  constructor
  · intro decoded
    have accepted := decoded
    unfold jsonDecode jsonDecodeText at decoded
    split_ifs at decoded
    split at decoded
    · cases decoded
    · rename_i t read
      have text := (spec.read_iff s t).mp read
      refine ⟨t, text, ?_⟩
      rw [jsonDecode_of_text spec tcl text] at accepted
      split at accepted
      · cases accepted
      · rename_i value
        rw [value, Except.ok.inj accepted]
  · rintro ⟨t, text, value⟩
    rw [jsonDecode_of_text spec tcl text, value]

end Machteld
