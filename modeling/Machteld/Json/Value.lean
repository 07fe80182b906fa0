import Machteld.Dict
import Machteld.Rfc8259.Strings
import Mathlib.Data.List.TakeWhile

namespace Machteld

open Rfc8259

/-- A failed command: the message in the result and the `-errorcode`. -/
structure TclError where
  message : Bytes
  errorcode : List Bytes

/-- The error of `expr` for a NaN. -/
def exprDomainError : TclError :=
  ⟨ascii "domain error: argument not in valid range",
    [ascii "ARITH", ascii "DOMAIN", ascii "domain error: argument not in valid range"]⟩

/-- What `expr` returns of a word that it hands on, from what it leaves of
it. -/
def exprResult {α : Type} (left : Option α) : Except TclError α := left.elim (.error exprDomainError) .ok

theorem exprResult_ok {α : Type} {left : Option α} {word : α} : exprResult left = .ok word ↔ left = some word := by
  cases left with
  | none => exact iff_of_false nofun nofun
  | some handed =>
    exact ⟨fun same => congrArg some (Except.ok.inj same), fun same => congrArg _ (Option.some.inj same)⟩

/-- Which of its two documents a wrapper holds: one that
`json decode -typed` parsed, or one that the constructors built. -/
inductive JsonDocWrap
  | idoc
  | mdoc

/-- A typed value: a wrapper and a node of its document. Numbers enter a
document through the reader or the number gate, strings of an immutable
document through the reader. -/
structure TypedJson where
  wrap : JsonDocWrap
  node : Json
  literals : ∀ literal ∈ node.numbers, Number literal
  decoded : wrap = .idoc → ∀ text ∈ node.strings, Utf8.WellFormed text

/-- A Tcl value with the internal representation the emitter looks at. The
bytes are Tcl's own spelling, in which U+0000 is C0 80 and a surrogate is
three bytes; an object of any other type counts by its string. -/
inductive Obj
  | str (bytes : Bytes)
  | list (items : List Obj)
  | dict (entries : List (Bytes × Obj))
  | typed (value : TypedJson)

structure YyjsonReadErr where
  msg : Option Bytes
  pos : Nat

/-- The entry points of the vendored library the commands go through. -/
structure Yyjson where
  readOpts : Bytes → Except YyjsonReadErr Json
  valWrite : Json → Option Bytes
  mutValWrite : Json → Option Bytes

/-- Every string of a tree, member names included, is UTF-8. -/
def Clean (t : Json) : Prop := ∀ text ∈ t.strings, Utf8.WellFormed text

/-- What the commands rely on: the reader takes the texts of the grammar
with their numbers raw, and a writer spells every tree with clean strings.
-/
structure Yyjson.Spec (yy : Yyjson) : Prop where
  read_iff : ∀ s t, yy.readOpts s = .ok t ↔ Text t s
  valWrite_text : ∀ {t s}, (∀ literal ∈ t.numbers, Number literal) → yy.valWrite t = some s → Text t s
  valWrite_clean : ∀ {t}, (∀ literal ∈ t.numbers, Number literal) → Clean t → ∃ s, yy.valWrite t = some s
  mutValWrite_text : ∀ {t s}, (∀ literal ∈ t.numbers, Number literal) → yy.mutValWrite t = some s → Text t s
  mutValWrite_clean : ∀ {t}, (∀ literal ∈ t.numbers, Number literal) → Clean t → ∃ s, yy.mutValWrite t = some s

/-- What Tcl does with a value that is read as another type than its own,
and what `expr` makes of a value that is its whole result. -/
structure Tcl where
  stringOf : Obj → Bytes
  listOf : Obj → Except TclError (List Obj)
  dictOf : Obj → Except TclError (List (Bytes × Obj))
  exprOf : Obj → Except TclError Obj
  wrongNumArgs : Bytes → TclError

/-- The empty typed list does not exist until an element is appended. -/
def newListObj : List Obj → Obj
  | [] => .str []
  | items => .list items

def jsonMaxDepth : Nat := 512

def jsonErr (code : String) (message : Bytes) : TclError :=
  ⟨message, [ascii "MACHTELD", ascii "JSON", ascii code]⟩

/-- How C compares a string: up to its first zero byte. -/
def cString (s : Bytes) : Bytes := s.takeWhile fun c => c != 0

theorem cString_itself {s : Bytes} (noNul : 0 ∉ s) : cString s = s :=
  List.takeWhile_eq_self_iff.mpr fun _ member => bne_iff_ne.mpr fun zero => noNul (zero ▸ member)

def jsonNodeWrite (yy : Yyjson) (x : TypedJson) : Option Bytes :=
  match x.wrap with
  | .idoc => yy.valWrite x.node
  | .mdoc => yy.mutValWrite x.node

def jsonTypeString (yy : Yyjson) (x : TypedJson) : Bytes :=
  match jsonNodeWrite yy x with
  | none => ascii "null"
  | some s => s

def jsonNodeTag (x : TypedJson) : Bytes :=
  match x.node with
  | .null => ascii "null"
  | .bool _ => ascii "boolean"
  | .number _ => ascii "number"
  | .string _ => ascii "string"
  | .array _ => ascii "array"
  | .object _ => ascii "object"

/-- `Tcl_GetString` -/
def getString (yy : Yyjson) (tcl : Tcl) : Obj → Bytes
  | .str bytes => bytes
  | .typed x => jsonTypeString yy x
  | v => tcl.stringOf v

/-- `Tcl_ListObjGetElements` -/
def listElements (tcl : Tcl) : Obj → Except TclError (List Obj)
  | .list items => .ok items
  | v => tcl.listOf v

/-- The entries a `Tcl_DictObjFirst` walk visits. -/
def dictEntries (tcl : Tcl) : Obj → Except TclError (List (Bytes × Obj))
  | .dict entries => .ok entries
  | v => tcl.dictOf v

theorem jsonNodeWrite_text {yy : Yyjson} (spec : yy.Spec) {x : TypedJson} {s : Bytes}
    (written : jsonNodeWrite yy x = some s) : Text x.node s := by
  unfold jsonNodeWrite at written
  split at written
  · exact spec.valWrite_text x.literals written
  · exact spec.mutValWrite_text x.literals written

/-- The writer returns a text exactly for the nodes whose strings are UTF-8.
-/
theorem jsonNodeWrite_iff {yy : Yyjson} (spec : yy.Spec) (x : TypedJson) :
    (∃ s, jsonNodeWrite yy x = some s) ↔ Clean x.node := by
  constructor
  · rintro ⟨s, written⟩
    exact (jsonNodeWrite_text spec written).strings
  · intro clean
    unfold jsonNodeWrite
    split
    · exact spec.valWrite_clean x.literals clean
    · exact spec.mutValWrite_clean x.literals clean

end Machteld
