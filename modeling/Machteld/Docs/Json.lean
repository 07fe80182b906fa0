import Machteld.Docs.Get
import Machteld.Docs.Search
import Machteld.Json.Encode

namespace Machteld

open Rfc8259

/-- The characters of `DocsJString` by the bytes of a string, U+0000 being
two. -/
def docsJCharacters : Bytes → Bytes
  | [] => []
  | 0xC0 :: 0x80 :: s => ascii "\\u0000" ++ docsJCharacters s
  | c :: s => jsonEscape c ++ docsJCharacters s

/-- `DocsJString` -/
def docsJString (value : Bytes) : Bytes := dquote :: (docsJCharacters value ++ [dquote])

/-- `DocsJNumber` -/
def docsJNumber (value : Nat) : Bytes := decimal value

/-- `DocsJBool` -/
def docsJBool (value : Bool) : Bytes := ascii (if value then "true" else "false")

/-- `DocsJNext` -/
def docsJNext (value : Option Nat) : Bytes := value.elim (ascii "null") docsJNumber

/-- `DocsJObject` -/
def docsJObject (pairs : List (Bytes × Bytes)) : Bytes :=
  0x7B :: ([0x2C].intercalate (pairs.map fun p => docsJString p.1 ++ 0x3A :: p.2) ++ [0x7D])

/-- `DocsJArray` -/
def docsJArray (encodedValues : List Bytes) : Bytes := 0x5B :: ([0x2C].intercalate encodedValues ++ [0x5D])

/-- `DocsJStringArray` -/
def docsJStringArray (values : List Bytes) : Bytes := docsJArray (values.map docsJString)

/-- `DocsJStringDict` -/
def docsJStringDict (value : List (Bytes × Bytes)) : Bytes :=
  docsJObject (value.map fun p => (p.1, docsJString p.2))

/-- A fact of a product in the catalog: `DocsLoad` has tested that there are
no others and that the numbers are numbers. -/
inductive ProductFact
  | documents (n : Nat)
  | manualPages (n : Nat)
  | version (value : Chars)

def productFact : ProductFact → Bytes × Bytes
  | .documents n => (ascii "documents", docsJNumber n)
  | .manualPages n => (ascii "manual_pages", docsJNumber n)
  | .version value => (ascii "version", docsJString (tclText value))

/-- `DocsJProductDict` -/
def docsJProductDict (value : List (Chars × List ProductFact)) : Bytes :=
  docsJObject (value.map fun product => (tclText product.1, docsJObject (product.2.map productFact)))

def textField (name : String) (value : Chars) : Bytes × Bytes := (ascii name, docsJString (tclText value))

def numberField (name : String) (value : Nat) : Bytes × Bytes := (ascii name, docsJNumber value)

def textDict (value : List (Chars × Chars)) : Bytes :=
  docsJStringDict (value.map fun p => (tclText p.1, tclText p.2))

/-- The pairs of `DocsJSummary` without a score and a snippet. -/
def summaryPairs (item : DocSummary) : List (Bytes × Bytes) :=
  [textField "id" item.id, textField "product" item.product, textField "version" item.version,
    textField "type" item.type,
    textField "title" item.title, textField "summary" item.summary,
    (ascii "names", docsJStringArray (item.names.map tclText)),
    (ascii "sections", textDict item.sections)]

/-- `DocsJSummary` of an item of `docs list`. -/
def docsJSummary (item : DocSummary) : Bytes := docsJObject (summaryPairs item)

/-- `DocsJSummary` of an item of `docs search`. -/
def docsJMatch (item : DocsMatch) : Bytes :=
  docsJObject (summaryPairs item.summary ++ [numberField "score" item.score, textField "snippet" item.snippet])

structure DocsStatusFacts where
  schema : Nat
  generator : Chars
  machteld : Chars
  root : Chars
  corpusSha256 : Chars
  products : List (Chars × List ProductFact)
  documents : Nat
  aliases : Nat
  fragments : Nat
  formats : List Chars

/-- What `DocsJsonResult` reads of the result of `docs schema`. -/
structure DocsSchemaFacts where
  subcommands : List (Chars × Chars)
  identifiers : List (Chars × Chars)

structure DocsVerifyFacts where
  ok : Bool
  documents : Nat
  files : Nat
  bytes : Nat
  corpusSha256 : Chars

structure DocsOutlineFacts where
  id : Chars
  requestedId : Chars
  title : Chars
  sectionName : Chars
  sections : List (Chars × Chars)

structure DocsExtractFacts where
  path : Chars
  files : Nat
  bytes : Nat
  corpusSha256 : Chars

/-- The result of a subcommand of `docs`. -/
inductive DocsResult
  | status (facts : DocsStatusFacts)
  | schema (facts : DocsSchemaFacts)
  | verify (facts : DocsVerifyFacts)
  | list (page : DocsPage DocSummary)
  | get (text : DocsText)
  | outline (facts : DocsOutlineFacts)
  | search (page : DocsPage DocsMatch)
  | extract (facts : DocsExtractFacts)

/-- `list` and `search` -/
def docsJPage {α : Type} (encode : α → Bytes) (page : DocsPage α) : Bytes :=
  docsJObject [(ascii "items", docsJArray (page.items.map encode)), numberField "total" page.total,
    numberField "offset" page.offset,
    numberField "limit" page.limit, numberField "returned" page.returned,
      (ascii "truncated", docsJBool page.truncated),
    (ascii "next", docsJNext page.next)]

def schemaPagination : Bytes :=
  docsJObject [
    (ascii "list_search", docsJObject [(ascii "default_limit", ascii "50"), (ascii "maximum_limit", ascii "200")]),
    (ascii "get", docsJObject [(ascii "unit", docsJString (ascii "characters")),
      (ascii "default_limit", ascii "32768"),
      (ascii "maximum_limit", ascii "1048576")])]

def schemaEnvelope : Bytes :=
  docsJObject [
    (ascii "success", docsJObject [(ascii "ok", docsJBool true), (ascii "result", docsJString (ascii "value"))]),
    (ascii "failure", docsJObject [(ascii "ok", docsJBool false),
      (ascii "error", docsJObject [(ascii "domain", docsJString (ascii "DOCS")),
        (ascii "code", docsJString (ascii "code")),
        (ascii "message", docsJString (ascii "message"))])])]

def schemaFormats : Bytes :=
  docsJObject [
    (ascii "content", docsJStringArray [ascii "markdown", ascii "html", ascii "source"]),
    (ascii "host", docsJStringArray [ascii "text", ascii "json"]),
    (ascii "json_envelope", schemaEnvelope)]

def schemaHost : Bytes :=
  docsJObject [
    (ascii "full", docsJStringArray [ascii "docs ...", ascii "--docs ..."]),
    (ascii "wrapped", docsJStringArray [ascii "--machteld-docs ..."]),
    (ascii "options", docsJStringArray [ascii "--json", ascii "--output FILE"]),
    (ascii "gui", docsJString (ascii "--output FILE required except for extract"))]

/-- `DocsJsonResult` -/
def docsJsonResult : DocsResult → Bytes
  | .status facts =>
    docsJObject [numberField "schema" facts.schema, textField "generator" facts.generator,
      textField "machteld" facts.machteld,
      textField "root" facts.root, textField "corpus_sha256" facts.corpusSha256,
        (ascii "products", docsJProductDict facts.products),
      numberField "documents" facts.documents, numberField "aliases" facts.aliases,
        numberField "fragments" facts.fragments,
      (ascii "formats", docsJStringArray (facts.formats.map tclText))]
  | .list page => docsJPage docsJSummary page
  | .search page => docsJPage docsJMatch page
  | .get text =>
    docsJObject [textField "id" text.id, textField "requested_id" text.requestedId,
      textField "product" text.product,
      textField "version" text.version, textField "type" text.type, textField "title" text.title,
        textField "summary" text.summary,
      textField "format" text.format, textField "section" text.sectionName, textField "path" text.path,
        textField "sha256" text.sha256,
      textField "text" text.page.items, (ascii "names", docsJStringArray (text.names.map tclText)),
        numberField "bytes" text.bytes,
      numberField "total" text.page.total, numberField "offset" text.page.offset,
        numberField "limit" text.page.limit,
      numberField "returned" text.page.returned, (ascii "truncated", docsJBool text.page.truncated),
      (ascii "next", docsJNext text.page.next)]
  | .outline facts =>
    docsJObject [textField "id" facts.id, textField "requested_id" facts.requestedId, textField "title" facts.title,
      textField "section" facts.sectionName, (ascii "sections", textDict facts.sections)]
  | .verify facts =>
    docsJObject [(ascii "ok", docsJBool facts.ok), numberField "documents" facts.documents,
      numberField "files" facts.files,
      numberField "bytes" facts.bytes, textField "corpus_sha256" facts.corpusSha256]
  | .extract facts =>
    docsJObject [textField "path" facts.path, numberField "files" facts.files, numberField "bytes" facts.bytes,
      textField "corpus_sha256" facts.corpusSha256]
  | .schema facts =>
    docsJObject [(ascii "schema", ascii "1"), (ascii "catalog_schema", ascii "1"),
      (ascii "command", docsJString (ascii "docs")),
      (ascii "subcommands", textDict facts.subcommands), (ascii "identifiers", textDict facts.identifiers),
      (ascii "pagination", schemaPagination), (ascii "host", schemaHost), (ascii "formats", schemaFormats),
      (ascii "errorcode", docsJString (ascii "MACHTELD DOCS code"))]

/-- The text of a JSON value. -/
def Encoded (s : Bytes) : Prop := ∃ t, Value t s

/-- What is written of a string is the inside of a JSON string. -/
theorem docsJCharacters_chars (s : Bytes) : ∃ text, Rfc8259.Chars (docsJCharacters s) text := by
  fun_induction docsJCharacters s with
  | case1 => exact ⟨[], .nil⟩
  | case2 s ih =>
    obtain ⟨text, chars⟩ := ih
    exact ⟨_, .unicode (a := 0x30) (b := 0x30) (c := 0x30) (d := 0x30) rfl (by decide) chars⟩
  | case3 c s other ih =>
    obtain ⟨text, chars⟩ := ih
    exact ⟨c :: text, jsonEscape_spelling.reads c _ _ chars⟩

theorem docsJString_quoted (value : Bytes) : ∃ text, Quoted text (docsJString value) := by
  obtain ⟨text, chars⟩ := docsJCharacters_chars value
  exact ⟨text, _, rfl, chars⟩

theorem docsJString_encoded (value : Bytes) : Encoded (docsJString value) := by
  obtain ⟨text, quoted⟩ := docsJString_quoted value
  exact ⟨.string text, quoted⟩

/-- A number is written as JSON spells it, without leading zeros. -/
theorem decimal_intPart (n : Nat) : IntPart (decimal n) := by
  have spelled : decimal n = (numberChars n).map UInt8.ofNat := by
    rw [decimal, numberChars, List.map_map]
    rfl
  have code : ∀ c ∈ numberChars n, 0x30 ≤ c ∧ c ≤ 0x39 ∧ (UInt8.ofNat c).toNat = c := by
    intro c member
    have range := List.all_eq_true.mp (numberChars_digits n) c member
    simp only [isDigitChar, Bool.and_eq_true, decide_eq_true_eq] at range
    have small : c < UInt8.size := Nat.lt_of_le_of_lt range.2 (by decide)
    exact ⟨range.1, range.2, UInt8.toNat_ofNat_of_lt small⟩
  have digit : ∀ c ∈ numberChars n, IsDigit (UInt8.ofNat c) := by
    intro c member
    obtain ⟨low, high, itself⟩ := code c member
    unfold IsDigit
    omega
  rcases Nat.eq_zero_or_pos n with rfl | positive
  · exact .inl rfl
  · have head := numberChars_head positive
    rw [spelled]
    cases number : numberChars n with
    | nil => rw [number] at head; cases head
    | cons c cs =>
      rw [number] at head digit code
      obtain ⟨first, later⟩ := List.forall_mem_cons.mp digit
      refine .inr ⟨UInt8.ofNat c, cs.map UInt8.ofNat, rfl, first, ?_, ?_⟩
      · intro bad
        have itself := (code c List.mem_cons_self).2.2
        rw [bad] at itself
        rw [List.head?_cons, Option.any_some, decide_eq_true_eq] at head
        exact head itself.symm
      · intro d member
        obtain ⟨d', inside, rfl⟩ := List.mem_map.mp member
        exact later d' inside

theorem docsJNumber_encoded (value : Nat) : Encoded (docsJNumber value) :=
  ⟨.number (decimal value), rfl, [], decimal value, [], [],
    by simp, .inl rfl, decimal_intPart value, .inl rfl, .inl rfl⟩

theorem docsJBool_encoded (value : Bool) : Encoded (docsJBool value) := ⟨.bool value, rfl⟩

theorem docsJNext_encoded (value : Option Nat) : Encoded (docsJNext value) := by
  cases value with
  | none => exact ⟨.null, rfl⟩
  | some n => exact docsJNumber_encoded n

theorem intercalate_comma (x : Bytes) (xs : List Bytes) :
    [0x2C].intercalate (x :: xs) = x ++ xs.flatMap (0x2C :: ·) := by
  induction xs generalizing x with
  | nil => simp [List.intercalate]
  | cons y ys ih =>
    have step : ([0x2C] : Bytes).intercalate (x :: y :: ys) = x ++ ([0x2C] ++ [0x2C].intercalate (y :: ys)) := by
      simp [List.intercalate]
    rw [step, ih, List.flatMap_cons]
    rfl

/-- A pair of `DocsJObject` spells a member. -/
def SpellsMember (pair : Bytes × Bytes) (member : Bytes × Json) : Prop :=
  Quoted member.1 (docsJString pair.1) ∧ Value member.2 pair.2

theorem docsJObject_more {pairs : List (Bytes × Bytes)} {members : List (Bytes × Json)}
    (spelled : List.Forall₂ SpellsMember pairs members) :
    MoreMembers members ((pairs.map fun p => docsJString p.1 ++ 0x3A :: p.2).flatMap (0x2C :: ·)) := by
  induction spelled with
  | nil => rfl
  | @cons pair member pairs members one _ ih =>
    refine ⟨docsJString pair.1, pair.2, _, ?_, .bare one.1, .bare one.2, ih⟩
    rw [List.map_cons, List.flatMap_cons, List.cons_append, List.append_assoc]
    rfl

/-- Members that are written one by one make an object. -/
theorem docsJObject_value {pairs : List (Bytes × Bytes)} {members : List (Bytes × Json)}
    (spelled : List.Forall₂ SpellsMember pairs members) :
    Value (.object members) (docsJObject pairs) := by
  refine ⟨_, rfl, ?_⟩
  cases spelled with
  | nil => exact fun c bad => absurd bad List.not_mem_nil
  | @cons pair member pairs members one later =>
    refine ⟨docsJString pair.1, pair.2, _, ?_, .bare one.1, .bare one.2, docsJObject_more later⟩
    rw [List.map_cons, intercalate_comma, List.append_assoc]
    rfl

theorem docsJObject_encoded {pairs : List (Bytes × Bytes)} (values : ∀ p ∈ pairs, Encoded p.2) :
    Encoded (docsJObject pairs) := by
  have spelled : ∃ members, List.Forall₂ SpellsMember pairs members := by
    induction pairs with
    | nil => exact ⟨[], .nil⟩
    | cons pair pairs ih =>
      obtain ⟨⟨t, value⟩, later⟩ := List.forall_mem_cons.mp values
      obtain ⟨members, rest⟩ := ih later
      obtain ⟨key, quoted⟩ := docsJString_quoted pair.1
      exact ⟨(key, t) :: members, .cons ⟨quoted, value⟩ rest⟩
  obtain ⟨members, spelled⟩ := spelled
  exact ⟨.object members, docsJObject_value spelled⟩

theorem docsJArray_more {values : List Bytes} (encoded : ∀ s ∈ values, Encoded s) :
    ∃ items, MoreItems items (values.flatMap (0x2C :: ·)) := by
  induction values with
  | nil => exact ⟨[], rfl⟩
  | cons s values ih =>
    obtain ⟨⟨t, value⟩, later⟩ := List.forall_mem_cons.mp encoded
    obtain ⟨items, rest⟩ := ih later
    exact ⟨t :: items, s, _, rfl, .bare value, rest⟩

theorem docsJArray_encoded {values : List Bytes} (encoded : ∀ s ∈ values, Encoded s) :
    Encoded (docsJArray values) := by
  cases values with
  | nil => exact ⟨.array [], [], rfl, fun c bad => absurd bad List.not_mem_nil⟩
  | cons s values =>
    obtain ⟨⟨t, value⟩, later⟩ := List.forall_mem_cons.mp encoded
    obtain ⟨items, rest⟩ := docsJArray_more later
    exact ⟨.array (t :: items), _, rfl, s, _, intercalate_comma s values, .bare value, rest⟩

theorem docsJStringArray_encoded (values : List Bytes) : Encoded (docsJStringArray values) := by
  refine docsJArray_encoded fun s member => ?_
  obtain ⟨value, -, rfl⟩ := List.mem_map.mp member
  exact docsJString_encoded value

theorem docsJStringDict_encoded (value : List (Bytes × Bytes)) : Encoded (docsJStringDict value) := by
  refine docsJObject_encoded fun p member => ?_
  obtain ⟨entry, -, rfl⟩ := List.mem_map.mp member
  exact docsJString_encoded entry.2

theorem docsJProductDict_encoded (value : List (Chars × List ProductFact)) : Encoded (docsJProductDict value) := by
  refine docsJObject_encoded fun p member => ?_
  obtain ⟨product, -, rfl⟩ := List.mem_map.mp member
  refine docsJObject_encoded fun p member => ?_
  obtain ⟨fact, -, rfl⟩ := List.mem_map.mp member
  cases fact with
  | documents n => exact docsJNumber_encoded n
  | manualPages n => exact docsJNumber_encoded n
  | version value => exact docsJString_encoded (tclText value)

theorem noPair_encoded : ∀ p ∈ ([] : List (Bytes × Bytes)), Encoded p.2 := fun _ bad => absurd bad List.not_mem_nil

theorem textField_encoded (name : String) (value : Chars) : Encoded (textField name value).2 :=
  docsJString_encoded _

theorem numberField_encoded (name : String) (value : Nat) : Encoded (numberField name value).2 :=
  docsJNumber_encoded _

theorem textDict_encoded (value : List (Chars × Chars)) : Encoded (textDict value) := docsJStringDict_encoded _

theorem summaryPairs_encoded (item : DocSummary) : ∀ p ∈ summaryPairs item, Encoded p.2 := by
  simpa only [summaryPairs, List.forall_mem_cons, textField_encoded, docsJStringArray_encoded, textDict_encoded,
    true_and] using noPair_encoded

theorem docsJSummary_encoded (item : DocSummary) : Encoded (docsJSummary item) :=
  docsJObject_encoded (summaryPairs_encoded item)

theorem docsJMatch_encoded (item : DocsMatch) : Encoded (docsJMatch item) := by
  refine docsJObject_encoded (List.forall_mem_append.mpr ⟨summaryPairs_encoded item.summary, ?_⟩)
  simpa only [List.forall_mem_cons, numberField_encoded, textField_encoded, true_and] using noPair_encoded

/-- A page is an object, whatever its items are. -/
theorem docsJPage_encoded {α : Type} {encode : α → Bytes} (encoded : ∀ item, Encoded (encode item))
    (page : DocsPage α) :
    Encoded (docsJPage encode page) := by
  have items : Encoded (docsJArray (page.items.map encode)) := by
    refine docsJArray_encoded fun s member => ?_
    obtain ⟨item, -, rfl⟩ := List.mem_map.mp member
    exact encoded item
  refine docsJObject_encoded ?_
  simpa only [List.forall_mem_cons, items, numberField_encoded, docsJBool_encoded, docsJNext_encoded,
    true_and] using noPair_encoded

theorem schemaPagination_encoded : Encoded schemaPagination := by
  have limit : ∀ n, Encoded (decimal n) := docsJNumber_encoded
  refine docsJObject_encoded (List.forall_mem_cons.mpr
    ⟨docsJObject_encoded ?_, List.forall_mem_singleton.mpr (docsJObject_encoded ?_)⟩)
  · exact List.forall_mem_cons.mpr ⟨limit 50, List.forall_mem_singleton.mpr (limit 200)⟩
  · exact List.forall_mem_cons.mpr ⟨docsJString_encoded _,
      List.forall_mem_cons.mpr ⟨limit 32768, List.forall_mem_singleton.mpr (limit 1048576)⟩⟩

theorem schemaEnvelope_encoded : Encoded schemaEnvelope := by
  refine docsJObject_encoded (List.forall_mem_cons.mpr
    ⟨docsJObject_encoded ?_, List.forall_mem_singleton.mpr (docsJObject_encoded ?_)⟩)
  · exact List.forall_mem_cons.mpr ⟨docsJBool_encoded true, List.forall_mem_singleton.mpr (docsJString_encoded _)⟩
  · refine List.forall_mem_cons.mpr ⟨docsJBool_encoded false,
      List.forall_mem_singleton.mpr (docsJObject_encoded ?_)⟩
    simpa only [List.forall_mem_cons, docsJString_encoded, true_and] using noPair_encoded

/-- Every result is spelled as a JSON value. -/
theorem docsJsonResult_encoded (result : DocsResult) : Encoded (docsJsonResult result) := by
  cases result with
  | status facts =>
    refine docsJObject_encoded ?_
    simpa only [List.forall_mem_cons, numberField_encoded, textField_encoded, docsJProductDict_encoded,
      docsJStringArray_encoded, true_and]
      using noPair_encoded
  | schema facts =>
    have one : Encoded (ascii "1") := docsJNumber_encoded 1
    have formats : Encoded schemaFormats := by
      refine docsJObject_encoded ?_
      simpa only [List.forall_mem_cons, docsJStringArray_encoded, schemaEnvelope_encoded,
        true_and] using noPair_encoded
    have host : Encoded schemaHost := by
      refine docsJObject_encoded ?_
      simpa only [List.forall_mem_cons, docsJStringArray_encoded, docsJString_encoded,
        true_and] using noPair_encoded
    refine docsJObject_encoded ?_
    simpa only [List.forall_mem_cons, one, docsJString_encoded, textDict_encoded, schemaPagination_encoded, host,
      formats, true_and] using noPair_encoded
  | verify facts =>
    refine docsJObject_encoded ?_
    simpa only [List.forall_mem_cons, docsJBool_encoded, numberField_encoded, textField_encoded,
      true_and] using noPair_encoded
  | list page => exact docsJPage_encoded docsJSummary_encoded page
  | get text =>
    refine docsJObject_encoded ?_
    simpa only [List.forall_mem_cons, numberField_encoded, textField_encoded, docsJStringArray_encoded,
      docsJBool_encoded, docsJNext_encoded,
      true_and] using noPair_encoded
  | outline facts =>
    refine docsJObject_encoded ?_
    simpa only [List.forall_mem_cons, textField_encoded, textDict_encoded, true_and] using noPair_encoded
  | search page => exact docsJPage_encoded docsJMatch_encoded page
  | extract facts =>
    refine docsJObject_encoded ?_
    simpa only [List.forall_mem_cons, numberField_encoded, textField_encoded, true_and] using noPair_encoded

end Machteld
