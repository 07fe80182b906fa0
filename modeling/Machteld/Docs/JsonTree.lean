import Machteld.Docs.Json
import Machteld.Rfc8259.Writer

namespace Machteld

open Rfc8259

/-- A string in UTF-8, with U+0000 like any other character. -/
def charsUtf8 (value : Chars) : Bytes := value.flatMap Utf8.encode

def textJson (value : Chars) : Json := .string (charsUtf8 value)

def numberJson (value : Nat) : Json := .number (decimal value)

def nextJson (value : Option Nat) : Json := value.elim .null numberJson

def textsJson (values : List Chars) : Json := .array (values.map textJson)

def textDictJson (value : List (Chars × Chars)) : Json := .object (value.map fun p => (charsUtf8 p.1, textJson p.2))

/-- The object of some names and their values. -/
def objectJson (names : List String) (values : List Json) : Json := .object ((names.map ascii).zip values)

def productFactJson : ProductFact → Bytes × Json
  | .documents n => (ascii "documents", numberJson n)
  | .manualPages n => (ascii "manual_pages", numberJson n)
  | .version value => (ascii "version", textJson value)

def productsJson (value : List (Chars × List ProductFact)) : Json :=
  .object (value.map fun product => (charsUtf8 product.1, .object (product.2.map productFactJson)))

def summaryNames : List String := ["id", "product", "version", "type", "title", "summary", "names", "sections"]

def summaryJson (item : DocSummary) : List Json :=
  [textJson item.id, textJson item.product, textJson item.version, textJson item.type, textJson item.title,
    textJson item.summary,
    textsJson item.names, textDictJson item.sections]

def matchJson (item : DocsMatch) : List Json :=
  summaryJson item.summary ++ [numberJson item.score, textJson item.snippet]

def pageJson {α : Type} (item : α → Json) (page : DocsPage α) : Json :=
  objectJson ["items", "total", "offset", "limit", "returned", "truncated", "next"]
    [.array (page.items.map item), numberJson page.total, numberJson page.offset, numberJson page.limit,
      numberJson page.returned,
      .bool page.truncated, nextJson page.next]

/-- A string of the program's own. -/
def wordJson (word : String) : Json := .string (ascii word)

def wordsJson (words : List String) : Json := .array (words.map wordJson)

def paginationJson : Json :=
  objectJson ["list_search", "get"]
    [objectJson ["default_limit", "maximum_limit"] [numberJson 50, numberJson 200],
      objectJson ["unit", "default_limit", "maximum_limit"]
        [wordJson "characters", numberJson 32768, numberJson 1048576]]

def envelopeJson : Json :=
  objectJson ["success", "failure"]
    [objectJson ["ok", "result"] [.bool true, wordJson "value"],
      objectJson ["ok", "error"]
        [.bool false, objectJson ["domain", "code", "message"]
          [wordJson "DOCS", wordJson "code", wordJson "message"]]]

def formatsJson : Json :=
  objectJson ["content", "host", "json_envelope"] [wordsJson ["markdown", "html", "source"],
    wordsJson ["text", "json"], envelopeJson]

def hostJson : Json :=
  objectJson ["full", "wrapped", "options", "gui"]
    [wordsJson ["docs ...", "--docs ..."], wordsJson ["--machteld-docs ..."], wordsJson ["--json", "--output FILE"],
      wordJson "--output FILE required except for extract"]

/-- The result of a subcommand as a JSON value: texts are strings, counts
are numbers, lists are arrays and dicts are objects. -/
def docsTree : DocsResult → Json
  | .status facts =>
    objectJson ["schema", "generator", "machteld", "root", "corpus_sha256", "products", "documents", "aliases",
      "fragments", "formats"]
      [numberJson facts.schema, textJson facts.generator, textJson facts.machteld, textJson facts.root,
        textJson facts.corpusSha256,
        productsJson facts.products, numberJson facts.documents, numberJson facts.aliases,
          numberJson facts.fragments,
        textsJson facts.formats]
  | .list page => pageJson (fun item => objectJson summaryNames (summaryJson item)) page
  | .search page => pageJson (fun item => objectJson (summaryNames ++ ["score", "snippet"]) (matchJson item)) page
  | .get text =>
    objectJson ["id", "requested_id", "product", "version", "type", "title", "summary", "format", "section", "path",
      "sha256", "text",
        "names", "bytes", "total", "offset", "limit", "returned", "truncated", "next"]
      [textJson text.id, textJson text.requestedId, textJson text.product, textJson text.version,
        textJson text.type,
        textJson text.title, textJson text.summary, textJson text.format, textJson text.sectionName,
          textJson text.path,
        textJson text.sha256, textJson text.page.items, textsJson text.names, numberJson text.bytes,
          numberJson text.page.total,
        numberJson text.page.offset, numberJson text.page.limit, numberJson text.page.returned,
          .bool text.page.truncated,
        nextJson text.page.next]
  | .outline facts =>
    objectJson ["id", "requested_id", "title", "section", "sections"]
      [textJson facts.id, textJson facts.requestedId, textJson facts.title, textJson facts.sectionName,
        textDictJson facts.sections]
  | .verify facts =>
    objectJson ["ok", "documents", "files", "bytes", "corpus_sha256"]
      [.bool facts.ok, numberJson facts.documents, numberJson facts.files, numberJson facts.bytes,
        textJson facts.corpusSha256]
  | .extract facts =>
    objectJson ["path", "files", "bytes", "corpus_sha256"]
      [textJson facts.path, numberJson facts.files, numberJson facts.bytes, textJson facts.corpusSha256]
  | .schema facts =>
    objectJson ["schema", "catalog_schema", "command", "subcommands", "identifiers", "pagination", "host",
      "formats", "errorcode"]
      [numberJson 1, numberJson 1, wordJson "docs", textDictJson facts.subcommands, textDictJson facts.identifiers,
        paginationJson, hostJson, formatsJson, wordJson "MACHTELD DOCS code"]

/-- A string of Unicode scalar values. -/
def ScalarText (value : Chars) : Prop := ∀ c ∈ value, Utf8.IsScalar c

instance (value : Chars) : Decidable (ScalarText value) := List.decidableBAll (p := Utf8.IsScalar) value

def ScalarDict (value : List (Chars × Chars)) : Prop := ∀ p ∈ value, ScalarText p.1 ∧ ScalarText p.2

def ProductFact.Scalar : ProductFact → Prop
  | .version value => ScalarText value
  | _ => True

structure DocSummary.Scalar (item : DocSummary) : Prop where
  id : ScalarText item.id
  product : ScalarText item.product
  version : ScalarText item.version
  type : ScalarText item.type
  title : ScalarText item.title
  summary : ScalarText item.summary
  names : ∀ name ∈ item.names, ScalarText name
  sections : ScalarDict item.sections

/-- Every text of a result is a string of Unicode scalar values. -/
def DocsResult.Scalar : DocsResult → Prop
  | .status facts =>
    (∀ text ∈ [facts.generator, facts.machteld, facts.root, facts.corpusSha256] ++ facts.formats, ScalarText text) ∧
      ∀ product ∈ facts.products, ScalarText product.1 ∧ ∀ fact ∈ product.2, fact.Scalar
  | .schema facts => ScalarDict facts.subcommands ∧ ScalarDict facts.identifiers
  | .verify facts => ScalarText facts.corpusSha256
  | .list page => ∀ item ∈ page.items, item.Scalar
  | .get text =>
    ∀ t ∈ [text.id, text.requestedId, text.product, text.version, text.type, text.title, text.summary, text.format,
      text.sectionName,
      text.path, text.sha256, text.page.items] ++ text.names, ScalarText t
  | .outline facts =>
    (∀ text ∈ [facts.id, facts.requestedId, facts.title, facts.sectionName], ScalarText text) ∧
      ScalarDict facts.sections
  | .search page => ∀ item ∈ page.items, item.summary.Scalar ∧ ScalarText item.snippet
  | .extract facts => ScalarText facts.path ∧ ScalarText facts.corpusSha256

/-- A JSON value in UTF-8, without blanks around it. -/
def Spells (t : Json) (s : Bytes) : Prop := Utf8.WellFormed s ∧ Value t s

theorem Spells.text {t : Json} {s : Bytes} (spells : Spells t s) : Text t s := ⟨spells.1, .bare spells.2⟩

theorem docsJCharacters_append {s : Bytes} (plain : (0xC0 : UInt8) ∉ s) (rest : Bytes) :
    docsJCharacters (s ++ rest) = s.flatMap jsonEscape ++ docsJCharacters rest := by
  induction s with
  | nil => rfl
  | cons c s ih =>
    obtain ⟨other, later⟩ := not_or.mp (List.mem_cons.not.mp plain)
    have step : docsJCharacters (c :: (s ++ rest)) = jsonEscape c ++ docsJCharacters (s ++ rest) := by
      refine docsJCharacters.eq_3 c (s ++ rest) ?_
      intro tail same
      exact absurd same.symm other
    rw [List.cons_append, step, ih later, List.flatMap_cons, List.append_assoc]

theorem jsonEscape_chars {raw text : Bytes} (chars : Rfc8259.Chars raw text) (s : Bytes) :
    Rfc8259.Chars (s.flatMap jsonEscape ++ raw) (s ++ text) := by
  induction s with
  | nil => exact chars
  | cons c s ih =>
    rw [List.flatMap_cons, List.append_assoc]
    exact jsonEscape_spelling.reads c _ _ ih

/-- The characters of a string, U+0000 included, are read back. -/
theorem docsJCharacters_text {value : Chars} (scalar : ScalarText value) :
    Rfc8259.Chars (docsJCharacters (tclText value)) (charsUtf8 value) ∧
      Utf8.WellFormed (docsJCharacters (tclText value)) := by
  induction value with
  | nil => exact ⟨.nil, Utf8.wellFormed_nil⟩
  | cons c value ih =>
    obtain ⟨first, later⟩ := List.forall_mem_cons.mp scalar
    obtain ⟨chars, whole⟩ := ih later
    by_cases zero : c = 0
    · subst zero
      have spelled : docsJCharacters (tclText (0 :: value)) = ascii "\\u0000" ++ docsJCharacters (tclText value) :=
        rfl
      rw [spelled]
      refine ⟨.unicode (a := 0x30) (b := 0x30) (c := 0x30) (d := 0x30) (n := 0) rfl (by decide) chars, ?_⟩
      exact Utf8.WellFormed.append (by decide) whole
    · have plain : (0xC0 : UInt8) ∉ Utf8.encode c := Utf8.lead_of_wellFormed (Utf8.wellFormed_encode first)
      have spelled : tclText (c :: value) = Utf8.encode c ++ tclText value := by
        rw [tclText, List.flatMap_cons, tclEncode, if_neg zero]
        rfl
      rw [spelled, docsJCharacters_append plain]
      refine ⟨jsonEscape_chars chars _, Utf8.WellFormed.append ?_ whole⟩
      exact jsonEscape_spelling.flatMap_wellFormed [] _ (Utf8.wellFormed_encode first)

theorem spells_quoted {text raw : Bytes} (chars : Rfc8259.Chars raw text) (whole : Utf8.WellFormed raw) :
    Spells (.string text) (dquote :: (raw ++ [dquote])) :=
  ⟨(Utf8.wellFormed_cons (by decide) _).mpr (whole.append (by decide)), raw, rfl, chars⟩

theorem docsJString_text {value : Chars} (scalar : ScalarText value) :
    Spells (textJson value) (docsJString (tclText value)) :=
  have read := docsJCharacters_text scalar
  spells_quoted read.1 read.2

theorem docsJString_ascii {s : Bytes} (plain : (s.all fun c => decide (c.toNat < 0x80)) = true) :
    Spells (.string s) (docsJString s) := by
  have whole := wellFormed_of_ascii fun c member => of_decide_eq_true (List.all_eq_true.mp plain c member)
  have spelled := docsJCharacters_append (Utf8.lead_of_wellFormed whole) []
  rw [List.append_nil, docsJCharacters, List.append_nil] at spelled
  rw [docsJString, spelled]
  exact spells_quoted (jsonEscape_spelling.chars s) (jsonEscape_spelling.flatMap_wellFormed [] s whole)

theorem docsJNumber_spells (value : Nat) : Spells (numberJson value) (docsJNumber value) := by
  have number : Number (decimal value) :=
    ⟨[], decimal value, [], [], by simp, .inl rfl, decimal_intPart value, .inl rfl, .inl rfl⟩
  exact ⟨number.wellFormed, rfl, number⟩

theorem docsJBool_spells (value : Bool) : Spells (.bool value) (docsJBool value) := by
  refine ⟨?_, rfl⟩
  cases value <;> decide

theorem docsJNext_spells (value : Option Nat) : Spells (nextJson value) (docsJNext value) := by
  cases value with
  | none => exact ⟨by decide, rfl⟩
  | some n => exact docsJNumber_spells n

/-- Well-formed pieces stay well formed between commas. -/
theorem intercalate_wellFormed {pieces : List Bytes} (all : ∀ s ∈ pieces, Utf8.WellFormed s) :
    Utf8.WellFormed (([0x2C] : Bytes).intercalate pieces) := by
  cases pieces with
  | nil => exact Utf8.wellFormed_nil
  | cons s pieces =>
    obtain ⟨first, later⟩ := List.forall_mem_cons.mp all
    rw [intercalate_comma]
    refine first.append ?_
    clear all
    induction pieces with
    | nil => exact Utf8.wellFormed_nil
    | cons t pieces ih =>
      obtain ⟨next, rest⟩ := List.forall_mem_cons.mp later
      rw [List.flatMap_cons]
      exact ((Utf8.wellFormed_cons (by decide) t).mpr next).append (ih rest)

theorem moreItems_of_spells {items : List Json} {values : List Bytes} (spelled : List.Forall₂ Spells items values) :
    MoreItems items (values.flatMap (0x2C :: ·)) := by
  induction spelled with
  | nil => rfl
  | cons one _ ih => exact ⟨_, _, rfl, .bare one.2, ih⟩

/-- Items that are spelled one by one spell an array. -/
theorem docsJArray_spells {items : List Json} {values : List Bytes} (spelled : List.Forall₂ Spells items values) :
    Spells (.array items) (docsJArray values) := by
  have whole : ∀ s ∈ values, Utf8.WellFormed s := by
    induction spelled with
    | nil => exact fun s bad => absurd bad List.not_mem_nil
    | cons one _ ih => exact List.forall_mem_cons.mpr ⟨one.1, ih⟩
  refine ⟨Utf8.wellFormed_bracket (by decide) (by decide) (intercalate_wellFormed whole), _, rfl, ?_⟩
  cases spelled with
  | nil => exact fun c bad => absurd bad List.not_mem_nil
  | cons one later => exact ⟨_, _, intercalate_comma _ _, .bare one.2, moreItems_of_spells later⟩

theorem spells_map {α : Type} {tree : α → Json} {encode : α → Bytes} {items : List α}
    (spelled : ∀ item ∈ items, Spells (tree item) (encode item)) :
    List.Forall₂ Spells (items.map tree) (items.map encode) := by
  induction items with
  | nil => exact .nil
  | cons item items ih =>
    obtain ⟨first, later⟩ := List.forall_mem_cons.mp spelled
    exact .cons first (ih later)

theorem docsJStringArray_spells {values : List Chars} (scalar : ∀ value ∈ values, ScalarText value) :
    Spells (textsJson values) (docsJStringArray (values.map tclText)) := by
  refine docsJArray_spells ?_
  rw [List.map_map]
  exact spells_map fun value member => docsJString_text (scalar value member)

/-- A pair of `DocsJObject` spells a member in UTF-8. -/
def SpellsPair (pair : Bytes × Bytes) (member : Bytes × Json) : Prop :=
  Spells (.string member.1) (docsJString pair.1) ∧ Spells member.2 pair.2

/-- Members that are spelled one by one spell an object. -/
theorem docsJObject_spells {pairs : List (Bytes × Bytes)} {members : List (Bytes × Json)}
    (spelled : List.Forall₂ SpellsPair pairs members) : Spells (.object members) (docsJObject pairs) := by
  have values : List.Forall₂ SpellsMember pairs members := spelled.imp fun _ _ one => ⟨one.1.2, one.2.2⟩
  have whole : ∀ s ∈ pairs.map fun p => docsJString p.1 ++ 0x3A :: p.2, Utf8.WellFormed s := by
    clear * - spelled
    induction spelled with
    | nil => exact fun s bad => absurd bad List.not_mem_nil
    | cons one _ ih =>
      exact List.forall_mem_cons.mpr ⟨one.1.1.append ((Utf8.wellFormed_cons (by decide) _).mpr one.2.1), ih⟩
  exact ⟨Utf8.wellFormed_bracket (by decide) (by decide) (intercalate_wellFormed whole), docsJObject_value values⟩

theorem spellsPair_map {α : Type} {pair : α → Bytes × Bytes} {member : α → Bytes × Json} {items : List α}
    (spelled : ∀ item ∈ items, SpellsPair (pair item) (member item)) :
    List.Forall₂ SpellsPair (items.map pair) (items.map member) := by
  induction items with
  | nil => exact .nil
  | cons item items ih =>
    obtain ⟨first, later⟩ := List.forall_mem_cons.mp spelled
    exact .cons first (ih later)

theorem textDict_spells {value : List (Chars × Chars)} (scalar : ScalarDict value) :
    Spells (textDictJson value) (textDict value) := by
  refine docsJObject_spells ?_
  rw [List.map_map]
  exact spellsPair_map fun p member => ⟨docsJString_text (scalar p member).1, docsJString_text (scalar p member).2⟩

/-- An object with ASCII names. -/
theorem docsJObject_fields {names : List String} {values : List Json} {encoded : List Bytes}
    (plain : (names.all fun name => (ascii name).all fun c => decide (c.toNat < 0x80)) = true)
    (spelled : List.Forall₂ Spells values encoded) : Spells (objectJson names values)
    (docsJObject ((names.map ascii).zip encoded)) := by
  refine docsJObject_spells ?_
  induction names generalizing values encoded with
  | nil => exact .nil
  | cons name names ih =>
    obtain ⟨first, later⟩ := (Bool.and_eq_true ..).mp plain
    cases spelled with
    | nil => exact .nil
    | cons one rest => exact .cons ⟨docsJString_ascii first, one⟩ (ih later rest)

theorem productFact_spells {fact : ProductFact} (scalar : fact.Scalar) :
    SpellsPair (productFact fact) (productFactJson fact) := by
  cases fact with
  | documents n => exact ⟨@docsJString_ascii (ascii "documents") (by decide), docsJNumber_spells n⟩
  | manualPages n => exact ⟨@docsJString_ascii (ascii "manual_pages") (by decide), docsJNumber_spells n⟩
  | version value => exact ⟨@docsJString_ascii (ascii "version") (by decide), docsJString_text scalar⟩

theorem docsJProductDict_spells {value : List (Chars × List ProductFact)}
    (scalar : ∀ product ∈ value, ScalarText product.1 ∧ ∀ fact ∈ product.2, fact.Scalar) :
    Spells (productsJson value) (docsJProductDict value) := by
  refine docsJObject_spells (spellsPair_map fun product member => ⟨docsJString_text (scalar product member).1, ?_⟩)
  exact docsJObject_spells (spellsPair_map fun fact known => productFact_spells
    ((scalar product member).2 fact known))

theorem summary_spells {item : DocSummary} (scalar : item.Scalar) :
    List.Forall₂ Spells (summaryJson item) ((summaryPairs item).map Prod.snd) :=
  .cons (docsJString_text scalar.id) <| .cons (docsJString_text scalar.product) <|
    .cons (docsJString_text scalar.version) <|
    .cons (docsJString_text scalar.type) <| .cons (docsJString_text scalar.title) <|
      .cons (docsJString_text scalar.summary) <|
    .cons (docsJStringArray_spells scalar.names) <| .cons (textDict_spells scalar.sections) .nil

theorem docsJSummary_spells {item : DocSummary} (scalar : item.Scalar) :
    Spells (objectJson summaryNames (summaryJson item)) (docsJSummary item) :=
  docsJObject_fields (by decide) (summary_spells scalar)

theorem docsJMatch_spells {item : DocsMatch} (scalar : item.summary.Scalar ∧ ScalarText item.snippet) :
    Spells (objectJson (summaryNames ++ ["score", "snippet"]) (matchJson item)) (docsJMatch item) := by
  have spelled : List.Forall₂ Spells (matchJson item)
      ((summaryPairs item.summary).map Prod.snd ++ [docsJNumber item.score, docsJString (tclText item.snippet)]) :=
    List.rel_append (summary_spells scalar.1) (.cons (docsJNumber_spells _)
      (.cons (docsJString_text scalar.2) .nil))
  exact docsJObject_fields (by decide) spelled

theorem docsJPage_spells {α : Type} {tree : α → Json} {encode : α → Bytes} {page : DocsPage α}
    (items : ∀ item ∈ page.items, Spells (tree item) (encode item)) :
    Spells (pageJson tree page) (docsJPage encode page) :=
  docsJObject_fields (by decide) <| .cons (docsJArray_spells (spells_map items)) <| .cons (docsJNumber_spells _) <|
    .cons (docsJNumber_spells _) <| .cons (docsJNumber_spells _) <| .cons (docsJNumber_spells _) <|
      .cons (docsJBool_spells _) <|
    .cons (docsJNext_spells _) .nil

theorem word_spells {word : String} (plain : ((ascii word).all fun c => decide (c.toNat < 0x80)) = true) :
    Spells (wordJson word) (docsJString (ascii word)) := docsJString_ascii plain

theorem words_spells {words : List String}
    (plain : (words.all fun word => (ascii word).all fun c => decide (c.toNat < 0x80)) = true) :
    Spells (wordsJson words) (docsJStringArray (words.map ascii)) := by
  refine docsJArray_spells ?_
  rw [List.map_map]
  exact spells_map fun word member => word_spells (List.all_eq_true.mp plain word member)

theorem pagination_spells : Spells paginationJson schemaPagination := by
  refine docsJObject_fields (by decide) (.cons ?_ (.cons ?_ .nil))
  · exact docsJObject_fields (by decide) (.cons (docsJNumber_spells 50) (.cons (docsJNumber_spells 200) .nil))
  · exact docsJObject_fields (by decide)
      (.cons (word_spells (by decide)) (.cons (docsJNumber_spells 32768) (.cons (docsJNumber_spells 1048576) .nil)))

theorem envelope_spells : Spells envelopeJson schemaEnvelope := by
  refine docsJObject_fields (by decide) (.cons ?_ (.cons ?_ .nil))
  · exact docsJObject_fields (by decide) (.cons (docsJBool_spells true) (.cons (word_spells (by decide)) .nil))
  · refine docsJObject_fields (by decide) (.cons (docsJBool_spells false) (.cons ?_ .nil))
    exact docsJObject_fields (by decide)
      (.cons (word_spells (by decide)) (.cons (word_spells (by decide)) (.cons (word_spells (by decide)) .nil)))

theorem formats_spells : Spells formatsJson schemaFormats :=
  docsJObject_fields (by decide) (.cons (words_spells (by decide))
    (.cons (words_spells (by decide)) (.cons envelope_spells .nil)))

theorem host_spells : Spells hostJson schemaHost :=
  docsJObject_fields (by decide) <| .cons (words_spells (by decide)) <| .cons (words_spells (by decide)) <|
    .cons (words_spells (by decide)) <| .cons (word_spells (by decide)) .nil

/-- Every result is spelled as the JSON value that it is. -/
theorem docsJsonResult_spells {result : DocsResult} (scalar : result.Scalar) :
    Spells (docsTree result) (docsJsonResult result) := by
  cases result with
  | status facts =>
    obtain ⟨texts, products⟩ := scalar
    obtain ⟨generator, machteld, root, corpus, formats⟩ := by
      simpa only [List.cons_append, List.nil_append, List.forall_mem_cons] using texts
    exact docsJObject_fields (by decide) <| .cons (docsJNumber_spells _) <| .cons (docsJString_text generator) <|
      .cons (docsJString_text machteld) <| .cons (docsJString_text root) <| .cons (docsJString_text corpus) <|
      .cons (docsJProductDict_spells products) <| .cons (docsJNumber_spells _) <| .cons (docsJNumber_spells _) <|
      .cons (docsJNumber_spells _) <| .cons (docsJStringArray_spells formats) .nil
  | schema facts =>
    exact docsJObject_fields (by decide) <| .cons (docsJNumber_spells 1) <| .cons (docsJNumber_spells 1) <|
      .cons (word_spells (by decide)) <| .cons (textDict_spells scalar.1) <| .cons (textDict_spells scalar.2) <|
      .cons pagination_spells <| .cons host_spells <| .cons formats_spells <| .cons (word_spells (by decide)) .nil
  | verify facts =>
    exact docsJObject_fields (by decide) <| .cons (docsJBool_spells _) <| .cons (docsJNumber_spells _) <|
      .cons (docsJNumber_spells _) <| .cons (docsJNumber_spells _) <| .cons (docsJString_text scalar) .nil
  | list page => exact docsJPage_spells fun item member => docsJSummary_spells (scalar item member)
  | get text =>
    simp only [DocsResult.Scalar, List.cons_append, List.nil_append, List.forall_mem_cons] at scalar
    obtain ⟨id, requested, product, version, type, title, summary, format, sectionName, path, sha256, page,
      names⟩ := scalar
    exact docsJObject_fields (by decide) <| .cons (docsJString_text id) <| .cons (docsJString_text requested) <|
      .cons (docsJString_text product) <| .cons (docsJString_text version) <| .cons (docsJString_text type) <|
      .cons (docsJString_text title) <| .cons (docsJString_text summary) <| .cons (docsJString_text format) <|
      .cons (docsJString_text sectionName) <| .cons (docsJString_text path) <| .cons (docsJString_text sha256) <|
      .cons (docsJString_text page) <| .cons (docsJStringArray_spells names) <| .cons (docsJNumber_spells _) <|
      .cons (docsJNumber_spells _) <| .cons (docsJNumber_spells _) <| .cons (docsJNumber_spells _) <|
      .cons (docsJNumber_spells _) <| .cons (docsJBool_spells _) <| .cons (docsJNext_spells _) .nil
  | outline facts =>
    simp only [DocsResult.Scalar, List.forall_mem_cons] at scalar
    obtain ⟨⟨id, requested, title, sectionName, -⟩, sections⟩ := scalar
    exact docsJObject_fields (by decide) <| .cons (docsJString_text id) <| .cons (docsJString_text requested) <|
      .cons (docsJString_text title) <| .cons (docsJString_text sectionName) <|
        .cons (textDict_spells sections) .nil
  | search page => exact docsJPage_spells fun item member => docsJMatch_spells (scalar item member)
  | extract facts =>
    exact docsJObject_fields (by decide) <| .cons (docsJString_text scalar.1) <| .cons (docsJNumber_spells _) <|
      .cons (docsJNumber_spells _) <| .cons (docsJString_text scalar.2) .nil

/-- The JSON text of a result of Unicode scalar values is valid, and has the
types and the values of the result. -/
theorem docsJsonResult_faithful (result : DocsResult) (scalar : result.Scalar) :
    Text (docsTree result) (docsJsonResult result) :=
  (docsJsonResult_spells scalar).text

/-- A section that is empty, a title that looks like a number, and U+0000.
-/
theorem docsJsonResult_faithful_outline :
    (DocsResult.outline ⟨[0x61], [0x61], chars "12", [], [([0x62], [0, 0xA, 0x10FFFF])]⟩).Scalar ∧
    Text (.object [(ascii "id", .string (ascii "a")), (ascii "requested_id", .string (ascii "a")),
      (ascii "title", .string (ascii "12")),
        (ascii "section", .string []), (ascii "sections",
          .object [(ascii "b", .string [0, 0xA, 0xF4, 0x8F, 0xBF, 0xBF])])])
      (docsJsonResult (.outline ⟨[0x61], [0x61], chars "12", [], [([0x62], [0, 0xA, 0x10FFFF])]⟩)) := by
  have scalar : (DocsResult.outline ⟨[0x61], [0x61], chars "12", [], [([0x62], [0, 0xA, 0x10FFFF])]⟩).Scalar := by
    refine ⟨by decide, fun p member => ?_⟩
    obtain rfl := List.mem_singleton.mp member
    exact ⟨by decide, by decide⟩
  exact ⟨scalar, docsJsonResult_faithful _ scalar⟩

end Machteld
