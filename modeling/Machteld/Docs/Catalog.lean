import Machteld.Docs.Options
import Machteld.Docs.Page

namespace Machteld

/-- Where a section lies in the text of a representation. -/
structure DocRange where
  start : Nat
  stop : Nat

structure DocFormat where
  path : Chars
  sha256 : Chars
  bytes : Nat
  characters : Nat
  sections : List (Chars × DocRange)

structure DocRecord where
  id : Chars
  product : Chars
  version : Chars
  type : Chars
  title : Chars
  summary : Chars
  names : List Chars
  sections : List (Chars × Chars)
  formats : List (Chars × DocFormat)

/-- What `DocsLoad` returns, with the bounds that it has tested. -/
structure DocsCatalog where
  products : List Chars
  documents : List (Chars × DocRecord)
  aliases : List (Chars × List Chars)
  fragments : List (Chars × (Chars × Chars))
  few : documents.length ≤ 10000
  small : ∀ document ∈ documents, ∀ format ∈ document.2.formats, format.2.characters ≤ 67108864

/-- `DocsSummary` -/
structure DocSummary where
  id : Chars
  product : Chars
  version : Chars
  type : Chars
  title : Chars
  summary : Chars
  names : List Chars
  sections : List (Chars × Chars)

def docsSummary (record : DocRecord) : DocSummary :=
  ⟨record.id, record.product, record.version, record.type, record.title, record.summary, record.names,
    record.sections⟩

/-- `DocsNormalizeAlias` -/
def docsNormalizeAlias (tables : CharTables) (value : Chars) : Chars :=
  replaceRuns tables.space false (tables.toLower (tables.trim value))

/-- `^([^#]+)#(.+)$` -/
def splitFragment (key : Chars) : Option (Chars × Chars) :=
  let base := key.takeWhile (· ≠ 0x23)
  let fragment := (key.dropWhile (· ≠ 0x23)).drop 1
  if base ≠ [] ∧ fragment ≠ [] then some (base, fragment) else none

/-- `DocsResolve` from its candidates on. -/
def docsResolveOne (catalog : DocsCatalog) (requested sectionName : Chars) (candidates : List Chars) :
    Except TclError (Chars × Chars) :=
  match candidates with
  | [id] =>
    if sectionName ≠ [] ∧ ((dictGet id catalog.documents).bind fun record =>
      dictGet sectionName record.sections).isNone then
      .error (docsFail "notfound" (ascii "docs: " ++ (tclText id ++
        (ascii " has no section \"" ++ (tclText sectionName ++ ascii "\"")))))
    else .ok (id, sectionName)
  | candidates =>
    .error (docsFail "ambiguous" (ascii "docs: \"" ++
      (tclText requested ++ (ascii "\" is ambiguous; candidates: " ++
      (ascii ", ").intercalate (candidates.map tclText)))))

/-- `DocsResolve` from a key with its section on. -/
def docsResolveKey (tables : CharTables) (catalog : DocsCatalog) (requested key sectionName : Chars) :
    Except TclError (Chars × Chars) :=
  if (dictGet key catalog.documents).isSome then docsResolveOne catalog requested sectionName [key]
  else
    match dictGet (docsNormalizeAlias tables key) catalog.aliases with
    | some candidates => docsResolveOne catalog requested sectionName ((candidates.mergeSort charsLe).eraseDups)
    | none =>
      .error (docsFail "notfound" (ascii "docs: no document matches \"" ++ (tclText requested ++ ascii "\"")))

/-- `DocsResolve`: the document and its section. -/
def docsResolve (tables : CharTables) (catalog : DocsCatalog) (requested : Chars) :
    Except TclError (Chars × Chars) :=
  let key := tables.toLower (tables.trim requested)
  if 32767 < requested.length then .error (docsFail "badvalue" (ascii "docs: document id is too long"))
  else if key = [] then .error (docsFail "badvalue" (ascii "docs: document id must not be empty"))
  else if (dictGet key catalog.documents).isSome then .ok (key, [])
  else
    match dictGet key catalog.fragments with
    | some target => .ok target
    | none =>
      match splitFragment key with
      | some (base, fragment) => docsResolveKey tables catalog requested base fragment
      | none => docsResolveKey tables catalog requested key []

/-- What `DocsFilterOptions` reads of its options. -/
structure DocsFilter where
  scope : Chars
  type : Chars
  offset : Nat
  limit : Nat

def orAll (s : Chars) : Chars := if s = [] then chars "all" else s

def filterDefaults : List (Chars × Chars) :=
  [(chars "scope", chars "all"), (chars "type", chars "all"), (chars "offset", chars "0"),
    (chars "limit", chars "50")]

def filterAllowed : List Chars := [chars "-scope", chars "-type", chars "-offset", chars "-limit"]

def docsUnknown (what : String) (value : Chars) : TclError :=
  docsFail "badvalue" (ascii "docs: unknown " ++ (ascii what ++ (ascii " \"" ++ (tclText value ++ ascii "\""))))

/-- `DocsFilterOptions` behind `DocsOptions`. -/
def docsFilter (tables : CharTables) (catalog : DocsCatalog) (options : List (Chars × Chars)) :
    Except TclError DocsFilter :=
  let scope := orAll (tables.toLower (optionValue "scope" options))
  let type := orAll (tables.toLower (optionValue "type" options))
  if scope ≠ chars "all" ∧ catalog.products.contains scope = false then .error
    (docsUnknown "scope" (optionValue "scope" options))
  else if type ≠ chars "all" ∧ (catalog.documents.any fun document => document.2.type == type) = false then
    .error (docsUnknown "type" (optionValue "type" options))
  else do
    let offset ← docsInteger (optionValue "offset" options) "-offset" 0 2147483647
    let limit ← docsInteger (optionValue "limit" options) "-limit" 1 200
    return ⟨scope, type, offset, limit⟩

/-- `DocsFilterOptions` -/
def docsFilterOptions (tables : CharTables) (catalog : DocsCatalog) (args : List Chars) :
    Except TclError DocsFilter := do
  let options ← docsOptions filterAllowed args filterDefaults []
  docsFilter tables catalog options.1

/-- The filters of `DocsList` and `DocsSearch`. -/
def DocsFilter.passes (filter : DocsFilter) (record : DocRecord) : Bool :=
  (filter.scope == chars "all" || record.product == filter.scope) &&
    (filter.type == chars "all" || record.type == filter.type)

/-- The items of `DocsList` in their order. -/
def docsListItems (catalog : DocsCatalog) (filter : DocsFilter) : List DocSummary :=
  (((catalog.documents.map Prod.snd).filter filter.passes).map docsSummary).mergeSort fun a b => charsLe a.id b.id

/-- `DocsList` -/
def docsList (tables : CharTables) (catalog : DocsCatalog) (args : List Chars) :
    Except TclError (DocsPage DocSummary) := do
  let filter ← docsFilterOptions tables catalog args
  return docsPage (docsListItems catalog filter) filter.offset filter.limit

end Machteld
