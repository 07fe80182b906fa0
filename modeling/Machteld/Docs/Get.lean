import Machteld.Docs.Catalog

namespace Machteld

/-- The files of the reference: where a path of the catalog is, the decoded
text or the message why it cannot be read, and `hash sum sha256`. -/
structure DocsFiles where
  join : Chars → Except TclError Chars
  isFile : Chars → Bool
  readUtf8 : Chars → Except Bytes Chars
  sha256 : Bytes → Option Chars

/-- What `docs get` returns. -/
structure DocsText where
  id : Chars
  requestedId : Chars
  product : Chars
  version : Chars
  type : Chars
  title : Chars
  summary : Chars
  names : List Chars
  format : Chars
  sectionName : Chars
  path : Chars
  sha256 : Chars
  bytes : Nat
  page : DocsPage Nat

/-- What `DocsGet` reads of its options. -/
structure DocsGetOptions where
  all : Bool
  offset : Nat
  limit : Nat
  format : Chars
  sectionName : Chars

def getDefaults : List (Chars × Chars) :=
  [(chars "section", []), (chars "format", chars "markdown"), (chars "offset", chars "0"),
    (chars "limit", chars "32768"), (chars "all", chars "0")]

def getAllowed : List Chars := [chars "-section", chars "-format", chars "-offset", chars "-limit", chars "-all"]

/-- The options of `DocsGet` behind `DocsOptions`. -/
def docsGetChecked (tables : CharTables) (options : List (Chars × Chars)) (supplied : List Chars) :
    Except TclError DocsGetOptions := do
  let all ← docsStrictBoolean (optionValue "all" options) "-all"
  if all && (supplied.contains (chars "-offset") || supplied.contains (chars "-limit")) then
    .error (docsFail "usage" (ascii "docs: -all cannot be combined with -offset or -limit"))
  else do
    let offset ← docsInteger (optionValue "offset" options) "-offset" 0 2147483647
    let limit ← docsInteger (optionValue "limit" options) "-limit" 1 1048576
    let format := tables.toLower (optionValue "format" options)
    if [chars "markdown", chars "html", chars "source"].contains format then
      return ⟨all, offset, limit, format, tables.toLower (optionValue "section" options)⟩
    else .error (docsFail "badvalue" (ascii "docs: -format must be markdown, html, or source"))

def docsGetOptions (tables : CharTables) (args : List Chars) : Except TclError DocsGetOptions := do
  let options ← docsOptions getAllowed args getDefaults []
  docsGetChecked tables options.1 options.2

/-- The section that is asked for by the id's fragment or by `-section`. -/
def docsGetSection (fragment asked : Chars) : Except TclError Chars :=
  if 32767 < asked.length then .error (docsFail "badvalue" (ascii "docs: section is too long"))
  else if fragment ≠ [] ∧ asked ≠ [] ∧ fragment ≠ asked then
    .error (docsFail "usage" (ascii "docs: the id fragment and -section select different sections"))
  else .ok (if asked = [] then fragment else asked)

def docsRepresentationError (canonical format : Chars) (what : String) : TclError :=
  docsFail "corrupt"
    (ascii "docs: " ++ (tclText format ++ (ascii " representation for " ++ (tclText canonical ++ ascii what))))

/-- The text of a representation, with its integrity tested. -/
def docsGetWhole (files : DocsFiles) (canonical format : Chars) (representation : DocFormat) :
    Except TclError Chars := do
  let path ← files.join representation.path
  if files.isFile path then
    match files.readUtf8 path with
    | .error message =>
      .error (docsFail "corrupt" (ascii "docs: cannot read embedded " ++
        (tclText format ++ (ascii " representation for " ++
        (tclText canonical ++ (ascii ": " ++ message))))))
    | .ok text =>
      let bytes := text.flatMap Utf8.encode
      if files.sha256 bytes = some representation.sha256 ∧ bytes.length = representation.bytes ∧
          text.length = representation.characters then .ok text
      else .error (docsRepresentationError canonical format " failed integrity validation")
  else .error (docsRepresentationError canonical format " is missing")

/-- The text of a section. -/
def docsGetSlice (canonical format sectionName : Chars) (record : DocRecord) (representation : DocFormat)
    (text : Chars) :
    Except TclError Chars :=
  if sectionName = [] then .ok text
  else if (dictGet sectionName record.sections).isNone then
    .error (docsFail "notfound" (ascii "docs: " ++ (tclText canonical ++ (ascii " has no section \"" ++
      (tclText sectionName ++ ascii "\"")))))
  else
    match dictGet sectionName representation.sections with
    | none =>
      .error (docsFail "unsupported" (ascii "docs: section \"" ++
        (tclText sectionName ++ (ascii "\" is unavailable in " ++
        (tclText format ++ ascii " form")))))
    | some range =>
      if range.stop < range.start ∨ text.length < range.stop then
        .error (docsFail "corrupt" (ascii "docs: invalid section bounds for " ++
          (tclText canonical ++ (ascii "#" ++ tclText sectionName))))
      else .ok (tclRange text range.start (range.stop - 1))

/-- The page of a text. -/
def docsGetPage (o : DocsGetOptions) (text : Chars) : DocsPage Nat :=
  let total := text.length
  if o.all then ⟨text, total, 0, total, text.length, false, none⟩
  else
    let page := tclRange text o.offset (o.offset + o.limit - 1)
    let next := if o.offset + page.length < total then some (o.offset + page.length) else none
    ⟨page, total, o.offset, o.limit, page.length, next.isSome, next⟩

/-- What `DocsGet` finds of a document: what it returns but for the page,
and the text that is paged. -/
def docsGetFound (tables : CharTables) (catalog : DocsCatalog) (files : DocsFiles) (id format asked : Chars) :
    Except TclError ((DocsPage Nat → DocsText) × Chars) := do
  let target ← docsResolve tables catalog id
  let sectionName ← docsGetSection target.2 asked
  match dictGet target.1 catalog.documents with
  | none => .error (dictKeyUnknown target.1)
  | some record =>
    match dictGet format record.formats with
    | none =>
      .error (docsFail "unsupported" (ascii "docs: " ++ (tclText target.1 ++ (ascii " has no " ++
        (tclText format ++ ascii " representation")))))
    | some representation => do
      let whole ← docsGetWhole files target.1 format representation
      let text ← docsGetSlice target.1 format sectionName record representation whole
      return (DocsText.mk target.1 id record.product record.version record.type record.title record.summary
        record.names format
        sectionName representation.path representation.sha256 representation.bytes, text)

/-- `DocsGet` -/
def docsGet (tables : CharTables) (catalog : DocsCatalog) (files : DocsFiles) (args : List Chars) :
    Except TclError DocsText :=
  match args with
  | [] => .error (docsFail "usage" (ascii "docs: wrong # args: should be \"docs get id ?options?\""))
  | id :: optionArgs => do
    let o ← docsGetOptions tables optionArgs
    let found ← docsGetFound tables catalog files id o.format o.sectionName
    return found.1 (docsGetPage o found.2)

end Machteld
