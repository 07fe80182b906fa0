import Machteld.Docs.Pack
import Machteld.Docs.Search

namespace Machteld

def identityKeys : List String := ["bytes", "path", "sha256"]

def searchKeys : List String := ["aliases", "body", "display_snippets", "priority", "snippets", "summary", "title"]

/-- The checks of `DocsLoadSearch` on the catalog and the file. -/
def docsLoadSearchIdentity (rt : DocsRuntime) (catalog : Chars) (file : PackFile) : Except TclError Unit := do
  refuse (anyOf [.ok (!rawExists rt.tcl catalog [chars "search"]), caught (rt.entries catalog "search"),
      .ok (!rawExists rt.tcl catalog [chars "search", chars "path"]),
        .ok (!rawExists rt.tcl catalog [chars "search", chars "sha256"]),
      .ok (!rawExists rt.tcl catalog [chars "search", chars "bytes"]),
      do return (← rawGetIn rt.tcl catalog [chars "search", chars "path"]) != chars "search.dict"])
    (corrupt (ascii "docs: catalog has no valid search identity"))
  let search ← rt.get catalog "search"
  refuse (keysDiffer rt.tcl search identityKeys) (corrupt (ascii "docs: invalid search identity fields"))
  let sha256 ← rt.get search "sha256"
  docsValidateHash sha256 (ascii "search")
  let bytes ← rt.get search "bytes"
  docsNonnegative bytes (ascii "search")
  refuse (.ok (decide (charsValue bytes = 0) || decide (268435456 < charsValue bytes)))
    (corrupt (ascii "docs: embedded search index is too large"))
  refuse (.ok (file.size != some (charsValue bytes) || file.hash != some sha256))
    (corrupt (ascii "docs: embedded search index failed integrity validation"))

/-- The checks of `DocsLoadSearch` on the fields of the index. -/
def docsLoadSearchHead (rt : DocsRuntime) (catalog index : Chars) : Except TclError Unit := do
  refuse (anyOf [rt.notUnique index (ascii "search index"),
    keysDiffer rt.tcl index ["documents", "normalization", "schema"],
      do return (← rt.get index "schema") != chars "1",
      do return (← rt.get index "normalization") != chars "unicode-lower-whitespace-v1",
      do rt.notUnique (← rt.get index "documents") (ascii "search documents")])
    (corrupt (ascii "docs: embedded search index is malformed"))
  let indexed ← rt.entries index "documents"
  let documents ← rt.entries catalog "documents"
  refuse (.ok (indexed.length != documents.length))
    (corrupt (ascii "docs: search index document inventory disagrees with the catalog"))

def searchPriorities : List (Chars × Nat) :=
  [(chars "machteld/command", 400), (chars "tcl/command", 300), (chars "tk/command", 250),
    (chars "machteld/guide", 220),
    (chars "machteld/index", 220), (chars "tcl/application", 200), (chars "tk/application", 200),
      (chars "tcl/c-api", 100),
    (chars "tk/c-api", 90)]

def expectedPriority (product type : Chars) : Nat := (dictGet (product ++ 0x2F :: type) searchPriorities).getD 180

def docsLoadSearchComplete (rt : DocsRuntime) (id : Bytes) (record : Chars) (field : String) :
    Except TclError Unit :=
  refuse (.ok (!rawExists rt.tcl record [chars field])) (corruptFor "docs: incomplete search record for " id)

def docsLoadSearchField (rt : DocsRuntime) (id : Bytes) (record : Chars) (field : String) : Except TclError Unit :=
  do
  let value ← rt.get record field
  refuse (.ok (decide (65536 < value.length) || value != docsNormalizeAlias rt.tables value))
    (corruptFor "docs: oversized search field for " id)

/-- The checks of `DocsLoadSearch` on what a record tells of its document.
-/
def docsLoadSearchMetadata (rt : DocsRuntime) (catalog id record : Chars) : Except TclError Unit := do
  let priority ← rt.get record "priority"
  refuse (.ok (decide (10 < priority.length) || !canonicalDigits priority ||
    decide (2147483647 < charsValue priority)))
    (corruptFor "docs: invalid search priority for " (tclText id))
  let document ← rawGetIn rt.tcl catalog [chars "documents", id]
  let product ← rt.get document "product"
  let type ← rt.get document "type"
  let normal := docsNormalizeAlias rt.tables
  refuse (anyOf [.ok (charsValue priority != expectedPriority product type),
      do return (← rt.get record "title") != normal (← rt.get document "title"),
      do return (← rt.get record "aliases") !=
        normal ([0x20].intercalate (← (← rt.get document "names") |> rt.tcl.words)),
      do return (← rt.get record "summary") != normal (← rt.get document "summary")])
    (corruptFor "docs: search metadata disagrees for " (tclText id))

def docsLoadSnippet (rt : DocsRuntime) (catalog id record : Chars) (entry : Chars × Chars) : Except TclError Unit :=
  refuse (anyOf [.ok (!rawExists rt.tcl catalog [chars "documents", id, chars "sections", entry.1]),
    .ok (decide (4096 < entry.2.length)),
      .ok (entry.2 != docsNormalizeAlias rt.tables entry.2),
      do return decide (4096 < (← rawGetIn rt.tcl record [chars "display_snippets", entry.1]).length)])
    (corruptFor "docs: invalid search snippet for " (tclText id ++ (ascii "#" ++ tclText entry.1)))

/-- The checks of `DocsLoadSearch` on the texts of a record. -/
def docsLoadSearchTexts (rt : DocsRuntime) (catalog id record : Chars) : Except TclError Unit := do
  eachOf (docsLoadSearchField rt (tclText id) record) ["title", "aliases", "summary"]
  let body ← rt.get record "body"
  refuse (.ok (decide (8388608 < body.length) || body != docsNormalizeAlias rt.tables body))
    (corruptFor "docs: invalid search body for " (tclText id))
  refuse (anyOf [do rt.notUnique (← rt.get record "snippets") (tclText id ++ ascii " search snippets"),
      do rt.notUnique (← rt.get record "display_snippets") (tclText id ++ ascii " display snippets"),
      do return (← rt.entries record "snippets").map Prod.fst !=
        (← rt.entries record "display_snippets").map Prod.fst])
    (corruptFor "docs: invalid search snippets for " (tclText id))
  let snippets ← rt.entries record "snippets"
  eachOf (docsLoadSnippet rt catalog id record) snippets

/-- The loop of `DocsLoadSearch` over the records. -/
def docsLoadSearchRecord (rt : DocsRuntime) (catalog : Chars) (entry : Chars × Chars) : Except TclError Unit := do
  let id := tclText entry.1
  let record := entry.2
  refuse (anyOf [.ok (!rawExists rt.tcl catalog [chars "documents", entry.1]),
    rt.notUnique record (ascii "search record " ++ id)])
    (corrupt (ascii "docs: search index contains an unknown document"))
  refuse (keysDiffer rt.tcl record searchKeys) (corruptFor "docs: search record fields disagree for " id)
  eachOf (docsLoadSearchComplete rt id record) ["priority", "title", "aliases", "summary", "body", "snippets",
    "display_snippets"]
  docsLoadSearchMetadata rt catalog entry.1 record
  docsLoadSearchTexts rt catalog entry.1 record

/-- `DocsLoadSearch`: the text of the index. -/
def docsLoadSearch (rt : DocsRuntime) (pack : DocsPack) : Except TclError Chars := do
  docsRoot pack
  match pack.control "search.dict" with
  | none => .error (corrupt (ascii "docs: embedded search index is missing"))
  | some file => do
    let catalog ← docsLoad rt pack
    docsLoadSearchIdentity rt catalog file
    let text ← docsReadUtf8 file (ascii "search index")
    let index := rt.tables.trim text
    docsLoadSearchHead rt catalog index
    let records ← rt.entries index "documents"
    eachOf (docsLoadSearchRecord rt catalog) records
    return index

/-- A record of the search index. -/
structure LoadedRecord (rt : DocsRuntime) (documents : List (Chars × Chars)) (entry : Chars × Chars) : Prop where
  known : entry.1 ∈ documents.map Prod.fst
  values : ∀ key ∈ searchKeys, ∃ text, rt.get entry.2 key = .ok text
  snippets : ∃ snippets display, rt.entries entry.2 "snippets" = .ok snippets ∧
    rt.entries entry.2 "display_snippets" = .ok display ∧
    snippets.map Prod.fst = display.map Prod.fst

section

variable {rt : DocsRuntime} {catalog : Chars} {entries : CatalogEntries}

/-- The index is the one that the catalog names, up to its hash, or it is
refused as documented. -/
theorem docsLoadSearchIdentity_ends (loaded : LoadedCatalog rt catalog entries) (file : PackFile) :
    EndsIn (docsLoadSearchIdentity rt catalog file) Documented fun _ => True := by
  obtain ⟨pairs, read⟩ := loaded.fields.dicts "search" (by decide)
  obtain ⟨search, hasSearch, pairsRead⟩ := rt.entries_read read
  unfold docsLoadSearchIdentity
  refine .bind (.refuse (.also (.pure _) fun _ => .also .caught fun _ => .also (.not _) fun hasPath =>
    .also (.pure _) fun _ =>
    .also (.pure _) fun _ => ?_) (documented_corrupt _)) fun _ (_ : True) => ?_
  · obtain ⟨path, found⟩ := rawExists_iff.mp hasPath
    exact .also (.given found (.pure _)) fun _ => .nil
  refine .given hasSearch (.bind (.refuse (keysDiffer_refutes pairsRead _) (documented_corrupt _))
    fun _ values => ?_)
  refine .read (values "sha256" (by decide)) fun _ => .bind (docsValidateHash_ends _ _) fun _ _ => ?_
  refine .read (values "bytes" (by decide)) fun _ => .bind (docsNonnegative_ends _ _) fun _ _ => ?_
  exact .bind (.refuse (.pure _) (documented_corrupt _)) fun _ _ =>
    (EndsIn.refuse (.pure _) (documented_corrupt _)).mono fun _ _ => trivial

/-- The index has one record for each document. -/
theorem docsLoadSearchHead_ends (loaded : LoadedCatalog rt catalog entries) (index : Chars) :
    EndsIn (docsLoadSearchHead rt catalog index) Documented fun _ =>
      ∃ records, rt.entries index "documents" = .ok records ∧ records.length = entries.documents.length := by
  unfold docsLoadSearchHead
  refine .bind (.refuse (.also notUnique_refutes fun unique => ?_) (documented_corrupt _))
    fun _ (read : ∃ records, rt.entries index "documents" = .ok records) => ?_
  · obtain ⟨pairs, pairsRead⟩ := unique
    refine .also (keysDiffer_refutes pairsRead _) fun values => ?_
    obtain ⟨schema, hasSchema⟩ := values "schema" (by decide)
    obtain ⟨normalization, hasNormalization⟩ := values "normalization" (by decide)
    obtain ⟨documents, hasDocuments⟩ := values "documents" (by decide)
    refine .also (.given hasSchema (.pure _)) fun _ => .also (.given hasNormalization (.pure _)) fun _ =>
      .last (.given hasDocuments ?_)
    exact notUnique_refutes.mono fun unique => unique.imp fun records read => rt.entries_of hasDocuments read
  · obtain ⟨records, read⟩ := read
    refine .given read (.given loaded.documents ?_)
    exact (EndsIn.refuse (.pure _) (documented_corrupt _)).mono fun _ same =>
      ⟨records, read, (bne_eq_false_iff_eq ..).mp same⟩

/-- A record tells of its document what the catalog does, or it is refused
as documented. -/
theorem docsLoadSearchMetadata_ends {id record document : Chars}
    (found : rawGetIn rt.tcl catalog [chars "documents", id] = .ok document)
    (loaded : LoadedDocument rt (id, document))
    (values : ∀ key ∈ searchKeys, ∃ text, rt.get record key = .ok text) :
    EndsIn (docsLoadSearchMetadata rt catalog id record) Documented fun _ => True := by
  obtain ⟨priority, hasPriority⟩ := values "priority" (by decide)
  obtain ⟨title, hasTitle⟩ := values "title" (by decide)
  obtain ⟨aliases, hasAliases⟩ := values "aliases" (by decide)
  obtain ⟨summary, hasSummary⟩ := values "summary" (by decide)
  obtain ⟨product, hasProduct⟩ := loaded.values "product" (by decide)
  obtain ⟨type, hasType⟩ := loaded.values "type" (by decide)
  obtain ⟨ownTitle, hasOwnTitle⟩ := loaded.values "title" (by decide)
  obtain ⟨ownSummary, hasOwnSummary⟩ := loaded.values "summary" (by decide)
  obtain ⟨names, words, hasNames, list⟩ := loaded.names
  refine .given hasPriority (.bind (.refuse (.pure _) (documented_corrupt _)) fun _ _ =>
    .given found (.given hasProduct (.given hasType ?_)))
  refine .refuse (.also (.pure _) fun _ => .also (.given hasTitle (.given hasOwnTitle (.pure _))) fun _ => ?_)
    (documented_corrupt _)
  refine .also (.given hasAliases (.given hasNames (.given list (.pure _)))) fun _ => ?_
  exact .also (.given hasSummary (.given hasOwnSummary (.pure _))) fun _ => .nil

/-- The snippets and what is shown of them have the same keys. -/
theorem docsLoadSearchTexts_ends (id : Chars) {record : Chars}
    (values : ∀ key ∈ searchKeys, ∃ text, rt.get record key = .ok text) :
    EndsIn (docsLoadSearchTexts rt catalog id record) Documented fun _ =>
      ∃ snippets display, rt.entries record "snippets" = .ok snippets ∧
      rt.entries record "display_snippets" = .ok display ∧ snippets.map Prod.fst = display.map Prod.fst := by
  have field : ∀ key ∈ searchKeys, EndsIn (docsLoadSearchField rt (tclText id) record key) Documented
    fun _ => True := by
    intro key known
    exact .read (values key known) fun _ => (EndsIn.refuse (.pure _) (documented_corrupt _)).mono fun _ _ => trivial
  have texts : ["title", "aliases", "summary"] ⊆ searchKeys := by decide
  obtain ⟨snippets, hasSnippets⟩ := values "snippets" (by decide)
  obtain ⟨display, hasDisplay⟩ := values "display_snippets" (by decide)
  unfold docsLoadSearchTexts
  refine .bind (.each fun key known => field key (texts known)) fun _ _ => ?_
  refine .read (values "body" (by decide)) fun _ => .bind (.refuse (.pure _) (documented_corrupt _)) fun _ _ => ?_
  refine .bind (.refuse (.also (.given hasSnippets notUnique_refutes) fun first =>
    .also (.given hasDisplay notUnique_refutes) fun second => ?_)
    (documented_corrupt _)) fun _ (same : ∃ snippets display, rt.entries record "snippets" = .ok snippets ∧
      rt.entries record "display_snippets" = .ok display ∧ snippets.map Prod.fst = display.map Prod.fst) => ?_
  · obtain ⟨pairs, read⟩ := first
    obtain ⟨shown, shownRead⟩ := second
    have pairsOf := rt.entries_of hasSnippets read
    have shownOf := rt.entries_of hasDisplay shownRead
    exact .last (.given pairsOf (.given shownOf ((Refutes.pure _).mono fun same =>
      ⟨pairs, shown, pairsOf, shownOf, (bne_eq_false_iff_eq ..).mp same⟩)))
  · obtain ⟨pairs, shown, pairsOf, shownOf, same⟩ := same
    obtain ⟨_, hasDisplay', shownRead⟩ := rt.entries_read shownOf
    refine .given pairsOf ((EndsIn.eachAny fun entry member => ?_).mono fun _ _ =>
      ⟨pairs, shown, pairsOf, shownOf, same⟩)
    have inside : entry.1 ∈ shown.map Prod.fst := same ▸ List.mem_map_of_mem member
    obtain ⟨text, hasText, -⟩ := rawGet_mem shownRead inside
    refine .refuse (.also (.pure _) fun _ => .also (.pure _) fun _ => .also (.pure _) fun _ => ?_)
      (documented_corrupt _)
    exact .also (.given (rawGetIn_two hasDisplay' hasText) (.pure _)) fun _ => .nil

/-- A record passes as a whole, or is refused as documented. -/
theorem docsLoadSearchRecord_ends (loaded : LoadedCatalog rt catalog entries) (entry : Chars × Chars) :
    EndsIn (docsLoadSearchRecord rt catalog entry) Documented fun _ => LoadedRecord rt entries.documents entry := by
  obtain ⟨text, hasDocuments, read⟩ := rt.entries_read loaded.documents
  unfold docsLoadSearchRecord
  refine .bind (.refuse (.cons (.not _) fun _ => .last notUnique_refutes) (documented_corrupt _))
    fun _ checked => ?_
  obtain ⟨known, pairs, pairsRead⟩ := checked
  refine .bind (.refuse (keysDiffer_refutes pairsRead _) (documented_corrupt _)) fun _ values => ?_
  refine .bind (.each fun field _ => .refuse (.pure _) (documented_corrupt _)) fun _ _ => ?_
  obtain ⟨document, found⟩ := rawExists_iff.mp known
  have here : (entry.1, document) ∈ entries.documents := by
    rw [rawGetIn_cons hasDocuments, rawGetIn_one] at found
    exact mem_of_rawGet read found
  refine .bind (docsLoadSearchMetadata_ends found (loaded.document _ here) values) fun _ _ => ?_
  exact (docsLoadSearchTexts_ends _ values).mono fun _ snippets =>
    ⟨List.mem_map.mpr ⟨_, here, rfl⟩, values, snippets⟩

/-- `DocsLoadSearch` fails as documented, or gives an index with as many
records as the catalog has documents, in which all fields are as they should
be. -/
theorem docsLoadSearch_ends {pack : DocsPack} (loads : docsLoad rt pack = .ok catalog)
    (loaded : LoadedCatalog rt catalog entries) :
    EndsIn (docsLoadSearch rt pack) Documented fun index => ∃ records, rt.entries index "documents" = .ok records ∧
      records.length = entries.documents.length ∧ ∀ entry ∈ records, LoadedRecord rt entries.documents entry := by
  unfold docsLoadSearch
  refine .bind (docsRoot_ends pack) fun _ _ => ?_
  split
  · exact documented_corrupt _
  · refine .given loads (.bind (docsLoadSearchIdentity_ends loaded _) fun _ _ => .bind (docsReadUtf8_ends _ _)
      fun text _ => ?_)
    refine .bind (docsLoadSearchHead_ends loaded (rt.tables.trim text)) fun _ read => ?_
    obtain ⟨records, read, same⟩ := read
    exact .given read (.bind (.each fun entry _ => docsLoadSearchRecord_ends loaded entry) fun _ all =>
      ⟨records, read, same, all⟩)

end

end Machteld
