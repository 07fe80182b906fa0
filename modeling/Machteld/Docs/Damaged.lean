import Machteld.Docs.Answers
import Machteld.Docs.Index

namespace Machteld

/-- The text of a representation, with its integrity tested. -/
def docsGetWholeRaw (rt : DocsRuntime) (pack : DocsPack) (canonical format representation : Chars) :
    Except TclError Chars := do
  let relative ← rt.get representation "path"
  let path ← docsJoin pack.root relative
  docsRoot pack
  match pack.file path with
  | none => .error (docsRepresentationError canonical format " is missing")
  | some file => do
    let text ← docsReadUtf8 file (tclText format ++ (ascii " representation for " ++ tclText canonical))
    refuse (anyOf [.ok (rt.sha256 text).isNone,
      do return (text.flatMap Utf8.encode).length != charsValue (← rt.get representation "bytes"),
        do return text.length != charsValue (← rt.get representation "characters"),
        do return (rt.sha256 text).getD [] != (← rt.get representation "sha256")])
      (docsRepresentationError canonical format " failed integrity validation")
    return text

/-- The text of a section. -/
def docsGetSliceRaw (rt : DocsRuntime) (canonical format sectionName record representation text : Chars) :
    Except TclError Chars :=
  if sectionName = [] then .ok text
  else do
    refuse (.ok !rawExists rt.tcl record [chars "sections", sectionName])
      (docsFail "notfound" (ascii "docs: " ++ (tclText canonical ++
        (ascii " has no section \"" ++ (tclText sectionName ++ ascii "\"")))))
    refuse (.ok !rawExists rt.tcl representation [chars "sections", sectionName])
      (docsFail "unsupported" (ascii "docs: section \"" ++ (tclText sectionName ++ (ascii "\" is unavailable in " ++
        (tclText format ++ ascii " form")))))
    let range ← rawGetIn rt.tcl representation [chars "sections", sectionName]
    let start ← rt.get range "start"
    let stop ← rt.get range "end"
    refuse (.ok (decide (charsValue stop < charsValue start) || decide (text.length < charsValue stop)))
      (corruptFor "docs: invalid section bounds for " (tclText canonical ++ (ascii "#" ++ tclText sectionName)))
    return tclRange text (charsValue start) (charsValue stop - 1)

/-- What `docs get` returns, with the fields as they are in the catalog. -/
structure RawText where
  id : Chars
  requestedId : Chars
  product : Chars
  version : Chars
  type : Chars
  title : Chars
  summary : Chars
  names : Chars
  format : Chars
  sectionName : Chars
  path : Chars
  sha256 : Chars
  bytes : Chars
  page : DocsPage Nat

/-- `DocsGet` -/
def docsGetRaw (rt : DocsRuntime) (pack : DocsPack) (args : List Chars) : Except TclError RawText :=
  match args with
  | [] => .error (docsFail "usage" (ascii "docs: wrong # args: should be \"docs get id ?options?\""))
  | id :: optionArgs => do
    let o ← docsGetOptions rt.tables optionArgs
    let catalog ← docsLoad rt pack
    let target ← docsResolveRaw rt catalog id
    let sectionName ← docsGetSection target.2 o.sectionName
    let record ← rawGetIn rt.tcl catalog [chars "documents", target.1]
    refuse (.ok !rawExists rt.tcl record [chars "formats", o.format])
      (docsFail "unsupported" (ascii "docs: " ++ (tclText target.1 ++
        (ascii " has no " ++ (tclText o.format ++ ascii " representation")))))
    let representation ← rawGetIn rt.tcl record [chars "formats", o.format]
    let whole ← docsGetWholeRaw rt pack target.1 o.format representation
    let text ← docsGetSliceRaw rt target.1 o.format sectionName record representation whole
    return ⟨target.1, id, ← rt.get record "product", ← rt.get record "version", ← rt.get record
      "type", ← rt.get record "title",
      ← rt.get record "summary", ← rt.get record "names", o.format, sectionName, ← rt.get representation "path",
      ← rt.get representation "sha256", ← rt.get representation "bytes", docsGetPage o text⟩

/-- An item of `docs search`. -/
structure RawMatch where
  summary : RawSummary
  score : Nat
  snippet : Chars

/-- The snippet of the first section with all terms. -/
def docsSnippetRaw (rt : DocsRuntime) (search : Chars) (terms : List Chars) (summary : Chars) :
    Except TclError Chars := do
  let snippets ← rt.entries search "snippets"
  match snippets.find? fun entry => terms.all fun term => occurs term entry.2 with
  | some entry => rawGetIn rt.tcl search [chars "display_snippets", entry.1]
  | none => .ok summary

/-- The loop of `DocsSearch`. -/
def docsSearchItem (rt : DocsRuntime) (catalog : Chars) (filter : DocsFilter) (normalized : Chars)
    (found : List RawMatch)
    (entry : Chars × Chars) : Except TclError (List RawMatch) := do
  let record ← rawGetIn rt.tcl catalog [chars "documents", entry.1]
  if ← docsSkips rt filter record then return found
  else do
    let title ← rt.get entry.2 "title"
    let aliases ← rt.get entry.2 "aliases"
    let summary ← rt.get entry.2 "summary"
    let body ← rt.get entry.2 "body"
    let priority ← rt.get entry.2 "priority"
    let joined := title ++ (0x20 :: aliases ++ (0x20 :: summary ++ (0x20 :: body)))
    let terms := blankPieces normalized
    match termsScore ⟨charsValue priority, title, aliases, summary, body, [], []⟩ joined terms
      (charsValue priority) with
    | none => return found
    | some score => do
      let item ← docsSummaryRaw rt record
      let own ← rt.get record "summary"
      let snippet ← docsSnippetRaw rt entry.2 terms own
      return found ++ [⟨item, if occurs normalized joined then score + 80 else score, snippet⟩]

/-- `DocsSearch` -/
def docsSearchRaw (rt : DocsRuntime) (pack : DocsPack) (args : List Chars) : Except TclError (DocsPage RawMatch) :=
  match args with
  | [] => .error (docsFail "usage" (ascii "docs: wrong # args: should be \"docs search query ?options?\""))
  | query :: optionArgs => do
    let normalized ← docsNormalizeQuery rt.tables query
    refuse (.ok (normalized == [])) (docsFail "badvalue" (ascii "docs: search query must contain a word"))
    let filter ← docsFilterOptionsRaw rt pack optionArgs
    let catalog ← docsLoad rt pack
    let index ← docsLoadSearch rt pack
    let records ← rt.entries index "documents"
    let found ← foldOf (docsSearchItem rt catalog filter normalized) [] records
    return docsPage (found.mergeSort fun a b => decide (b.score < a.score) || a.score == b.score &&
      charsLe a.summary.id b.summary.id)
      filter.offset filter.limit

/-- What reads the pack: the subcommands of `docs`, and `DocsPackFiles` for
`wrap` and `docs extract`. -/
inductive DocsOperation
  | status
  | list
  | get
  | outline
  | search
  | verify
  | packFiles

/-- Whether an operation succeeds, or its error. -/
def docsRun (rt : DocsRuntime) (pack : DocsPack) (operation : DocsOperation) (args : List Chars) :
    Except TclError Unit :=
  match operation with
  | .status => (docsStatusRaw rt pack args).map fun _ => ()
  | .list => (docsListRaw rt pack args).map fun _ => ()
  | .get => (docsGetRaw rt pack args).map fun _ => ()
  | .outline => (docsOutlineRaw rt pack args).map fun _ => ()
  | .search => (docsSearchRaw rt pack args).map fun _ => ()
  | .verify => (docsVerify rt pack args).map fun _ => ()
  | .packFiles => (docsPackFiles rt pack).map fun _ => ()

/-- The operations that check the whole pack. -/
def DocsOperation.checksPack (operation : DocsOperation) (args : List Chars) : Bool :=
  match operation with
  | .verify => args.isEmpty
  | .packFiles => true
  | _ => false

section

variable {rt : DocsRuntime} {catalog : Chars} {entries : CatalogEntries}

theorem docsGetOptions_ends (tables : CharTables) (args : List Chars) :
    EndsIn (docsGetOptions tables args) Documented fun _ => True := by
  unfold docsGetOptions docsGetChecked
  refine .bind (docsOptions_ends _ _ _ _) fun options _ => .bind (docsStrictBoolean_ends _ _) fun all _ => ?_
  split_ifs
  · exact documented_docsFail (by decide) _
  · refine .bind (docsInteger_ends _ _ _ _) fun _ _ => .bind (docsInteger_ends _ _ _ _) fun _ _ => ?_
    dsimp only
    split_ifs
    · exact trivial
    · exact documented_docsFail (by decide) _

theorem docsGetSection_ends (fragment asked : Chars) :
    EndsIn (docsGetSection fragment asked) Documented fun _ => True := by
  unfold docsGetSection
  split_ifs
  · exact documented_docsFail (by decide) _
  · exact documented_docsFail (by decide) _
  · exact trivial
  · exact trivial

theorem docsNormalizeQuery_ends (tables : CharTables) (query : Chars) :
    EndsIn (docsNormalizeQuery tables query) Documented fun _ => True := by
  unfold docsNormalizeQuery
  dsimp only
  split_ifs
  · exact documented_docsFail (by decide) _
  · exact documented_docsFail (by decide) _
  · exact documented_docsFail (by decide) _
  · exact trivial

theorem docsJoin_ends (root relative : Chars) : EndsIn (docsJoin root relative) Documented fun _ => True := by
  unfold docsJoin
  split_ifs
  · exact trivial
  · exact documented_docsFail (by decide) _

/-- A representation is read as a whole and compared with its hash; where it
fails it does so as documented. -/
theorem docsGetWholeRaw_ends (pack : DocsPack) (canonical format : Chars) {entry : Chars × Chars}
    (loaded : LoadedFormat rt entry) :
    EndsIn (docsGetWholeRaw rt pack canonical format entry.2) Documented fun _ => True := by
  obtain ⟨⟨relative, hasPath⟩, ⟨sha256, hasHash⟩, ⟨bytes, hasBytes, -⟩, ⟨characters, hasCharacters, -⟩, -⟩ := loaded
  unfold docsGetWholeRaw
  refine .given hasPath (.bind (docsJoin_ends _ _) fun path _ => .bind (docsRoot_ends pack) fun _ _ => ?_)
  split
  · exact documented_docsFail (by decide) _
  · refine .bind (docsReadUtf8_ends _ _) fun text _ =>
      .bind (.refuse (.also (.pure _) fun _ => .also (.given hasBytes (.pure _)) fun _ =>
      .also (.given hasCharacters (.pure _)) fun _ => .also (.given hasHash (.pure _)) fun _ => .nil) ?_)
        fun _ _ => trivial
    exact documented_docsFail (by decide) _

/-- A section is cut out of a representation; where that fails it does so as
documented. -/
theorem docsGetSliceRaw_ends (canonical format sectionName record text : Chars) {entry : Chars × Chars}
    (loaded : LoadedFormat rt entry) :
    EndsIn (docsGetSliceRaw rt canonical format sectionName record entry.2 text) Documented fun _ => True := by
  obtain ⟨-, -, -, -, ranges, read, fits⟩ := loaded
  obtain ⟨sections, hasSections, entries⟩ := rt.entries_read read
  unfold docsGetSliceRaw
  split_ifs
  · exact trivial
  refine .bind (.refuse (.pure _) (documented_docsFail (by decide) _)) fun _ _ => ?_
  refine .bind (.refuse (.not _) (documented_docsFail (by decide) _)) fun _ known => ?_
  obtain ⟨range, found, here⟩ := rawGet_mem entries ((rawExists_entries read _).mp known)
  obtain ⟨⟨start, hasStart, -⟩, stop, hasStop, -⟩ := fits _ here
  refine .given (rawGetIn_two hasSections found) (.given hasStart (.given hasStop ?_))
  exact .bind (.refuse (.pure _) (documented_corrupt _)) fun _ _ => trivial

/-- `docs get` fails as documented where it fails. -/
theorem docsGetRaw_ends (rt : DocsRuntime) (pack : DocsPack) (args : List Chars) :
    EndsIn (docsGetRaw rt pack args) Documented fun _ => True := by
  unfold docsGetRaw
  split
  · exact documented_docsFail (by decide) _
  rename_i id optionArgs
  refine .bind (docsGetOptions_ends _ _) fun o _ => .bind (docsLoad_ends rt pack) fun catalog loaded => ?_
  obtain ⟨entries, loaded⟩ := loaded
  refine .bind (docsResolveRaw_ends loaded _) fun target known =>
    .bind (docsGetSection_ends _ _) fun sectionName _ => ?_
  obtain ⟨record, found, document⟩ := loaded.document_of known
  refine .given found (.bind (.refuse (.not _) (documented_docsFail (by decide) _)) fun _ offered => ?_)
  obtain ⟨formats, read, fits⟩ := document.formats
  obtain ⟨text, hasFormats, formatsRead⟩ := rt.entries_read read
  obtain ⟨representation, hasFormat, here⟩ := rawGet_mem formatsRead ((rawExists_entries read _).mp offered)
  have format := fits _ here
  have wholeEnds := docsGetWholeRaw_ends pack target.1 o.format format
  refine .given (rawGetIn_two hasFormats hasFormat) (.bind wholeEnds fun whole _ => ?_)
  have sliceEnds := docsGetSliceRaw_ends target.1 o.format sectionName record whole format
  refine .bind sliceEnds fun text _ => ?_
  refine .read (document.values "product" (by decide)) fun _ =>
    .read (document.values "version" (by decide)) fun _ => ?_
  refine .read (document.values "type" (by decide)) fun _ => .read (document.values "title" (by decide)) fun _ => ?_
  refine .read (document.values "summary" (by decide)) fun _ =>
    .read (document.values "names" (by decide)) fun _ => ?_
  obtain ⟨hasPath, hasHash, ⟨bytes, hasBytes, -⟩, -, -⟩ := format
  exact .read hasPath fun _ => .read hasHash fun _ => .given hasBytes trivial

theorem docsSnippetRaw_ends {documents : List (Chars × Chars)} {entry : Chars × Chars}
    (loaded : LoadedRecord rt documents entry)
    (terms : List Chars) (summary : Chars) :
    EndsIn (docsSnippetRaw rt entry.2 terms summary) Documented fun _ => True := by
  obtain ⟨snippets, display, read, shown, same⟩ := loaded.snippets
  obtain ⟨text, hasDisplay, shownRead⟩ := rt.entries_read shown
  refine .given read ?_
  split
  · rename_i snippet found
    have inside : snippet.1 ∈ display.map Prod.fst := same ▸ List.mem_map_of_mem (List.mem_of_find?_eq_some found)
    obtain ⟨value, hasValue, -⟩ := rawGet_mem shownRead inside
    exact .of_ok (rawGetIn_two hasDisplay hasValue) trivial
  · exact trivial

theorem docsSearchItem_ends (loaded : LoadedCatalog rt catalog entries) (filter : DocsFilter) (normalized : Chars)
    (found : List RawMatch)
    {entry : Chars × Chars} (fits : LoadedRecord rt entries.documents entry) :
    EndsIn (docsSearchItem rt catalog filter normalized found entry) Documented fun _ => True := by
  obtain ⟨record, hasRecord, document⟩ := loaded.document_of fits.known
  unfold docsSearchItem
  refine .given hasRecord (.bind (docsSkips_ends filter document) fun skipped _ => ?_)
  split_ifs
  · exact trivial
  refine .read (fits.values "title" (by decide)) fun _ => .read (fits.values "aliases" (by decide)) fun _ => ?_
  refine .read (fits.values "summary" (by decide)) fun _ => .read (fits.values "body" (by decide)) fun _ => ?_
  refine .read (fits.values "priority" (by decide)) fun _ => ?_
  dsimp only
  split
  · exact trivial
  · refine .bind (docsSummaryRaw_ends document) fun item _ =>
      .read (document.values "summary" (by decide)) fun own => ?_
    exact .bind (docsSnippetRaw_ends fits _ _) fun _ _ => trivial

/-- `docs search` fails as documented where it fails. -/
theorem docsSearchRaw_ends (rt : DocsRuntime) (pack : DocsPack) (args : List Chars) :
    EndsIn (docsSearchRaw rt pack args) Documented fun _ => True := by
  unfold docsSearchRaw
  split
  · exact documented_docsFail (by decide) _
  refine .bind (docsNormalizeQuery_ends _ _) fun normalized _ =>
    .bind (.refuse (.pure _) (documented_docsFail (by decide) _)) fun _ _ => ?_
  refine .bind (docsFilterOptionsRaw_ends rt pack _) fun filter _ =>
    .bind (docsLoad_ends rt pack).self fun catalog loads => ?_
  obtain ⟨⟨entries, loaded⟩, loads⟩ := loads
  refine .bind (docsLoadSearch_ends loads loaded) fun index fits => ?_
  obtain ⟨records, read, -, fits⟩ := fits
  exact .given read (.bind (.foldAny fun found entry member => docsSearchItem_ends loaded filter normalized found
    (fits entry member))
    fun _ _ => trivial)

theorem docsRun_packFiles {pack : DocsPack} {e : TclError} (failed : docsPackFiles rt pack = .error e)
    (args : List Chars) :
    docsRun rt pack .packFiles args = .error e := by
  rw [docsRun, failed]
  rfl

theorem docsRun_verify {pack : DocsPack} {e : TclError} (loads : docsLoad rt pack = .ok catalog)
    (failed : docsPackFiles rt pack = .error e) :
    docsRun rt pack .verify [] = .error e := by
  rw [docsRun, docsVerify_failed loads failed]
  rfl

/-- Whatever is in the pack, an operation succeeds or fails as documented,
unless it checks a pack whose catalog does not tell of the search index. -/
theorem docsRun_documented_iff (rt : DocsRuntime) (pack : DocsPack) (operation : DocsOperation)
    (args : List Chars) :
    EndsIn (docsRun rt pack operation args) Documented (fun _ => True) ↔
      ¬(operation.checksPack args = true ∧ PackUntold rt pack) := by
  cases operation with
  | status =>
    exact iff_of_true (EndsIn.map_iff.mpr (docsStatusRaw_ends rt pack args)) fun bad => Bool.noConfusion bad.1
  | list => exact iff_of_true (EndsIn.map_iff.mpr (docsListRaw_ends rt pack args)) fun bad => Bool.noConfusion bad.1
  | get => exact iff_of_true (EndsIn.map_iff.mpr (docsGetRaw_ends rt pack args)) fun bad => Bool.noConfusion bad.1
  | outline =>
    exact iff_of_true (EndsIn.map_iff.mpr (docsOutlineRaw_ends rt pack args)) fun bad => Bool.noConfusion bad.1
  | search =>
    exact iff_of_true (EndsIn.map_iff.mpr (docsSearchRaw_ends rt pack args)) fun bad => Bool.noConfusion bad.1
  | verify =>
    refine ⟨fun ended bad => ?_, fun told => EndsIn.map_iff.mpr ?_⟩
    · obtain ⟨none', untold⟩ := bad
      obtain rfl := List.isEmpty_iff.mp none'
      obtain ⟨field, failed⟩ := docsPackFiles_untold untold
      obtain ⟨catalog, _, _, _, loads, -⟩ := untold
      exact not_documented_dictKeyUnknown field (ended.failure (docsRun_verify loads failed))
    · cases args with
      | nil => exact docsVerify_ends (fun untold => told ⟨rfl, untold⟩) []
      | cons arg args => exact documented_docsFail (by decide) _
  | packFiles =>
    refine ⟨fun ended bad => ?_, fun told => EndsIn.map_iff.mpr
      (docsPackFiles_ends fun untold => told ⟨rfl, untold⟩)⟩
    obtain ⟨field, failed⟩ := docsPackFiles_untold bad.2
    exact not_documented_dictKeyUnknown field (ended.failure (docsRun_packFiles failed args))

end

def emptyProduct (version : String) : Chars :=
  pairText [("documents", chars "0"), ("manual_pages", chars "0"), ("version", chars version)]

/-- A catalog without documents. -/
def emptyCatalog (search : Chars) : Chars :=
  pairText [("aliases", []), ("auxiliary", []), ("corpus_sha256", emptyHash),
    ("documents", []), ("fragments", []), ("generator", chars "reference"), ("inventory", []),
      ("machteld_version", chars "1.0"),
    ("products", pairText [("machteld", emptyProduct "1.0"), ("tcl", emptyProduct "9.0.4"),
      ("tk", emptyProduct "9.0.3")]),
    ("schema", chars "1"), ("search", search)]

/-- The control files with their hashes. -/
def emptyFiles : List (Chars × Chars) :=
  [(chars "catalog.dict", List.replicate 64 0x61), (chars "catalog.json", List.replicate 64 0x62),
    (chars "search.dict", List.replicate 64 0x63)]

def emptyManifest : Chars :=
  manifestHeader ++ (0xA :: emptyFiles.flatMap fun entry => entry.2 ++ (chars "  " ++ (entry.1 ++ [0xA])))

def emptyFacts : List (Chars × PackFacts) :=
  (chars "manifest.sha256", ⟨List.replicate 64 0x64, emptyManifest.length⟩) :: emptyFiles.map fun entry =>
    (entry.1, ⟨entry.2, 500⟩)

/-- A pack without documents: its files are what its manifest declares. -/
def emptyPack (search : Chars) : DocsPack where
  mount := .mounted
  root := chars "//zipfs:/app/reference"
  file path :=
    if path = chars "//zipfs:/app/reference/catalog.dict" then
      some ⟨some (emptyCatalog search).length, .ok (emptyCatalog search), some (List.replicate 64 0x61)⟩
    else if path = chars "//zipfs:/app/reference/manifest.sha256" then
      some ⟨some emptyManifest.length, .ok emptyManifest, some (List.replicate 64 0x64)⟩
    else none
  tree := (chars "manifest.sha256", .file (some emptyManifest.length) (some (List.replicate 64 0x64))) ::
    emptyFiles.map fun entry => (entry.1, .file (some 500) (some entry.2))

/-- A catalog with an empty search field is loaded, and the check of its
pack ends in an error of `dict get`. -/
theorem docsRun_escapes :
    docsLoad plainRuntime (emptyPack []) = .ok (emptyCatalog []) ∧
    docsRun plainRuntime (emptyPack []) .packFiles [] = .error (dictKeyUnknown (chars "sha256")) ∧
    docsRun plainRuntime (emptyPack []) .verify [] = .error (dictKeyUnknown (chars "sha256")) ∧
    ¬EndsIn (docsRun plainRuntime (emptyPack []) .verify []) Documented fun _ => True := by
  have loads : docsLoad plainRuntime (emptyPack []) = .ok (emptyCatalog []) := by decide +kernel
  have checks : docsPackChecked plainRuntime (emptyPack []) (emptyCatalog []) = .ok emptyFacts := by
    decide +kernel
  have hasSearch : plainRuntime.get (emptyCatalog []) "search" = .ok [] := by decide +kernel
  have stops : docsPackSearch plainRuntime emptyFacts [] = .error (dictKeyUnknown (chars "sha256")) := by
    decide +kernel
  have failed := docsPackFiles_failed loads checks hasSearch stops
  have verified := docsRun_verify loads failed
  exact ⟨loads, docsRun_packFiles failed [], verified, EndsIn.escapes verified (not_documented_dictKeyUnknown _)⟩

end Machteld
