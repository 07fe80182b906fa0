import Machteld.Docs.Accepted
import Machteld.Docs.Get

namespace Machteld

/-- `DocsResolve` from its candidates on, on the text of the catalog. -/
def docsResolveOneRaw (rt : DocsRuntime) (catalog requested sectionName : Chars) (candidates : List Chars) :
    Except TclError (Chars × Chars) :=
  match candidates with
  | [id] =>
    if sectionName ≠ [] ∧ rawExists rt.tcl catalog [chars "documents", id, chars "sections",
      sectionName] = false then
      .error (docsFail "notfound" (ascii "docs: " ++ (tclText id ++
        (ascii " has no section \"" ++ (tclText sectionName ++ ascii "\"")))))
    else .ok (id, sectionName)
  | candidates =>
    .error (docsFail "ambiguous" (ascii "docs: \"" ++
      (tclText requested ++ (ascii "\" is ambiguous; candidates: " ++
      (ascii ", ").intercalate (candidates.map tclText)))))

/-- `DocsResolve` from a key with its section on. -/
def docsResolveKeyRaw (rt : DocsRuntime) (catalog requested key sectionName : Chars) :
    Except TclError (Chars × Chars) :=
  if rawExists rt.tcl catalog [chars "documents", key] then docsResolveOneRaw rt catalog requested sectionName [key]
  else if rawExists rt.tcl catalog [chars "aliases", docsNormalizeAlias rt.tables key] then do
    let value ← rawGetIn rt.tcl catalog [chars "aliases", docsNormalizeAlias rt.tables key]
    let candidates ← rt.tcl.words value
    docsResolveOneRaw rt catalog requested sectionName (lsort candidates).eraseDups
  else .error (docsFail "notfound" (ascii "docs: no document matches \"" ++ (tclText requested ++ ascii "\"")))

/-- `DocsResolve` from its key on. -/
def docsResolveFrom (rt : DocsRuntime) (catalog requested key : Chars) : Except TclError (Chars × Chars) :=
  if rawExists rt.tcl catalog [chars "documents", key] then .ok (key, [])
  else if rawExists rt.tcl catalog [chars "fragments", key] then do
    let target ← rawGetIn rt.tcl catalog [chars "fragments", key]
    return (← rt.get target "id", ← rt.get target "section")
  else
    match splitFragment key with
    | some (base, fragment) => docsResolveKeyRaw rt catalog requested base fragment
    | none => docsResolveKeyRaw rt catalog requested key []

/-- `DocsResolve` on a catalog that `DocsLoad` returned. -/
def docsResolveRaw (rt : DocsRuntime) (catalog requested : Chars) : Except TclError (Chars × Chars) := do
  refuse (.ok (decide (32767 < requested.length))) (docsFail "badvalue" (ascii "docs: document id is too long"))
  let key := rt.tables.toLower (rt.tables.trim requested)
  refuse (.ok (key == [])) (docsFail "badvalue" (ascii "docs: document id must not be empty"))
  docsResolveFrom rt catalog requested key

/-- `DocsSummary`: the fields as they are in the record. -/
structure RawSummary where
  id : Chars
  product : Chars
  version : Chars
  type : Chars
  title : Chars
  summary : Chars
  names : Chars
  sections : Chars

def docsSummaryRaw (rt : DocsRuntime) (record : Chars) : Except TclError RawSummary := do
  return ⟨← rt.get record "id", ← rt.get record "product", ← rt.get record "version", ← rt.get record
    "type", ← rt.get record "title",
    ← rt.get record "summary", ← rt.get record "names", ← rt.get record "sections"⟩

/-- The types of the documents so far. -/
def docsKnownType (rt : DocsRuntime) (types : List Chars) (entry : Chars × Chars) : Except TclError (List Chars) :=
  do
  return types ++ [← rt.get entry.2 "type"]

/-- `DocsFilterOptions` -/
def docsFilterOptionsRaw (rt : DocsRuntime) (pack : DocsPack) (args : List Chars) : Except TclError DocsFilter := do
  let options ← docsOptions filterAllowed args filterDefaults []
  let catalog ← docsLoad rt pack
  let scope := orAll (rt.tables.toLower (optionValue "scope" options.1))
  let type := orAll (rt.tables.toLower (optionValue "type" options.1))
  refuse (.ok (scope != chars "all" && !rawExists rt.tcl catalog [chars "products", scope]))
    (docsUnknown "scope" (optionValue "scope" options.1))
  let documents ← rt.entries catalog "documents"
  let types ← foldOf (docsKnownType rt) [] documents
  refuse (.ok (type != chars "all" && !types.contains type)) (docsUnknown "type" (optionValue "type" options.1))
  let offset ← docsInteger (optionValue "offset" options.1) "-offset" 0 2147483647
  let limit ← docsInteger (optionValue "limit" options.1) "-limit" 1 200
  return ⟨scope, type, offset, limit⟩

/-- A field is not the one that is asked for. -/
def docsOther (rt : DocsRuntime) (asked record : Chars) (field : String) : Except TclError Bool :=
  if asked = chars "all" then .ok false else (rt.get record field).bind fun value => .ok (value != asked)

/-- The filters of `DocsList` and `DocsSearch` pass over a record. -/
def docsSkips (rt : DocsRuntime) (filter : DocsFilter) (record : Chars) : Except TclError Bool :=
  anyOf [docsOther rt filter.scope record "product", docsOther rt filter.type record "type"]

/-- What `docs status` returns of the catalog. -/
structure RawStatus where
  generator : Chars
  machteld : Chars
  corpusSha256 : Chars
  products : Chars
  documents : Nat
  aliases : Nat
  fragments : Nat
  formats : List Chars

def docsKnownFormats (rt : DocsRuntime) (formats : List Chars) (entry : Chars × Chars) :
    Except TclError (List Chars) := do
  return formats ++ (← rt.entries entry.2 "formats").map Prod.fst

/-- `DocsStatus` -/
def docsStatusRaw (rt : DocsRuntime) (pack : DocsPack) (args : List Chars) : Except TclError RawStatus := do
  refuse (.ok !args.isEmpty) (docsFail "usage" (ascii "docs: wrong # args: should be \"docs status\""))
  let catalog ← docsLoad rt pack
  let documents ← rt.entries catalog "documents"
  let formats ← foldOf (docsKnownFormats rt) [] documents
  let generator ← rt.get catalog "generator"
  let corpus ← rt.get catalog "corpus_sha256"
  let products ← rt.get catalog "products"
  let aliases ← rt.entries catalog "aliases"
  let fragments ← if rawExists rt.tcl catalog [chars "fragments"] then
    (rt.entries catalog "fragments").map List.length else .ok 0
  return ⟨generator, rt.version, corpus, products, documents.length, aliases.length, fragments,
    lsort formats.eraseDups⟩

/-- The loop of `DocsList`. -/
def docsListItem (rt : DocsRuntime) (filter : DocsFilter) (items : List RawSummary) (entry : Chars × Chars) :
    Except TclError (List RawSummary) := do
  if ← docsSkips rt filter entry.2 then return items
  else return items ++ [← docsSummaryRaw rt entry.2]

/-- `DocsList` -/
def docsListRaw (rt : DocsRuntime) (pack : DocsPack) (args : List Chars) : Except TclError (DocsPage RawSummary) :=
  do
  let filter ← docsFilterOptionsRaw rt pack args
  let catalog ← docsLoad rt pack
  let documents ← rt.entries catalog "documents"
  let items ← foldOf (docsListItem rt filter) [] documents
  return docsPage (items.mergeSort fun a b => charsLe a.id b.id) filter.offset filter.limit

/-- What `docs outline` returns. -/
structure RawOutline where
  id : Chars
  requestedId : Chars
  title : Chars
  sectionName : Chars
  sections : Chars

/-- `DocsOutline` -/
def docsOutlineRaw (rt : DocsRuntime) (pack : DocsPack) (args : List Chars) : Except TclError RawOutline :=
  match args with
  | [id] => do
    let catalog ← docsLoad rt pack
    let target ← docsResolveRaw rt catalog id
    let record ← rawGetIn rt.tcl catalog [chars "documents", target.1]
    let title ← rt.get record "title"
    let sections ← rt.get record "sections"
    return ⟨target.1, id, title, target.2, sections⟩
  | _ => .error (docsFail "usage" (ascii "docs: wrong # args: should be \"docs outline id\""))

section

variable {rt : DocsRuntime} {catalog : Chars} {entries : CatalogEntries} {fails : TclError → Prop}

theorem docsInteger_ends (value : Chars) (option : String) (minimum maximum : Nat) :
    EndsIn (docsInteger value option minimum maximum) Documented fun _ => True := by
  unfold docsInteger
  split_ifs
  · exact documented_docsFail (by decide) _
  · exact trivial

theorem docsStrictBoolean_ends (value : Chars) (option : String) :
    EndsIn (docsStrictBoolean value option) Documented fun _ => True := by
  unfold docsStrictBoolean
  split_ifs
  · exact trivial
  · exact trivial
  · exact documented_docsFail (by decide) _

/-- Options are read in pairs, or refused as documented. -/
theorem docsOptions_ends (allowed args supplied : List Chars) (result : List (Chars × Chars)) :
    EndsIn (docsOptions allowed args result supplied) Documented fun _ => True := by
  fun_induction docsOptions allowed args result supplied with
  | case1 => exact trivial
  | case2 => exact documented_docsFail (by decide) _
  | case3 => exact documented_docsFail (by decide) _
  | case4 => exact documented_docsFail (by decide) _
  | case5 _ _ _ _ _ _ _ ih => exact ih
  | case6 => exact documented_docsFail (by decide) _

/-- The document of a known id. -/
theorem LoadedCatalog.document_of (loaded : LoadedCatalog rt catalog entries) {id : Chars}
    (known : id ∈ entries.documents.map Prod.fst) :
    ∃ record, rawGetIn rt.tcl catalog [chars "documents", id] = .ok record ∧ LoadedDocument rt (id, record) := by
  obtain ⟨text, hasDocuments, read⟩ := rt.entries_read loaded.documents
  obtain ⟨record, found, here⟩ := rawGet_mem read known
  exact ⟨record, rawGetIn_two hasDocuments found, loaded.document _ here⟩

/-- A key is found where the dict has it. -/
theorem rawGet_keys {tcl : TclLists} {value key : Chars} {pairs : List (Chars × Chars)}
    (read : rawDict tcl value = .ok pairs) :
    (∃ item, rawGet tcl value key = .ok item) ↔ key ∈ pairs.map Prod.fst := by
  constructor
  · intro found
    obtain ⟨item, found⟩ := found
    exact List.mem_map.mpr ⟨_, mem_of_rawGet read found, rfl⟩
  · intro known
    obtain ⟨item, found, -⟩ := rawGet_mem read known
    exact ⟨item, found⟩

/-- `dict exists` in a field of the catalog. -/
theorem rawExists_entries {field : String} {pairs : List (Chars × Chars)}
    (read : rt.entries catalog field = .ok pairs) (key : Chars) :
    rawExists rt.tcl catalog [chars field, key] = true ↔ key ∈ pairs.map Prod.fst := by
  obtain ⟨text, found, entries⟩ := rt.entries_read read
  rw [rawExists_iff, rawGetIn_cons found, rawGetIn_one, rawGet_keys entries]

theorem docsResolveOneRaw_ends (requested sectionName : Chars) {candidates : List Chars}
    (known : ∀ id ∈ candidates, id ∈ entries.documents.map Prod.fst) :
    EndsIn (docsResolveOneRaw rt catalog requested sectionName candidates) Documented fun target =>
      target.1 ∈ entries.documents.map Prod.fst := by
  unfold docsResolveOneRaw
  split
  · split_ifs
    · exact documented_docsFail (by decide) _
    · exact known _ List.mem_cons_self
  · exact documented_docsFail (by decide) _

theorem docsResolveKeyRaw_ends (loaded : LoadedCatalog rt catalog entries) (requested key sectionName : Chars) :
    EndsIn (docsResolveKeyRaw rt catalog requested key sectionName) Documented fun target =>
      target.1 ∈ entries.documents.map Prod.fst := by
  unfold docsResolveKeyRaw
  split_ifs with own alias'
  · exact docsResolveOneRaw_ends _ _ (List.forall_mem_singleton.mpr ((rawExists_entries loaded.documents _).mp own))
  · obtain ⟨text, hasAliases, read⟩ := rt.entries_read loaded.aliases
    obtain ⟨value, found, here⟩ := rawGet_mem read ((rawExists_entries loaded.aliases _).mp alias')
    obtain ⟨candidates, fits, -⟩ := loaded.alias' _ here
    refine .given (rawGetIn_two hasAliases found)
      (.given fits.words (docsResolveOneRaw_ends _ _ fun id member => fits.known id ?_))
    exact mem_lsort.mp (List.mem_eraseDups.mp member)
  · exact documented_docsFail (by decide) _

/-- `DocsResolve` fails as documented, or gives a document of the catalog.
-/
theorem docsResolveRaw_ends (loaded : LoadedCatalog rt catalog entries) (requested : Chars) :
    EndsIn (docsResolveRaw rt catalog requested) Documented fun target =>
      target.1 ∈ entries.documents.map Prod.fst := by
  refine .bind (.refuse (.pure _) (documented_docsFail (by decide) _)) fun _ _ => ?_
  refine .bind (.refuse (.pure _) (documented_docsFail (by decide) _)) fun _ _ => ?_
  unfold docsResolveFrom
  split_ifs with own fragment
  · exact (rawExists_entries loaded.documents _).mp own
  · obtain ⟨text, hasFragments, read⟩ := rt.entries_read loaded.fragments
    obtain ⟨target, found, here⟩ := rawGet_mem read ((rawExists_entries loaded.fragments _).mp fragment)
    obtain ⟨id, slug, fits⟩ := loaded.fragment _ here
    obtain ⟨record, sections, member, -⟩ := fits.known
    exact .given (rawGetIn_two hasFragments found)
      (.given fits.hasId (.given fits.hasSlug (List.mem_map.mpr ⟨_, member, rfl⟩)))
  · split
    · exact docsResolveKeyRaw_ends loaded _ _ _
    · exact docsResolveKeyRaw_ends loaded _ _ _

/-- An id that is not too long is resolved by its key. -/
theorem docsResolveRaw_short {requested key : Chars} (short : requested.length ≤ 32767)
    (read : rt.tables.toLower (rt.tables.trim requested) = key) : docsResolveRaw rt catalog requested =
      if key = [] then .error (docsFail "badvalue" (ascii "docs: document id must not be empty"))
      else docsResolveFrom rt catalog requested key := by
  have passed : decide (32767 < requested.length) = false := decide_eq_false (Nat.not_lt.mpr short)
  subst read
  split_ifs with blank
  · have found := beq_iff_eq.mpr blank
    simp only [docsResolveRaw, refuse, passed, found]
    rfl
  · have found := beq_eq_false_iff_ne.mpr blank
    simp only [docsResolveRaw, refuse, passed, found]
    rfl

theorem docsResolveRaw_long {requested : Chars} (long : 32767 < requested.length) :
    docsResolveRaw rt catalog requested = .error (docsFail "badvalue" (ascii "docs: document id is too long")) := by
  have refused : decide (32767 < requested.length) = true := decide_eq_true long
  simp only [docsResolveRaw, refuse, refused]
  rfl

theorem docsSummaryRaw_ends {entry : Chars × Chars} (loaded : LoadedDocument rt entry) :
    EndsIn (docsSummaryRaw rt entry.2) fails fun _ => True := by
  refine .read (loaded.values "id" (by decide)) fun _ => .read (loaded.values "product" (by decide)) fun _ => ?_
  refine .read (loaded.values "version" (by decide)) fun _ => .read (loaded.values "type" (by decide)) fun _ => ?_
  refine .read (loaded.values "title" (by decide)) fun _ => .read (loaded.values "summary" (by decide)) fun _ => ?_
  exact .read (loaded.values "names" (by decide)) fun _ =>
    .read (loaded.values "sections" (by decide)) fun _ => trivial

theorem docsOther_ends (asked : Chars) {record : Chars} {field : String}
    (known : ∃ text, rt.get record field = .ok text) :
    Refutes (docsOther rt asked record field) fails True := by
  unfold docsOther
  split_ifs
  · exact (Refutes.pure _).mono fun _ => trivial
  · exact EndsIn.read known fun _ => (Refutes.pure _).mono fun _ => trivial

theorem docsSkips_ends (filter : DocsFilter) {entry : Chars × Chars} (loaded : LoadedDocument rt entry) :
    EndsIn (docsSkips rt filter entry.2) fails fun _ => True := by
  have skips : Refutes (docsSkips rt filter entry.2) fails True :=
    .also (docsOther_ends _ (loaded.values "product" (by decide))) fun _ =>
      .also (docsOther_ends _ (loaded.values "type" (by decide))) fun _ => .nil
  exact EndsIn.mono skips fun _ _ => trivial

/-- The filters of a command are accepted, or refused as documented. -/
theorem docsFilterOptionsRaw_ends (rt : DocsRuntime) (pack : DocsPack) (args : List Chars) :
    EndsIn (docsFilterOptionsRaw rt pack args) Documented fun _ => True := by
  unfold docsFilterOptionsRaw
  refine .bind (docsOptions_ends _ _ _ _) fun options _ => .bind (docsLoad_ends rt pack) fun catalog loaded => ?_
  obtain ⟨entries, loaded⟩ := loaded
  refine .bind (.refuse (.pure _) (documented_docsFail (by decide) _)) fun _ _ => .given loaded.documents ?_
  refine .bind (.foldAny fun types entry member => ?_) fun types _ => ?_
  · exact .read ((loaded.document entry member).values "type" (by decide)) fun _ => trivial
  refine .bind (.refuse (.pure _) (documented_docsFail (by decide) _)) fun _ _ => ?_
  exact .bind (docsInteger_ends _ _ _ _) fun _ _ => .bind (docsInteger_ends _ _ _ _) fun _ _ => trivial

/-- `docs status` fails as documented where it fails. -/
theorem docsStatusRaw_ends (rt : DocsRuntime) (pack : DocsPack) (args : List Chars) :
    EndsIn (docsStatusRaw rt pack args) Documented fun _ => True := by
  unfold docsStatusRaw
  refine .bind (.refuse (.pure _) (documented_docsFail (by decide) _)) fun _ _ =>
    .bind (docsLoad_ends rt pack) fun catalog loaded => ?_
  obtain ⟨entries, loaded⟩ := loaded
  refine .given loaded.documents (.bind (.foldAny fun formats entry member => ?_) fun formats _ => ?_)
  · obtain ⟨representations, read, -⟩ := (loaded.document entry member).formats
    exact .given read trivial
  refine .read (loaded.fields.values "generator" (by decide)) fun _ =>
    .read (loaded.fields.values "corpus_sha256" (by decide)) fun _ => ?_
  refine .read (loaded.fields.values "products" (by decide)) fun _ => .given loaded.aliases ?_
  split_ifs
  · rw [loaded.fragments]
    exact trivial
  · exact trivial

/-- `docs list` fails as documented where it fails. -/
theorem docsListRaw_ends (rt : DocsRuntime) (pack : DocsPack) (args : List Chars) :
    EndsIn (docsListRaw rt pack args) Documented fun _ => True := by
  unfold docsListRaw
  refine .bind (docsFilterOptionsRaw_ends rt pack args) fun filter _ =>
    .bind (docsLoad_ends rt pack) fun catalog loaded => ?_
  obtain ⟨entries, loaded⟩ := loaded
  refine .given loaded.documents (.bind (.foldAny fun items entry member => ?_) fun _ _ => trivial)
  refine .bind (docsSkips_ends filter (loaded.document entry member)) fun skipped _ => ?_
  split_ifs
  · exact trivial
  · exact .bind (docsSummaryRaw_ends (loaded.document entry member)) fun _ _ => trivial

/-- `docs outline` fails as documented where it fails. -/
theorem docsOutlineRaw_ends (rt : DocsRuntime) (pack : DocsPack) (args : List Chars) :
    EndsIn (docsOutlineRaw rt pack args) Documented fun _ => True := by
  unfold docsOutlineRaw
  split
  · refine .bind (docsLoad_ends rt pack) fun catalog loaded => ?_
    obtain ⟨entries, loaded⟩ := loaded
    refine .bind (docsResolveRaw_ends loaded _) fun target known => ?_
    obtain ⟨record, found, document⟩ := loaded.document_of known
    refine .given found (.read (document.values "title" (by decide)) fun _ => ?_)
    exact .read (document.values "sections" (by decide)) fun _ => trivial
  · exact documented_docsFail (by decide) _

end

end Machteld
