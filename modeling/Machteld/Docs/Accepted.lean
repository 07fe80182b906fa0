import Machteld.Docs.Loaded

namespace Machteld

/-- The key of a section of a document. -/
structure LoadedSlug (rt : DocsRuntime) (slug : Chars) : Prop where
  lower : rt.tables.toLower slug = slug
  shape : canonicalSlug rt.tables slug = true

structure LoadedDocument (rt : DocsRuntime) (entry : Chars × Chars) : Prop where
  lower : rt.tables.toLower entry.1 = entry.1
  shape : canonicalId entry.1 = true
  values : ∀ key ∈ recordKeys, ∃ text, rt.get entry.2 key = .ok text
  names : ∃ text words, rt.get entry.2 "names" = .ok text ∧ rt.tcl.words text = .ok words
  sections : ∃ sections, rt.entries entry.2 "sections" = .ok sections ∧ ∀ heading ∈ sections,
    LoadedSlug rt heading.1
  formats : ∃ formats, rt.entries entry.2 "formats" = .ok formats ∧ ∀ format ∈ formats, LoadedFormat rt format

section

variable {rt : DocsRuntime} {catalog : Chars} {products inventory documents : List (Chars × Chars)}

theorem rawGetIn_three {tcl : TclLists} {value first second third key key' key'' : Chars}
    (found : rawGet tcl value key = .ok first)
    (found' : rawGet tcl first key' = .ok second) (found'' : rawGet tcl second key'' = .ok third) :
    rawGetIn tcl value [key, key', key''] = .ok third := by
  rw [rawGetIn_cons found, rawGetIn_two found' found'']

/-- The id, the product and the type of a document agree. -/
theorem docsLoadIdentity_ends (read : rt.entries catalog "products" = .ok products)
    (loaded : ∀ entry ∈ products, LoadedProduct rt entry ∧ entry.1 ∈ productNames) (id record : Chars) :
    EndsIn (docsLoadIdentity rt catalog id record) Documented fun _ =>
      rt.tables.toLower id = id ∧ canonicalId id = true ∧
      (∀ key ∈ recordKeys, ∃ text, rt.get record key = .ok text) ∧ ∃ product ∈ productNames,
        rt.get record "product" = .ok product := by
  obtain ⟨text, hasProducts, entries⟩ := rt.entries_read read
  unfold docsLoadIdentity
  refine .bind (.refuse (.also (.pure _) fun _ => .cons (.pure _) fun _ => .cons (.not _) fun _ =>
    .last notUnique_refutes)
    (documented_corrupt _)) fun _ checked => ?_
  obtain ⟨lower, shape, fields, fieldsRead⟩ := checked
  refine .bind (.refuse (keysDiffer_refutes fieldsRead _) (documented_corrupt _)) fun _ values => ?_
  have value : ∀ key ∈ recordKeys, ∃ text, rt.get record key = .ok text := values
  obtain ⟨own, hasOwn⟩ := value "id" (by decide)
  obtain ⟨product, hasProduct⟩ := value "product" (by decide)
  obtain ⟨type, hasType⟩ := value "type" (by decide)
  obtain ⟨version, hasVersion⟩ := value "version" (by decide)
  refine .given hasOwn (.bind (.refuse (.pure _) (documented_corrupt _)) fun _ _ => .given hasProduct
    (.given hasType ?_))
  refine .bind (.refuse (.cons (.given hasProducts (.not _)) fun _ => .also (.pure _) fun _ =>
    .also (.pure _) fun _ =>
    .also (.pure _) fun _ => .also (.pure _) fun _ => .also (.pure _) fun _ => .nil) (documented_corrupt _))
      fun _ known => ?_
  obtain ⟨facts, found⟩ := rawExists_one.mp known.1
  obtain ⟨⟨⟨declared, hasDeclared⟩, -, -⟩, named⟩ := loaded _ (mem_of_rawGet entries found)
  refine .bind (.refuse (.pure _) (documented_corrupt _)) fun _ _ => .given hasVersion ?_
  refine (EndsIn.refuse (.given (rawGetIn_three hasProducts found hasDeclared) (.pure _))
    (documented_corrupt _)).mono fun _ _ => ?_
  exact ⟨((bne_eq_false_iff_eq ..).mp lower).symm, shape, value, product, named, hasProduct⟩

theorem docsLoadHeading_ends (id : Bytes) (entry : Chars × Chars) :
    EndsIn (docsLoadHeading rt id entry) Documented fun _ => LoadedSlug rt entry.1 := by
  refine (EndsIn.refuse (.pure _) (documented_corrupt _)).mono fun _ passed => ?_
  simp only [Bool.or_eq_false_iff, bne_eq_false_iff_eq, Bool.not_eq_false'] at passed
  exact ⟨passed.1.1.1.1.2.symm, passed.1.1.1.2⟩

/-- The names are a list and the sections a dict. -/
theorem docsLoadTexts_ends {record : Chars} (id : Bytes)
    (value : ∀ key ∈ recordKeys, ∃ text, rt.get record key = .ok text) :
    EndsIn (docsLoadTexts rt id record) Documented fun _ =>
      (∃ text words, rt.get record "names" = .ok text ∧ rt.tcl.words text = .ok words) ∧
      (∃ sections, rt.entries record "sections" = .ok sections ∧ ∀ heading ∈ sections, LoadedSlug rt heading.1) ∧
      ∃ formats, rt.entries record "formats" = .ok formats := by
  have scalars : ["product", "version", "type", "title", "summary", "path", "raw_path", "source_file",
    "content_sha256", "source_sha256",
      "bytes"] ⊆ recordKeys := by decide
  have scalar : ∀ key ∈ recordKeys, EndsIn (docsLoadScalar rt id record key) Documented fun _ => True := by
    intro key known
    obtain ⟨text, found⟩ := value key known
    exact .given found ((EndsIn.refuse (.pure _) (documented_corrupt _)).mono fun _ _ => trivial)
  unfold docsLoadTexts
  refine .bind (.each fun key known => scalar key (scalars known)) fun _ _ => ?_
  obtain ⟨names, hasNames⟩ := value "names" (by decide)
  obtain ⟨sections, hasSections⟩ := value "sections" (by decide)
  obtain ⟨formats, hasFormats⟩ := value "formats" (by decide)
  obtain ⟨title, hasTitle⟩ := value "title" (by decide)
  obtain ⟨summary, hasSummary⟩ := value "summary" (by decide)
  obtain ⟨source, hasSource⟩ := value "source_file" (by decide)
  refine .given hasNames (.bind (.refuse words_refutes (documented_corrupt _)) fun _ list => .given hasSections
    (.given hasFormats ?_))
  refine .bind (.refuse (.cons notUnique_refutes fun _ => .last notUnique_refutes) (documented_corrupt _))
    fun _ dicts => ?_
  obtain ⟨words, list, -⟩ := list
  obtain ⟨⟨headings, sectionsRead⟩, representations, formatsRead⟩ := dicts
  refine .given hasTitle
    (.given hasSummary (.given list (.given sectionsRead (.given formatsRead (.given hasSource ?_)))))
  refine .bind (.refuse (.pure _) (documented_corrupt _)) fun _ _ => ?_
  refine .bind (.each fun name _ => .refuse (.pure _) (documented_corrupt _)) fun _ _ => ?_
  refine (EndsIn.each fun entry _ => docsLoadHeading_ends id entry).mono fun _ slugs => ?_
  exact ⟨⟨names, words, hasNames, list⟩, ⟨headings, rt.entries_of hasSections sectionsRead, slugs⟩, representations,
    rt.entries_of hasFormats formatsRead⟩

/-- A document's own path, hash and size are those of its Markdown form, or
it is refused as documented. -/
theorem docsLoadCompatibility_ends {record : Chars} {formats : List (Chars × Chars)} (id : Bytes)
    (value : ∀ key ∈ recordKeys, ∃ text, rt.get record key = .ok text)
    (read : rt.entries record "formats" = .ok formats)
    (loaded : ∀ format ∈ formats, LoadedFormat rt format) {markdown : Chars}
    (found : dictGet (chars "markdown") formats = some markdown) :
    EndsIn (docsLoadCompatibility rt id record) Documented fun _ => True := by
  obtain ⟨text, hasFormats, entries⟩ := rt.entries_read read
  have hasMarkdown : rawGet rt.tcl text (chars "markdown") = .ok markdown := by
    rw [rawGet_entries entries, found]
    rfl
  obtain ⟨⟨markdownPath, hasMarkdownPath⟩, ⟨markdownHash, hasMarkdownHash⟩,
    ⟨markdownBytes, hasMarkdownBytes, -⟩, -, -⟩ :=
    loaded _ (mem_of_dictGet found)
  obtain ⟨content, hasContent⟩ := value "content_sha256" (by decide)
  obtain ⟨bytes, hasBytes⟩ := value "bytes" (by decide)
  obtain ⟨path, hasPath⟩ := value "path" (by decide)
  obtain ⟨raw, hasRaw⟩ := value "raw_path" (by decide)
  obtain ⟨sourceHash, hasSourceHash⟩ := value "source_sha256" (by decide)
  unfold docsLoadCompatibility
  refine .given hasContent (.bind (docsValidateHash_ends _ _) fun _ _ =>
    .given hasBytes (.bind (docsNonnegative_ends _ _) fun _ _ => ?_))
  refine .given (rawGetIn_two hasFormats hasMarkdown) ?_
  refine .bind (.refuse (.also (.given hasPath (.given hasMarkdownPath (.pure _))) fun _ =>
    .also (.given hasMarkdownHash (.pure _)) fun _ =>
    .also (.given hasMarkdownBytes (.pure _)) fun _ => .nil) (documented_corrupt _)) fun _ _ => ?_
  refine .given hasFormats (.given hasRaw (.given hasSourceHash ?_))
  split_ifs with given
  · obtain ⟨source, hasSource⟩ := rawExists_one.mp given
    obtain ⟨⟨sourcePath, hasSourcePath⟩, ⟨declared, hasDeclared⟩, -, -, -⟩ :=
      loaded _ (mem_of_rawGet entries hasSource)
    refine .given (rawGetIn_two hasFormats hasSource)
      (.bind (docsValidateHash_ends _ _) fun _ _ => .refuse ?_ (documented_corrupt _))
    exact .also (.given hasSourcePath (.pure _)) fun _ => .also (.given hasDeclared (.pure _)) fun _ => .nil
  · exact (EndsIn.refuse (.pure _) (documented_corrupt _)).mono fun _ _ => trivial

/-- What holds of the documents so far. -/
structure LoadState.Fits (s : LoadState) (documents : List (Chars × Chars)) : Prop where
  ids : ∀ id ∈ s.ids, id ∈ documents.map Prod.fst
  products : ∀ product ∈ productNames, product ∈ s.productCounts.map Prod.fst
  manuals : ∀ product ∈ productNames, product ∈ s.manualCounts.map Prod.fst

theorem LoadState.start_fits (documents : List (Chars × Chars)) : LoadState.start.Fits documents :=
  ⟨fun _ bad => absurd bad List.not_mem_nil, fun _ known => known, fun _ known => known⟩

theorem mem_dictIncr_keys {key other : Chars} {counts : List (Chars × Nat)} (known : other ∈ counts.map Prod.fst) :
    other ∈ (dictIncr key counts).map Prod.fst := by
  rw [dictIncr, dictPut_keys]
  split_ifs
  · exact known
  · exact List.mem_append_left _ known

/-- A document passes as a whole, or is refused as documented. What the
later checks use of it is what the earlier ones have found. -/
theorem docsLoadDocument_ends (readProducts : rt.entries catalog "products" = .ok products)
    (loadedProducts : ∀ entry ∈ products, LoadedProduct rt entry ∧ entry.1 ∈ productNames)
    (declared : rt.entries catalog "inventory" = .ok inventory)
    (loadedInventory : ∀ entry ∈ inventory, LoadedInventory rt entry)
    {s : LoadState} (fits : s.Fits documents) {entry : Chars × Chars} (member : entry ∈ documents) :
    EndsIn (docsLoadDocument rt catalog s entry) Documented fun s =>
      s.Fits documents ∧ LoadedDocument rt entry := by
  unfold docsLoadDocument
  refine .bind (docsLoadIdentity_ends readProducts loadedProducts _ _) fun _ identity => ?_
  obtain ⟨lower, shape, value, product, -, hasProduct⟩ := identity
  refine .bind (docsLoadTexts_ends _ value) fun _ texts => ?_
  obtain ⟨names, ⟨sections, readSections, slugs⟩, formats, readFormats⟩ := texts
  obtain ⟨_, hasSections, -⟩ := rt.entries_read readSections
  obtain ⟨type, hasType⟩ := value "type" (by decide)
  have step : ∀ represented : List Chars, True → ∀ format ∈ formats,
      EndsIn (docsLoadFormat rt catalog (tclText entry.1) entry.2 represented format) Documented fun _ =>
        True ∧ LoadedFormat rt format :=
    fun represented _ format _ =>
      (docsLoadFormat_ends declared loadedInventory hasSections _ represented format).mono fun _ loaded =>
        ⟨trivial, loaded⟩
  refine .given readFormats (.bind (.fold (fun _ => True) trivial step) fun represented loaded => ?_)
  refine .bind (.refuse (.pure _) (documented_corrupt _)) fun _ carries => ?_
  rw [Bool.or_eq_false_iff, Option.isNone_eq_false_iff] at carries
  obtain ⟨markdown, found⟩ := Option.isSome_iff_exists.mp carries.2
  refine .bind (docsLoadCompatibility_ends _ value readFormats loaded.2 found) fun _ _ =>
    .given hasProduct (.given hasType ?_)
  refine ⟨⟨fun id known => ?_, fun p known => mem_dictIncr_keys (fits.products p known), fun p known => ?_⟩,
    lower, shape, value, names, ⟨sections, readSections, slugs⟩, formats, readFormats, loaded.2⟩
  · rcases List.mem_append.mp known with earlier | here
    · exact fits.ids id earlier
    · exact List.mem_singleton.mp here ▸ List.mem_map_of_mem member
  · dsimp only
    split_ifs
    · exact fits.manuals p known
    · exact mem_dictIncr_keys (fits.manuals p known)

theorem docsLoadDocuments_ends (readProducts : rt.entries catalog "products" = .ok products)
    (loadedProducts : ∀ entry ∈ products, LoadedProduct rt entry ∧ entry.1 ∈ productNames)
    (declared : rt.entries catalog "inventory" = .ok inventory)
    (loadedInventory : ∀ entry ∈ inventory, LoadedInventory rt entry)
    (read : rt.entries catalog "documents" = .ok documents) :
    EndsIn (docsLoadDocuments rt catalog) Documented fun s =>
      s.Fits documents ∧ ∀ entry ∈ documents, LoadedDocument rt entry := by
  unfold docsLoadDocuments
  refine .given read (.fold (LoadState.Fits · documents)
    (LoadState.start_fits documents) fun s fits entry member => ?_)
  exact docsLoadDocument_ends readProducts loadedProducts declared loadedInventory fits member

theorem countOf_known {counts : List (Chars × Nat)} {product : Chars} (known : product ∈ counts.map Prod.fst) :
    ∃ n, countOf counts product = .ok n := by
  unfold countOf
  cases found : dictGet product counts with
  | none => exact absurd known (dictGet_eq_none_iff.mp found)
  | some n => exact ⟨n, rfl⟩

/-- The counts of documents are those that the products declare, or the
catalog is refused as documented. -/
theorem docsLoadCounts_ends (readProducts : rt.entries catalog "products" = .ok products)
    (loadedProducts : ∀ entry ∈ products, LoadedProduct rt entry ∧ entry.1 ∈ productNames) {s : LoadState}
    (fits : s.Fits documents) :
    EndsIn (docsLoadCounts rt catalog s) Documented fun _ => True := by
  have step : ∀ entry ∈ products, EndsIn (docsLoadCount rt s entry) Documented fun _ => True := by
    intro entry member
    obtain ⟨⟨-, ⟨documents, hasDocuments, -⟩, pages, hasPages, -⟩, named⟩ := loadedProducts entry member
    obtain ⟨n, counted⟩ := countOf_known (fits.products _ named)
    obtain ⟨m, manual⟩ := countOf_known (fits.manuals _ named)
    refine .refuse ?_ (documented_corrupt _)
    exact .also (.given hasDocuments (.given counted (.pure _))) fun _ =>
      .also (.given hasPages (.given manual (.pure _))) fun _ => .nil
  unfold docsLoadCounts
  exact .given readProducts (.eachAny step)

theorem docsLoadAuxiliary_ends (fields : CatalogFields rt catalog) (s : LoadState) :
    EndsIn (docsLoadAuxiliary rt catalog s) Documented fun _ => True := by
  obtain ⟨auxiliary, words, hasAuxiliary, list⟩ := fields.auxiliary
  obtain ⟨inventory, read⟩ := fields.dicts "inventory" (by decide)
  obtain ⟨text, hasInventory, entries⟩ := rt.entries_read read
  have step : ∀ listed relative, EndsIn (docsLoadAuxiliaryEntry rt text s.represented listed relative) Documented
    fun _ => True :=
    fun listed relative => .bind (.refuse (.pure _) (documented_corrupt _)) fun _ _ => trivial
  unfold docsLoadAuxiliary
  refine .given hasAuxiliary (.given list (.bind (.refuse (.pure _) (documented_corrupt _)) fun _ _ =>
    .given hasInventory ?_))
  refine .bind (.foldAny fun listed relative _ => step listed relative) fun classified _ => .given entries ?_
  exact .eachAny fun entry _ => (EndsIn.refuse (.pure _) (documented_corrupt _)).mono fun _ _ => trivial

/-- An alias, as far as its documents are known. -/
structure LoadedAlias (rt : DocsRuntime) (documents : List (Chars × Chars)) (entry : Chars × Chars)
    (candidates : List Chars) : Prop where
  words : rt.tcl.words entry.2 = .ok candidates
  normal : docsNormalizeAlias rt.tables entry.1 = entry.1
  short : entry.1.length ≤ 4096
  distinct : (lsort candidates).eraseDups = lsort candidates
  known : ∀ id ∈ candidates, id ∈ documents.map Prod.fst

/-- An alias leads to known documents only. -/
theorem docsLoadAlias_ends {ids : List Chars} (known : ∀ id ∈ ids, id ∈ documents.map Prod.fst)
    (entry : Chars × Chars) :
    EndsIn (docsLoadAlias rt ids entry) Documented fun _ =>
      ∃ candidates, LoadedAlias rt documents entry candidates ∧ entry.1 ≠ [] ∧ candidates ≠ [] := by
  unfold docsLoadAlias
  refine .bind (.refuse (.cons (.pure _) fun _ => .cons (.pure _) fun _ => .cons (.pure _) fun _ => words_refutes)
    (documented_corrupt _))
    fun _ checked => ?_
  obtain ⟨given, normal, short, candidates, list, nonempty⟩ := checked
  refine .given list (.bind (.refuse (.pure _) (documented_corrupt _)) fun _ distinct => ?_)
  refine (EndsIn.each fun id _ => .refuse (.pure _) (documented_corrupt _)).mono fun _ found => ?_
  refine ⟨candidates, ⟨list, ((bne_eq_false_iff_eq ..).mp normal).symm, Nat.not_lt.mp (of_decide_eq_false short),
    (bne_eq_false_iff_eq ..).mp distinct, fun id member => known id ?_⟩,
      by simpa using given, by simpa using nonempty⟩
  exact by simpa using found id member

/-- A fragment is of a section of a document. -/
structure LoadedFragment (rt : DocsRuntime) (documents : List (Chars × Chars)) (entry : Chars × Chars)
    (id slug : Chars) : Prop where
  short : entry.1.length ≤ 32767
  lower : rt.tables.toLower entry.1 = entry.1
  hasId : rt.get entry.2 "id" = .ok id
  hasSlug : rt.get entry.2 "section" = .ok slug
  spelled : entry.1 = id ++ 0x23 :: slug
  known : ∃ record sections, (id, record) ∈ documents ∧ rt.entries record "sections" = .ok sections ∧
    slug ∈ sections.map Prod.fst

/-- A fragment leads to a section of a known document. -/
theorem docsLoadFragment_ends {ids : List Chars} (read : rt.entries catalog "documents" = .ok documents)
    (loaded : ∀ entry ∈ documents, LoadedDocument rt entry) (known : ∀ id ∈ ids, id ∈ documents.map Prod.fst)
    (entry : Chars × Chars) :
    EndsIn (docsLoadFragment rt catalog ids entry) Documented fun _ =>
      ∃ id slug, LoadedFragment rt documents entry id slug := by
  obtain ⟨text, hasDocuments, entries⟩ := rt.entries_read read
  unfold docsLoadFragment
  refine .bind (.refuse (.cons (.pure _) fun _ => .cons (.pure _) fun _ => shaped_refutes) (documented_corrupt _))
    fun _ checked => ?_
  obtain ⟨short, lower, values⟩ := checked
  obtain ⟨id, hasId⟩ := values "id" (by decide)
  obtain ⟨slug, hasSlug⟩ := values "section" (by decide)
  have inside : (!ids.contains id) = false →
    Refutes ((rawGetIn rt.tcl catalog [chars "documents", id, chars "sections"]).bind fun sections =>
      .ok (!rawExists rt.tcl sections [slug])) Documented
      (∃ record sections, (id, record) ∈ documents ∧ rt.entries record "sections" = .ok sections ∧
        slug ∈ sections.map Prod.fst) := by
    intro member
    obtain ⟨record, hasRecord, here⟩ := rawGet_mem entries (known id (by simpa using member))
    obtain ⟨sections, readSections, -⟩ := (loaded _ here).sections
    obtain ⟨headings, hasSections, sectionEntries⟩ := rt.entries_read readSections
    refine .given (rawGetIn_three hasDocuments hasRecord hasSections) ((Refutes.not _).mono fun present => ?_)
    obtain ⟨heading, found⟩ := rawExists_one.mp present
    exact ⟨record, sections, here, readSections, List.mem_map_of_mem (mem_of_rawGet sectionEntries found)⟩
  refine .given hasId
    (.given hasSlug ((EndsIn.refuse (.cons (.pure _) fun _ => .also (.pure _) fun _ => .also (.pure _) fun member =>
    .last (inside member)) (documented_corrupt _)).mono fun _ found => ?_))
  exact ⟨id, slug, Nat.not_lt.mp (of_decide_eq_false short),
    ((bne_eq_false_iff_eq ..).mp lower).symm, hasId, hasSlug,
    (bne_eq_false_iff_eq ..).mp found.1, found.2⟩

end

/-- The entries of a catalog. -/
structure CatalogEntries where
  products : List (Chars × Chars)
  inventory : List (Chars × Chars)
  documents : List (Chars × Chars)
  aliases : List (Chars × Chars)
  fragments : List (Chars × Chars)

/-- What `DocsLoad` has tested of a catalog when it returns it. -/
structure LoadedCatalog (rt : DocsRuntime) (catalog : Chars) (entries : CatalogEntries) : Prop where
  fields : CatalogFields rt catalog
  products : rt.entries catalog "products" = .ok entries.products
  product : ∀ entry ∈ entries.products, LoadedProduct rt entry ∧ entry.1 ∈ productNames
  inventory : rt.entries catalog "inventory" = .ok entries.inventory
  file : ∀ entry ∈ entries.inventory, LoadedInventory rt entry
  documents : rt.entries catalog "documents" = .ok entries.documents
  document : ∀ entry ∈ entries.documents, LoadedDocument rt entry
  aliases : rt.entries catalog "aliases" = .ok entries.aliases
  alias' : ∀ entry ∈ entries.aliases, ∃ candidates, LoadedAlias rt entries.documents entry candidates ∧
    entry.1 ≠ [] ∧ candidates ≠ []
  fragments : rt.entries catalog "fragments" = .ok entries.fragments
  fragment : ∀ entry ∈ entries.fragments, ∃ id slug, LoadedFragment rt entries.documents entry id slug

/-- A catalog passes as a whole, or is refused as documented; what has
passed is collected in one record, from which all later facts are read. -/
theorem docsLoadText_ends (rt : DocsRuntime) (catalog : Chars) :
    EndsIn (docsLoadText rt catalog) Documented fun _ => ∃ entries, LoadedCatalog rt catalog entries := by
  unfold docsLoadText
  refine .bind (docsLoadHead_ends rt catalog) fun _ fields => ?_
  obtain ⟨products, readProducts⟩ := fields.dicts "products" (by decide)
  obtain ⟨inventory, declared⟩ := fields.dicts "inventory" (by decide)
  obtain ⟨documents, readDocuments⟩ := fields.dicts "documents" (by decide)
  obtain ⟨aliases, readAliases⟩ := fields.dicts "aliases" (by decide)
  obtain ⟨fragments, readFragments⟩ := fields.dicts "fragments" (by decide)
  refine .bind (docsLoadProducts_ends readProducts) fun _ loadedProducts => ?_
  refine .bind (docsLoadInventory_ends declared) fun _ loadedInventory => ?_
  refine .bind (docsLoadDocuments_ends readProducts loadedProducts declared loadedInventory readDocuments)
    fun s loaded => ?_
  refine .bind (docsLoadCounts_ends readProducts loadedProducts loaded.1) fun _ _ => ?_
  refine .bind (docsLoadAuxiliary_ends fields s) fun _ _ => ?_
  refine .given readAliases (.bind (.each fun entry _ => docsLoadAlias_ends loaded.1.ids entry)
    fun _ loadedAliases => ?_)
  refine .given readFragments
    ((EndsIn.each fun entry _ => docsLoadFragment_ends readDocuments loaded.2 loaded.1.ids entry).mono
    fun _ loadedFragments => ?_)
  exact ⟨⟨products, inventory, documents, aliases, fragments⟩, fields, readProducts, loadedProducts, declared,
    loadedInventory,
    readDocuments, loaded.2, readAliases, loadedAliases, readFragments, loadedFragments⟩

theorem docsRoot_ends (pack : DocsPack) : EndsIn (docsRoot pack) Documented fun _ => True := by
  unfold docsRoot
  split
  · exact documented_docsFail (by decide) _
  · exact documented_docsFail (by decide) _
  · exact documented_docsFail (by decide) _
  · exact trivial

theorem docsReadUtf8_ends (file : PackFile) (label : Bytes) :
    EndsIn (docsReadUtf8 file label) Documented fun _ => True := by
  unfold docsReadUtf8
  split
  · exact trivial
  · exact documented_corrupt _

/-- `DocsLoad` fails as documented, or gives a catalog in which all fields
are as they should be. -/
theorem docsLoad_ends (rt : DocsRuntime) (pack : DocsPack) :
    EndsIn (docsLoad rt pack) Documented fun catalog => ∃ entries, LoadedCatalog rt catalog entries := by
  unfold docsLoad
  refine .bind (docsRoot_ends pack) fun _ _ => ?_
  split
  · exact documented_corrupt _
  · refine .bind (.refuse (.pure _) (documented_corrupt _)) fun _ _ => ?_
    refine .bind (docsReadUtf8_ends _ _) fun text _ => ?_
    exact .bind (docsLoadText_ends rt (rt.tables.trim text)) fun _ loaded => loaded

end Machteld
