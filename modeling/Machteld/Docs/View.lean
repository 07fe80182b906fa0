import Machteld.Docs.Answers
import Machteld.Docs.Index

namespace Machteld

/-- Entries of a dict beside what is read of them, under the same keys. -/
def Viewed {α β : Type} (views : α → β → Prop) (entry : Chars × α) (viewed : Chars × β) : Prop :=
  viewed.1 = entry.1 ∧ views entry.2 viewed.2

/-- A field that holds a number. -/
def CountIs (rt : DocsRuntime) (value : Chars) (field : String) (n : Nat) : Prop :=
  ∃ text, rt.get value field = .ok text ∧ charsValue text = n

structure RangeView (rt : DocsRuntime) (value : Chars) (range : DocRange) : Prop where
  start : CountIs rt value "start" range.start
  stop : CountIs rt value "end" range.stop

structure FormatView (rt : DocsRuntime) (value : Chars) (format : DocFormat) : Prop where
  path : rt.get value "path" = .ok format.path
  sha256 : rt.get value "sha256" = .ok format.sha256
  bytes : CountIs rt value "bytes" format.bytes
  characters : CountIs rt value "characters" format.characters
  sections : ∃ ranges, rt.entries value "sections" = .ok ranges ∧
    List.Forall₂ (Viewed (RangeView rt)) ranges format.sections
  small : format.characters ≤ 67108864

structure RecordView (rt : DocsRuntime) (value : Chars) (record : DocRecord) : Prop where
  id : rt.get value "id" = .ok record.id
  product : rt.get value "product" = .ok record.product
  version : rt.get value "version" = .ok record.version
  type : rt.get value "type" = .ok record.type
  title : rt.get value "title" = .ok record.title
  summary : rt.get value "summary" = .ok record.summary
  names : ∃ text, rt.get value "names" = .ok text ∧ rt.tcl.words text = .ok record.names
  sections : rt.entries value "sections" = .ok record.sections
  formats : ∃ formats, rt.entries value "formats" = .ok formats ∧
    List.Forall₂ (Viewed (FormatView rt)) formats record.formats

/-- What a fragment names. -/
def FragmentView (rt : DocsRuntime) (value : Chars) (target : Chars × Chars) : Prop :=
  rt.get value "id" = .ok target.1 ∧ rt.get value "section" = .ok target.2

/-- A catalog read as a whole. -/
structure CatalogView (rt : DocsRuntime) (catalog : Chars) (view : DocsCatalog) : Prop where
  products : ∃ products, rt.entries catalog "products" = .ok products ∧ view.products = products.map Prod.fst
  documents : ∃ documents, rt.entries catalog "documents" = .ok documents ∧
    List.Forall₂ (Viewed (RecordView rt)) documents view.documents
  aliases : ∃ aliases, rt.entries catalog "aliases" = .ok aliases ∧
    List.Forall₂ (Viewed fun value candidates => rt.tcl.words value = .ok candidates) aliases view.aliases
  fragments : ∃ fragments, rt.entries catalog "fragments" = .ok fragments ∧
    List.Forall₂ (Viewed (FragmentView rt)) fragments view.fragments

/-- A record of the search index beside what is read of it. -/
structure SearchView (rt : DocsRuntime) (value : Chars) (search : SearchRecord) : Prop where
  priority : CountIs rt value "priority" search.priority
  title : rt.get value "title" = .ok search.title
  aliases : rt.get value "aliases" = .ok search.aliases
  summary : rt.get value "summary" = .ok search.summary
  body : rt.get value "body" = .ok search.body
  snippets : rt.entries value "snippets" = .ok search.snippets
  displaySnippets : rt.entries value "display_snippets" = .ok search.displaySnippets
  same : search.snippets.map Prod.fst = search.displaySnippets.map Prod.fst

theorem forall₂_of_exists {α β : Type} {related : α → β → Prop} {items : List α}
    (each : ∀ a ∈ items, ∃ b, related a b) :
    ∃ items', List.Forall₂ related items items' := by
  induction items with
  | nil => exact ⟨[], .nil⟩
  | cons a items ih =>
    obtain ⟨here, later⟩ := List.forall_mem_cons.mp each
    obtain ⟨b, first⟩ := here
    obtain ⟨items', rest⟩ := ih later
    exact ⟨b :: items', .cons first rest⟩

/-- What is found under a key is what is read of it. -/
theorem dictGet_viewed {α β : Type} {views : α → β → Prop} {entries : List (Chars × α)} {viewed : List (Chars × β)}
    (all : List.Forall₂ (Viewed views) entries viewed) (key : Chars) :
    (dictGet key entries = none ∧ dictGet key viewed = none) ∨
      ∃ value value', dictGet key entries = some value ∧ dictGet key viewed = some value' ∧ views value value' := by
  induction all with
  | nil => exact .inl ⟨rfl, rfl⟩
  | @cons entry viewed entries rest first _ ih =>
    obtain ⟨k, value⟩ := entry
    obtain ⟨k', value'⟩ := viewed
    obtain ⟨rfl, same⟩ := first
    by_cases here : k' = key
    · exact .inr ⟨value, value', if_pos here, if_pos here, same⟩
    · rw [dictGet, dictGet, if_neg here, if_neg here]
      exact ih

section

variable {rt : DocsRuntime} {catalog : Chars} {entries : CatalogEntries}

theorem LoadedRange.view {entry : Chars × Chars} (loaded : LoadedRange rt entry) :
    ∃ range, Viewed (RangeView rt) entry range := by
  obtain ⟨⟨start, hasStart, -⟩, stop, hasStop, -⟩ := loaded
  exact ⟨(entry.1, ⟨charsValue start, charsValue stop⟩), rfl, ⟨start, hasStart, rfl⟩, stop, hasStop, rfl⟩

theorem LoadedFormat.view {entry : Chars × Chars} (loaded : LoadedFormat rt entry) :
    ∃ format, Viewed (FormatView rt) entry format := by
  obtain ⟨⟨path, hasPath⟩, ⟨sha256, hasHash⟩, ⟨bytes, hasBytes, -⟩, ⟨characters, hasCharacters, -, small⟩, ranges,
    read, fits⟩ := loaded
  obtain ⟨sections, viewed⟩ := forall₂_of_exists fun range member => (fits range member).view
  exact ⟨(entry.1, ⟨path, sha256, charsValue bytes, charsValue characters, sections⟩), rfl, hasPath, hasHash,
    ⟨bytes, hasBytes, rfl⟩,
    ⟨characters, hasCharacters, rfl⟩, ⟨ranges, read, viewed⟩, small⟩

theorem LoadedDocument.view {entry : Chars × Chars} (loaded : LoadedDocument rt entry) :
    ∃ record, Viewed (RecordView rt) entry record := by
  obtain ⟨id, hasId⟩ := loaded.values "id" (by decide)
  obtain ⟨product, hasProduct⟩ := loaded.values "product" (by decide)
  obtain ⟨version, hasVersion⟩ := loaded.values "version" (by decide)
  obtain ⟨type, hasType⟩ := loaded.values "type" (by decide)
  obtain ⟨title, hasTitle⟩ := loaded.values "title" (by decide)
  obtain ⟨summary, hasSummary⟩ := loaded.values "summary" (by decide)
  obtain ⟨text, names, hasNames, list⟩ := loaded.names
  obtain ⟨sections, readSections, -⟩ := loaded.sections
  obtain ⟨formats, readFormats, fits⟩ := loaded.formats
  obtain ⟨views, viewed⟩ := forall₂_of_exists fun format member => (fits format member).view
  exact ⟨(entry.1, ⟨id, product, version, type, title, summary, names, sections, views⟩), rfl, hasId, hasProduct,
    hasVersion, hasType,
    hasTitle, hasSummary, ⟨text, hasNames, list⟩, readSections, formats, readFormats, viewed⟩

theorem LoadedRecord.view {documents : List (Chars × Chars)} {entry : Chars × Chars}
    (loaded : LoadedRecord rt documents entry) :
    ∃ search, Viewed (SearchView rt) entry search := by
  obtain ⟨priority, hasPriority⟩ := loaded.values "priority" (by decide)
  obtain ⟨title, hasTitle⟩ := loaded.values "title" (by decide)
  obtain ⟨aliases, hasAliases⟩ := loaded.values "aliases" (by decide)
  obtain ⟨summary, hasSummary⟩ := loaded.values "summary" (by decide)
  obtain ⟨body, hasBody⟩ := loaded.values "body" (by decide)
  obtain ⟨snippets, display, readSnippets, readDisplay, same⟩ := loaded.snippets
  exact ⟨(entry.1, ⟨charsValue priority, title, aliases, summary, body, snippets, display⟩), rfl,
    ⟨priority, hasPriority, rfl⟩,
    hasTitle, hasAliases, hasSummary, hasBody, readSnippets, readDisplay, same⟩

/-- A loaded catalog has the bounds that the catalog of the other results
has. -/
theorem LoadedCatalog.view (loaded : LoadedCatalog rt catalog entries) : ∃ view, CatalogView rt catalog view := by
  obtain ⟨documents, viewedDocuments⟩ := forall₂_of_exists fun entry member => (loaded.document entry member).view
  have alias' : ∀ entry ∈ entries.aliases, ∃ viewed : Chars × List Chars,
    Viewed (fun value candidates => rt.tcl.words value = .ok candidates)
      entry viewed := by
    intro entry member
    obtain ⟨candidates, fits, -⟩ := loaded.alias' entry member
    exact ⟨(entry.1, candidates), rfl, fits.words⟩
  have fragment : ∀ entry ∈ entries.fragments, ∃ viewed, Viewed (FragmentView rt) entry viewed := by
    intro entry member
    obtain ⟨id, slug, fits⟩ := loaded.fragment entry member
    exact ⟨(entry.1, id, slug), rfl, fits.hasId, fits.hasSlug⟩
  obtain ⟨aliases, viewedAliases⟩ := forall₂_of_exists alias'
  obtain ⟨fragments, viewedFragments⟩ := forall₂_of_exists fragment
  have few : documents.length ≤ 10000 := by
    obtain ⟨_, read, few⟩ := loaded.fields.few ("documents", 10000) (by decide)
    obtain rfl := Except.ok.inj (loaded.documents.symm.trans read)
    exact viewedDocuments.length_eq ▸ few
  have small : ∀ document ∈ documents, ∀ format ∈ document.2.formats, format.2.characters ≤ 67108864 := by
    intro document member format inside
    obtain ⟨entry, -, -, record⟩ := forall₂_mem_right viewedDocuments member
    obtain ⟨formats, -, viewed⟩ := record.formats
    obtain ⟨facts, -, -, same⟩ := forall₂_mem_right viewed inside
    exact same.small
  exact ⟨⟨entries.products.map Prod.fst, documents, aliases, fragments, few, small⟩, ⟨_, loaded.products, rfl⟩,
    ⟨_, loaded.documents, viewedDocuments⟩, ⟨_, loaded.aliases, viewedAliases⟩, _, loaded.fragments,
      viewedFragments⟩

theorem rawGetIn_entries {value : Chars} {field : String} {pairs : List (Chars × Chars)}
    (read : rt.entries value field = .ok pairs) (key : Chars) :
    rawGetIn rt.tcl value [chars field, key] = (dictGet key pairs).elim (.error (dictKeyUnknown key)) .ok := by
  obtain ⟨text, found, pairsRead⟩ := rt.entries_read read
  rw [rawGetIn_cons found, rawGetIn_one, rawGet_entries pairsRead]

/-- Both catalogs know a key, or none of them does. -/
theorem lookup_viewed {β : Type} {views : Chars → β → Prop} {field : String} {pairs : List (Chars × Chars)}
    {viewed : List (Chars × β)}
    (read : rt.entries catalog field = .ok pairs) (all : List.Forall₂ (Viewed views) pairs viewed) (key : Chars) :
    (rawExists rt.tcl catalog [chars field, key] = false ∧ dictGet key viewed = none) ∨
      ∃ value value', rawGetIn rt.tcl catalog [chars field, key] = .ok value ∧ dictGet key viewed = some value' ∧
        views value value' := by
  rcases dictGet_viewed all key with ⟨absent, none'⟩ | ⟨value, value', found, found', same⟩
  · refine .inl ⟨Bool.eq_false_iff.mpr fun bad => ?_, none'⟩
    exact dictGet_eq_none_iff.mp absent ((rawExists_entries read key).mp bad)
  · refine .inr ⟨value, value', ?_, found', same⟩
    rw [rawGetIn_entries read, found]
    rfl

theorem charsLe_antisymm {s t : Chars} (first : charsLe s t = true) (second : charsLe t s = true) : s = t := by
  induction s generalizing t with
  | nil =>
    cases t with
    | nil => rfl
    | cons b t => cases second
  | cons a s ih =>
    cases t with
    | nil => cases first
    | cons b t =>
      simp only [charsLe, Bool.or_eq_true, Bool.and_eq_true, decide_eq_true_eq, beq_iff_eq] at first second
      have heads : a = b := by omega
      subst heads
      rw [ih ((first.resolve_left (Nat.lt_irrefl a)).2) ((second.resolve_left (Nat.lt_irrefl a)).2)]

theorem lsort_eq_mergeSort (words : List Chars) : lsort words = words.mergeSort charsLe := by
  have total : Std.Total fun a b : Chars => charsLe a b = true :=
    ⟨fun a b => Bool.or_eq_true_iff.mp (charsLe_total a b)⟩
  have trans : IsTrans Chars fun a b => charsLe a b = true := ⟨fun _ _ _ => charsLe_trans⟩
  have sorted := List.pairwise_insertionSort (fun a b => charsLe a b = true) words
  have sorted' : (words.mergeSort charsLe).Pairwise fun a b => charsLe a b = true :=
    @List.pairwise_mergeSort _ charsLe (fun _ _ _ => charsLe_trans) charsLe_total words
  refine List.Perm.eq_of_pairwise (fun _ _ _ _ => charsLe_antisymm) sorted sorted' ?_
  exact (List.perm_insertionSort _ words).trans (List.mergeSort_perm words charsLe).symm

theorem rawExists_prefix {tcl : TclLists} {value : Chars} {keys keys' : List Chars}
    (found : rawExists tcl value (keys ++ keys') = true) :
    rawExists tcl value keys = true := by
  rw [rawExists_iff] at found ⊢
  obtain ⟨item, found⟩ := found
  induction keys generalizing value with
  | nil => exact ⟨value, rfl⟩
  | cons key keys ih =>
    obtain ⟨first, got, rest⟩ := Except.bind_ok.mp found
    obtain ⟨item, below⟩ := ih rest
    exact ⟨item, (rawGetIn_cons got keys).trans below⟩

theorem rawExists_under {tcl : TclLists} {value first : Chars} {keys : List Chars}
    (found : rawGetIn tcl value keys = .ok first)
    (keys' : List Chars) : rawExists tcl value (keys ++ keys') = rawExists tcl first keys' := by
  rw [Bool.eq_iff_iff, rawExists_iff, rawExists_iff, rawGetIn_under found]

variable {view : DocsCatalog}

theorem section_viewed (views : CatalogView rt catalog view) (id slug : Chars) :
    rawExists rt.tcl catalog [chars "documents", id, chars "sections", slug] = false ↔
      ((dictGet id view.documents).bind fun record => dictGet slug record.sections).isNone = true := by
  obtain ⟨documents, read, viewed⟩ := views.documents
  rcases lookup_viewed read viewed id with ⟨absent, none'⟩ | ⟨value, record, found, found', same⟩
  · rw [none']
    refine iff_of_true (Bool.eq_false_iff.mpr fun bad => ?_) rfl
    have present : rawExists rt.tcl catalog [chars "documents", id] = true := rawExists_prefix bad
    rw [absent] at present
    cases present
  · have under : rawExists rt.tcl catalog [chars "documents", id, chars "sections", slug] =
      rawExists rt.tcl value [chars "sections", slug] :=
      rawExists_under found [chars "sections", slug]
    rw [under, found', Option.bind_some, Option.isNone_iff_eq_none,
      dictGet_eq_none_iff, ← rawExists_entries same.sections slug,
      Bool.not_eq_true]

theorem docsResolveOneRaw_view (views : CatalogView rt catalog view) (requested sectionName : Chars)
    (candidates : List Chars) :
    docsResolveOneRaw rt catalog requested sectionName candidates =
      docsResolveOne view requested sectionName candidates := by
  cases candidates with
  | nil => rfl
  | cons id candidates =>
    cases candidates with
    | nil => exact if_congr (and_congr_right fun _ => section_viewed views id sectionName) rfl rfl
    | cons _ _ => rfl

theorem docsResolveKeyRaw_view (views : CatalogView rt catalog view) (requested key sectionName : Chars) :
    docsResolveKeyRaw rt catalog requested key sectionName =
      docsResolveKey rt.tables view requested key sectionName := by
  obtain ⟨documents, read, viewed⟩ := views.documents
  obtain ⟨aliases, readAliases, viewedAliases⟩ := views.aliases
  rw [docsResolveKeyRaw, docsResolveKey]
  rcases lookup_viewed read viewed key with ⟨absent, none'⟩ | ⟨value, record, found, found', -⟩
  · rw [absent, none', Option.isSome_none, if_neg Bool.false_ne_true, if_neg Bool.false_ne_true]
    rcases lookup_viewed readAliases viewedAliases (docsNormalizeAlias rt.tables key) with ⟨absent, none'⟩ | ⟨value,
      candidates, found, found', words⟩
    · rw [absent, none', if_neg Bool.false_ne_true]
    · rw [rawExists_iff.mpr ⟨value, found⟩, found', if_pos rfl]
      refine (Except.bind_of_ok found _).trans ((Except.bind_of_ok words _).trans ?_)
      rw [lsort_eq_mergeSort, docsResolveOneRaw_view views]
  · rw [rawExists_iff.mpr ⟨value, found⟩, found', Option.isSome_some, if_pos rfl, if_pos rfl,
      docsResolveOneRaw_view views]

/-- `DocsResolve` gives on a catalog what it gives on its view. -/
theorem docsResolveRaw_view (views : CatalogView rt catalog view) (requested : Chars) :
    docsResolveRaw rt catalog requested = docsResolve rt.tables view requested := by
  obtain ⟨documents, read, viewed⟩ := views.documents
  obtain ⟨fragments, readFragments, viewedFragments⟩ := views.fragments
  rw [docsResolve]
  by_cases long : 32767 < requested.length
  · rw [if_pos long, docsResolveRaw_long long]
  rw [if_neg long, docsResolveRaw_short (Nat.not_lt.mp long) rfl, docsResolveFrom]
  generalize rt.tables.toLower (rt.tables.trim requested) = key
  refine if_congr Iff.rfl rfl ?_
  rcases lookup_viewed read viewed key with ⟨absent, none'⟩ | ⟨value, record, found, found', -⟩
  · rw [absent, none', Option.isSome_none, if_neg Bool.false_ne_true, if_neg Bool.false_ne_true]
    rcases lookup_viewed readFragments viewedFragments key with ⟨absent, none'⟩ | ⟨value, target,
      found, found', named⟩
    · rw [absent, none', if_neg Bool.false_ne_true]
      cases splitFragment key with
      | none => exact docsResolveKeyRaw_view views ..
      | some pair => exact docsResolveKeyRaw_view views ..
    · rw [rawExists_iff.mpr ⟨value, found⟩, found', if_pos rfl]
      exact (Except.bind_of_ok found _).trans ((Except.bind_of_ok named.1 _).trans (Except.bind_of_ok named.2 _))
  · rw [rawExists_iff.mpr ⟨value, found⟩, found', Option.isSome_some, if_pos rfl, if_pos rfl]

end

end Machteld
