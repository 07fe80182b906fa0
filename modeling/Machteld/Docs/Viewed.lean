import Machteld.Docs.Damaged
import Machteld.Docs.Resolves
import Machteld.Docs.View

namespace Machteld

theorem forall₂_map_eq {α β γ : Type} {related : α → β → Prop} {f : α → γ} {g : β → γ} {items : List α}
    {items' : List β}
    (all : List.Forall₂ related items items') (same : ∀ a b, related a b → f a = g b) :
    items.map f = items'.map g := by
  induction all with
  | nil => rfl
  | cons here _ ih => rw [List.map_cons, List.map_cons, same _ _ here, ih]

/-- Items that are related stay so in their order, where it is the same one.
-/
theorem forall₂_mergeSort {α β : Type} {related : α → β → Prop} {le : α → α → Bool} {le' : β → β → Bool}
    (same : ∀ a a' b b', related a b → related a' b' → le a a' = le' b b') {items : List α} {items' : List β}
    (all : List.Forall₂ related items items') : List.Forall₂ related (items.mergeSort le)
    (items'.mergeSort le') := by
  have pairs : ∃ both : List { p : α × β // related p.1 p.2 }, both.map (fun p => p.val.1) = items ∧
      both.map (fun p => p.val.2) = items' := by
    induction all with
    | nil => exact ⟨[], rfl, rfl⟩
    | cons here _ ih =>
      obtain ⟨both, firsts, seconds⟩ := ih
      exact ⟨⟨(_, _), here⟩ :: both, congrArg _ firsts, congrArg _ seconds⟩
  obtain ⟨both, rfl, rfl⟩ := pairs
  rw [← List.map_mergeSort (r := fun p q => le p.val.1 q.val.1) fun _ _ _ _ => rfl,
    ← List.map_mergeSort (r := fun p q => le p.val.1 q.val.1) fun p _ q _ => same _ _ _ _ p.property q.property,
    List.forall₂_map_left_iff, List.forall₂_map_right_iff]
  exact List.forall₂_same.mpr fun p _ => p.property

/-- A summary with the words and the dict that its texts are read as. -/
structure SummaryView (rt : DocsRuntime) (raw : RawSummary) (item : DocSummary) : Prop where
  id : raw.id = item.id
  product : raw.product = item.product
  version : raw.version = item.version
  type : raw.type = item.type
  title : raw.title = item.title
  summary : raw.summary = item.summary
  names : rt.tcl.words raw.names = .ok item.names
  sections : rawDict rt.tcl raw.sections = .ok item.sections

/-- A page of items beside a page of what they are read as. -/
structure PageView {α β : Type} (views : α → β → Prop) (raw : DocsPage α) (page : DocsPage β) : Prop where
  items : List.Forall₂ views raw.items page.items
  total : raw.total = page.total
  offset : raw.offset = page.offset
  limit : raw.limit = page.limit
  returned : raw.returned = page.returned
  truncated : raw.truncated = page.truncated
  next : raw.next = page.next

theorem docsPage_viewed {α β : Type} {views : α → β → Prop} {items : List α} {items' : List β}
    (all : List.Forall₂ views items items') (offset limit : Nat) :
    PageView views (docsPage items offset limit) (docsPage items' offset limit) := by
  have window : List.Forall₂ views (tclRange items offset (offset + limit - 1))
    (tclRange items' offset (offset + limit - 1)) :=
    List.forall₂_drop _ (List.forall₂_take _ all)
  refine ⟨window, all.length_eq, rfl, rfl, window.length_eq, ?_, ?_⟩ <;>
    simp only [docsPage, all.length_eq, window.length_eq]

section

variable {rt : DocsRuntime} {catalog value : Chars} {view : DocsCatalog} {record : DocRecord} {filter : DocsFilter}

theorem docsOther_read {field : String} {text : Chars} (read : rt.get value field = .ok text) (asked : Chars) :
    docsOther rt asked value field = .ok (!(asked == chars "all" || text == asked)) := by
  unfold docsOther
  split_ifs with all
  · rw [beq_iff_eq.mpr all]
    rfl
  · rw [read, beq_eq_false_iff_ne.mpr all, Bool.false_or]
    rfl

theorem docsSkips_view (views : RecordView rt value record) :
    docsSkips rt filter value = .ok !filter.passes record := by
  unfold docsSkips DocsFilter.passes
  rw [docsOther_read views.product, docsOther_read views.type, Bool.not_and]
  cases !(filter.scope == chars "all" || record.product == filter.scope) with
  | true => rfl
  | false =>
    cases !(filter.type == chars "all" || record.type == filter.type) with
    | true => rfl
    | false => rfl

theorem docsSummaryRaw_view (views : RecordView rt value record) :
    ∃ raw, docsSummaryRaw rt value = .ok raw ∧ SummaryView rt raw (docsSummary record) := by
  obtain ⟨names, hasNames, words⟩ := views.names
  obtain ⟨sections, hasSections, pairs⟩ := rt.entries_read views.sections
  refine ⟨⟨record.id, record.product, record.version, record.type, record.title, record.summary,
    names, sections⟩, ?_,
    ⟨rfl, rfl, rfl, rfl, rfl, rfl, words, pairs⟩⟩
  unfold docsSummaryRaw
  rw [views.id, views.product, views.version, views.type, views.title, views.summary, hasNames, hasSections]
  rfl

theorem docsListItem_view (filter : DocsFilter) (items : List RawSummary) (id : Chars)
    (views : RecordView rt value record) :
    ∃ more, docsListItem rt filter items (id, value) = .ok (items ++ more) ∧
      List.Forall₂ (SummaryView rt) more (([record].filter filter.passes).map docsSummary) := by
  unfold docsListItem
  rw [docsSkips_view views]
  cases passes : filter.passes record with
  | false =>
    rw [List.filter_cons_of_neg (Bool.eq_false_iff.mp passes)]
    exact ⟨[], by rw [List.append_nil]; rfl, .nil⟩
  | true =>
    obtain ⟨raw, read, summary⟩ := docsSummaryRaw_view views
    rw [List.filter_cons_of_pos passes]
    exact ⟨[raw], Except.bind_of_ok read _, .cons summary .nil⟩

theorem docsListItems_view (filter : DocsFilter) {documents : List (Chars × Chars)}
    {documents' : List (Chars × DocRecord)}
    (viewed : List.Forall₂ (Viewed (RecordView rt)) documents documents') {items : List RawSummary}
    {items' : List DocSummary}
    (so : List.Forall₂ (SummaryView rt) items items') :
    ∃ all, foldOf (docsListItem rt filter) items documents = .ok all ∧
      List.Forall₂ (SummaryView rt) all (items' ++ ((documents'.map Prod.snd).filter filter.passes).map
        docsSummary) := by
  induction viewed generalizing items items' with
  | nil => exact ⟨items, rfl, by rwa [List.map_nil, List.filter_nil, List.map_nil, List.append_nil]⟩
  | @cons entry viewed documents documents' first _ ih =>
    obtain ⟨more, read, here⟩ := docsListItem_view filter items entry.1 first.2
    obtain ⟨all, rest, later⟩ := ih (List.rel_append so here)
    refine ⟨all, (Except.bind_of_ok read _).trans rest, ?_⟩
    rwa [List.map_cons, ← List.singleton_append, List.filter_append, List.map_append, ← List.append_assoc]

theorem docsKnownTypes_view {documents : List (Chars × Chars)} {documents' : List (Chars × DocRecord)}
    (viewed : List.Forall₂ (Viewed (RecordView rt)) documents documents') (types : List Chars) :
    foldOf (docsKnownType rt) types documents = .ok (types ++ documents'.map fun document => document.2.type) := by
  induction viewed generalizing types with
  | nil => rw [List.map_nil, List.append_nil]; rfl
  | @cons entry viewed documents documents' first _ ih =>
    have here : docsKnownType rt types entry = .ok (types ++ [viewed.2.type]) := Except.bind_of_ok first.2.type _
    rw [foldOf, Except.bind_of_ok here, ih, List.map_cons, List.append_assoc, List.singleton_append]

/-- `DocsFilterOptions` reads of a pack what it reads of the view of its
catalog. -/
theorem docsFilterOptionsRaw_view {pack : DocsPack} (loads : docsLoad rt pack = .ok catalog)
    (views : CatalogView rt catalog view)
    (args : List Chars) : docsFilterOptionsRaw rt pack args = docsFilterOptions rt.tables view args := by
  obtain ⟨products, readProducts, names⟩ := views.products
  obtain ⟨documents, readDocuments, viewed⟩ := views.documents
  have known : ∀ scope, rawExists rt.tcl catalog [chars "products", scope] = view.products.contains scope := by
    intro scope
    rw [Bool.eq_iff_iff, rawExists_entries readProducts, names, List.contains_iff_mem]
  have typed : ∀ type, (view.documents.map fun document => document.2.type).contains type =
      view.documents.any fun document => document.2.type == type := by
    intro type
    rw [List.contains_eq_any_beq, List.any_map]
    exact congrArg _ (funext fun document => Bool.beq_comm)
  unfold docsFilterOptionsRaw docsFilterOptions docsFilter
  refine congrArg _ (funext fun options => (Except.bind_of_ok loads _).trans ?_)
  generalize orAll (rt.tables.toLower (optionValue "scope" options.1)) = scope
  generalize orAll (rt.tables.toLower (optionValue "type" options.1)) = type
  dsimp only
  rw [known]
  refine (refuse_bind ..).trans (if_congr ?_ rfl ?_)
  · rw [Bool.and_eq_true, bne_iff_ne, Bool.not_eq_true']
  refine (Except.bind_of_ok readDocuments _).trans ((Except.bind_of_ok (docsKnownTypes_view viewed []) _).trans ?_)
  refine (refuse_bind ..).trans (if_congr ?_ rfl rfl)
  rw [List.nil_append, typed, Bool.and_eq_true, bne_iff_ne, Bool.not_eq_true']

/-- `docs list` shows of a pack what it shows of the view of its catalog. -/
theorem docsListRaw_view {pack : DocsPack} (loads : docsLoad rt pack = .ok catalog)
    (views : CatalogView rt catalog view)
    (args : List Chars) : Alike (PageView (SummaryView rt)) (docsListRaw rt pack args)
    (docsList rt.tables view args) := by
  obtain ⟨documents, readDocuments, viewed⟩ := views.documents
  refine .same (docsFilterOptionsRaw_view loads views args) fun filter => .given loads (.given readDocuments ?_)
  obtain ⟨items, read, all⟩ := docsListItems_view filter viewed .nil
  refine .given read (.ok <| docsPage_viewed (forall₂_mergeSort (fun a a' b b' same same' => ?_) all) _ _)
  rw [same.id, same'.id]

/-- The search index read as a whole. -/
def IndexView (rt : DocsRuntime) (text : Chars) (index : DocsIndex view) : Prop :=
  ∃ records, rt.entries text "documents" = .ok records ∧
    List.Forall₂ (Viewed (SearchView rt)) records index.documents

structure MatchView (rt : DocsRuntime) (raw : RawMatch) (item : DocsMatch) : Prop where
  summary : SummaryView rt raw.summary item.summary
  score : raw.score = item.score
  snippet : raw.snippet = item.snippet

theorem docsSnippetRaw_view {search : SearchRecord} (views : SearchView rt value search) (terms : List Chars)
    (summary : Chars) :
    docsSnippetRaw rt value terms summary = .ok (searchSnippet search terms summary) := by
  unfold docsSnippetRaw searchSnippet
  refine (Except.bind_of_ok views.snippets _).trans ?_
  cases first : search.snippets.find? fun entry => terms.all fun term => occurs term entry.2 with
  | none => rfl
  | some entry =>
    have known : entry.1 ∈ search.displaySnippets.map Prod.fst :=
      views.same ▸ List.mem_map_of_mem (List.mem_of_find?_eq_some first)
    obtain ⟨text, shown⟩ := Option.ne_none_iff_exists'.mp fun absent => dictGet_eq_none_iff.mp absent known
    dsimp only
    rw [rawGetIn_entries views.displaySnippets, shown]
    rfl

/-- The snippets do not count for the score. -/
theorem termsScore_texts (search : SearchRecord) (snippets displaySnippets : List (Chars × Chars)) (joined : Chars)
    (terms : List Chars) (score : Nat) :
    termsScore { search with snippets := snippets, displaySnippets := displaySnippets } joined terms score =
      termsScore search joined terms score := by
  induction terms generalizing score with
  | nil => rfl
  | cons term terms ih => exact congrArg _ (funext fun more => ih _)

/-- What the index tells of a document, where it is one of the catalog. -/
theorem docsSearchItem_view (filter : DocsFilter) (normalized : Chars) (found : List RawMatch)
    {search : SearchRecord} {id : Chars} (indexed : SearchView rt value search)
    {document : Chars} (own : RecordView rt document record)
    (hasText : rawGetIn rt.tcl catalog [chars "documents", id] = .ok document) :
    ∃ more, docsSearchItem rt catalog filter normalized found (id, value) = .ok (found ++ more) ∧
      List.Forall₂ (MatchView rt) more (if filter.passes record then
        (docsMatch normalized search record).toList else []) := by
  have skips : docsSearchItem rt catalog filter normalized found (id, value) = _ :=
    (Except.bind_of_ok hasText _).trans (Except.bind_of_ok (docsSkips_view own) _)
  cases passes : filter.passes record with
  | false =>
    rw [passes] at skips
    exact ⟨[], skips.trans (congrArg _ (List.append_nil found).symm), .nil⟩
  | true =>
    rw [passes] at skips
    obtain ⟨priority, hasPriority, count⟩ := indexed.priority
    have reads := skips.trans ((Except.bind_of_ok indexed.title _).trans
      ((Except.bind_of_ok indexed.aliases _).trans
      ((Except.bind_of_ok indexed.summary _).trans ((Except.bind_of_ok indexed.body _).trans
        (Except.bind_of_ok hasPriority _)))))
    rw [if_pos rfl, docsMatch]
    generalize search.title ++ (0x20 :: search.aliases ++ (0x20 :: search.summary ++ (0x20 :: search.body))) =
      joined at reads ⊢
    dsimp only at reads ⊢
    rw [count, termsScore_texts search] at reads
    cases scored : termsScore search joined (blankPieces normalized) search.priority with
    | none =>
      rw [scored] at reads
      exact ⟨[], reads.trans (congrArg _ (List.append_nil found).symm), .nil⟩
    | some score =>
      rw [scored] at reads
      obtain ⟨item, hasItem, summary⟩ := docsSummaryRaw_view own
      have whole := reads.trans ((Except.bind_of_ok hasItem _).trans ((Except.bind_of_ok own.summary _).trans
        (Except.bind_of_ok (docsSnippetRaw_view indexed (blankPieces normalized) record.summary) _)))
      exact ⟨[_], whole, .cons ⟨summary, rfl, rfl⟩ .nil⟩

/-- The loop of `docs search` finds what is found in the view, or fails at
the same document. -/
theorem docsSearchItems_view {normalized : Chars} {records : List (Chars × Chars)}
    {records' : List (Chars × SearchRecord)}
    (views : CatalogView rt catalog view) (indexed : List.Forall₂ (Viewed (SearchView rt)) records records')
    {found : List RawMatch}
    {found' : List DocsMatch} (so : List.Forall₂ (MatchView rt) found found') :
    Alike (fun all items => List.Forall₂ (MatchView rt) all (found' ++ items))
      (foldOf (docsSearchItem rt catalog filter normalized) found records)
      (docsMatches view filter.passes normalized records') := by
  obtain ⟨documents, readDocuments, viewed⟩ := views.documents
  induction indexed generalizing found found' with
  | nil =>
    refine .ok ?_
    rwa [List.append_nil]
  | @cons entry entry' records records' first _ ih =>
    obtain ⟨id, value⟩ := entry
    obtain ⟨id', search⟩ := entry'
    obtain ⟨same, here⟩ := first
    dsimp only at same here
    subst same
    rcases dictGet_viewed viewed id' with ⟨absent, none'⟩ | ⟨document, record, present, present', own⟩
    · have failed : rawGetIn rt.tcl catalog [chars "documents", id'] = .error (dictKeyUnknown id') := by
        rw [rawGetIn_entries readDocuments, absent]
        rfl
      have stops : docsSearchItem rt catalog filter normalized found (id', value) = .error (dictKeyUnknown id') :=
        Except.bind_of_error failed _
      rw [docsMatches, none', foldOf, Except.bind_of_error stops]
      exact .error _
    · have hasText : rawGetIn rt.tcl catalog [chars "documents", id'] = .ok document := by
        rw [rawGetIn_entries readDocuments, present]
        rfl
      obtain ⟨more, step, matched⟩ := docsSearchItem_view filter normalized found here own hasText
      rw [docsMatches, present', foldOf, Except.bind_of_ok step]
      have both : List.Forall₂ (MatchView rt) (found ++ more) (found' ++ _) := List.rel_append so matched
      refine .after (ih both) fun all items related => ?_
      refine .ok ?_
      split_ifs with passes
      · rwa [if_pos passes, List.append_assoc] at related
      · rwa [if_neg passes, List.append_nil] at related

/-- `docs search` finds in a pack what it finds in the view of its catalog
and of its index. -/
theorem docsSearchRaw_view {pack : DocsPack} {text : Chars} {index : DocsIndex view}
    (loads : docsLoad rt pack = .ok catalog)
    (views : CatalogView rt catalog view) (searches : docsLoadSearch rt pack = .ok text)
    (indexed : IndexView rt text index)
    (args : List Chars) :
    Alike (PageView (MatchView rt)) (docsSearchRaw rt pack args) (docsSearch rt.tables view index args) := by
  obtain ⟨records, readRecords, all⟩ := indexed
  cases args with
  | nil => exact .error _
  | cons query options =>
    refine .same rfl fun normalized => ?_
    by_cases blank : normalized = []
    · subst blank
      exact .error _
    · have asks : (normalized == []) = false := beq_eq_false_iff_ne.mpr blank
      rw [if_neg blank, asks]
      refine .same (docsFilterOptionsRaw_view loads views options) fun filter =>
        .given loads (.given searches (.given readRecords ?_))
      refine .bind (.after (docsSearchItems_view views all .nil) fun raws items related => .ok ?_)
        fun raws items sorted =>
        .ok (docsPage_viewed sorted _ _)
      refine forall₂_mergeSort (fun a a' b b' same same' => ?_) related
      rw [docsSearchLe, same.score, same'.score, same.summary.id, same'.summary.id]

/-- What a pack holds, as the files that `docs get` reads. -/
def DocsPack.files (pack : DocsPack) (sha256 : Bytes → Option Chars) : DocsFiles where
  join := docsJoin pack.root
  isFile path := (pack.file path).isSome
  readUtf8 path := ((pack.file path).map PackFile.text).getD (.error [])
  sha256 := sha256

structure TextView (rt : DocsRuntime) (raw : RawText) (text : DocsText) : Prop where
  id : raw.id = text.id
  requestedId : raw.requestedId = text.requestedId
  product : raw.product = text.product
  version : raw.version = text.version
  type : raw.type = text.type
  title : raw.title = text.title
  summary : raw.summary = text.summary
  names : rt.tcl.words raw.names = .ok text.names
  format : raw.format = text.format
  sectionName : raw.sectionName = text.sectionName
  path : raw.path = text.path
  sha256 : raw.sha256 = text.sha256
  bytes : charsValue raw.bytes = text.bytes
  page : raw.page = text.page

theorem docsLoad_root {pack : DocsPack} (loads : docsLoad rt pack = .ok catalog) : docsRoot pack = .ok () := by
  obtain ⟨_, root, -⟩ := Except.bind_ok.mp loads
  exact root

variable {representation : DocFormat}

theorem docsIntegrity_view (views : FormatView rt value representation) (text : Chars) :
    anyOf [.ok (rt.sha256 text).isNone,
      do return (text.flatMap Utf8.encode).length != charsValue (← rt.get value "bytes"),
        do return text.length != charsValue (← rt.get value "characters"),
        do return (rt.sha256 text).getD [] != (← rt.get value "sha256")] =
      .ok (!decide (rt.sha256 text = some representation.sha256 ∧ (text.flatMap Utf8.encode).length =
        representation.bytes ∧
        text.length = representation.characters)) := by
  obtain ⟨bytes, hasBytes, bytesCount⟩ := views.bytes
  obtain ⟨characters, hasCharacters, charactersCount⟩ := views.characters
  rw [hasBytes, hasCharacters, views.sha256, ← bytesCount, ← charactersCount]
  refine (anyOf_ok [_, _, _, _]).trans (congrArg Except.ok (Bool.eq_iff_iff.mpr ?_))
  simp only [List.any_cons, List.any_nil, id, Bool.or_false, Bool.or_eq_true, bne_iff_ne, Bool.not_eq_true',
    decide_eq_false_iff_not,
    not_and_or]
  cases rt.sha256 text with
  | none => exact iff_of_true (.inl rfl) (.inl nofun)
  | some hash =>
    rw [Option.isNone_some, Option.getD_some, Option.some_inj]
    tauto

variable {sha256 : Bytes → Option Chars}

theorem docsGetWholeRaw_view {pack : DocsPack} (root : docsRoot pack = .ok ())
    (hashes : ∀ text, rt.sha256 text = sha256 (text.flatMap Utf8.encode))
    (views : FormatView rt value representation)
    (canonical format : Chars) :
    docsGetWholeRaw rt pack canonical format value = docsGetWhole
      (pack.files sha256) canonical format representation := by
  unfold docsGetWholeRaw docsGetWhole
  refine (Except.bind_of_ok views.path _).trans ?_
  refine congrArg _ (funext fun path => (Except.bind_of_ok root _).trans ?_)
  have isFile : (pack.files sha256).isFile path = (pack.file path).isSome := rfl
  rw [isFile]
  cases found : pack.file path with
  | none => rfl
  | some file =>
    have read : (pack.files sha256).readUtf8 path = file.text :=
      congrArg (fun file => (Option.map PackFile.text file).getD (.error [])) found
    rw [Option.isSome_some, if_pos rfl, read]
    unfold docsReadUtf8
    dsimp only
    cases file.text with
    | error message =>
      refine (Except.bind_of_error rfl _).trans (congrArg
        (fun text => Except.error (corrupt (ascii "docs: cannot read embedded " ++ text))) ?_)
      simp only [List.append_assoc]
    | ok text =>
      refine (Except.bind_of_ok (a := text) rfl _).trans ?_
      rw [docsIntegrity_view views text]
      refine refuse_bind.trans ?_
      simp only [hashes text, Bool.not_eq_true', decide_eq_false_iff_not, ite_not]
      rfl

theorem docsGetSliceRaw_view {recordText : Chars} (own : RecordView rt recordText record)
    (views : FormatView rt value representation)
    (canonical format sectionName text : Chars) :
    docsGetSliceRaw rt canonical format sectionName recordText value text =
      docsGetSlice canonical format sectionName record representation text := by
  obtain ⟨ranges, readRanges, viewed⟩ := views.sections
  unfold docsGetSliceRaw docsGetSlice
  refine if_congr Iff.rfl rfl ?_
  have known : rawExists rt.tcl recordText [chars "sections", sectionName] =
    !(dictGet sectionName record.sections).isNone := by
    cases present : dictGet sectionName record.sections with
    | none =>
      exact Bool.eq_false_iff.mpr fun bad => dictGet_eq_none_iff.mp present
        ((rawExists_entries own.sections _).mp bad)
    | some slug =>
      refine (rawExists_entries own.sections _).mpr (not_not.mp fun absent => ?_)
      rw [dictGet_eq_none_iff.mpr absent] at present
      cases present
  rw [known, Bool.not_not]
  refine refuse_bind.trans (if_congr Iff.rfl rfl ?_)
  rcases lookup_viewed readRanges viewed sectionName with ⟨absent, none'⟩ | ⟨rangeText, range,
    hasRange, found, bounds⟩
  · rw [absent, none']
    rfl
  · obtain ⟨start, hasStart, startCount⟩ := bounds.start
    obtain ⟨stop, hasStop, stopCount⟩ := bounds.stop
    rw [rawExists_iff.mpr ⟨rangeText, hasRange⟩, found]
    dsimp only
    rw [← startCount, ← stopCount]
    refine (Except.bind_of_ok (a := ()) rfl _).trans ((Except.bind_of_ok hasRange _).trans
      ((Except.bind_of_ok hasStart _).trans
      ((Except.bind_of_ok hasStop _).trans (refuse_bind.trans (if_congr ?_ rfl rfl)))))
    rw [Bool.or_eq_true, decide_eq_true_iff, decide_eq_true_iff]

/-- `docs get` gives of a pack what it gives of the view of its catalog and
of its files. -/
theorem docsGetRaw_view {pack : DocsPack} (loads : docsLoad rt pack = .ok catalog)
    (views : CatalogView rt catalog view)
    (hashes : ∀ text, rt.sha256 text = sha256 (text.flatMap Utf8.encode)) (args : List Chars) :
    Alike (TextView rt) (docsGetRaw rt pack args) (docsGet rt.tables view (pack.files sha256) args) := by
  obtain ⟨documents, readDocuments, viewed⟩ := views.documents
  cases args with
  | nil => exact .error _
  | cons id options =>
    refine .same rfl fun o => .given loads ?_
    unfold docsGetFound
    refine .assoc (.same (docsResolveRaw_view views id) fun target => ?_)
    refine .assoc (.same rfl fun sectionName => ?_)
    rcases dictGet_viewed viewed target.1 with ⟨absent, none'⟩ | ⟨recordText, record, present, present', own⟩
    · rw [rawGetIn_entries readDocuments, absent, none']
      exact .error _
    · rw [rawGetIn_entries readDocuments, present, present']
      obtain ⟨formats, readFormats, viewedFormats⟩ := own.formats
      refine .given (a := recordText) rfl ?_
      rcases lookup_viewed readFormats viewedFormats o.format with ⟨missing, none'⟩ | ⟨value, representation,
        hasFormat, found, facts⟩
      · dsimp only
        rw [missing, none']
        exact .error _
      · dsimp only
        rw [rawExists_iff.mpr ⟨value, hasFormat⟩, found]
        obtain ⟨names, hasNames, words⟩ := own.names
        obtain ⟨bytes, hasBytes, count⟩ := facts.bytes
        refine .given (a := ()) rfl (.given hasFormat
          (.assoc (.same (docsGetWholeRaw_view (docsLoad_root loads) hashes facts _ _)
          fun whole => .assoc (.same (docsGetSliceRaw_view own facts _ _ _ _) fun text => ?_))))
        refine .given own.product (.given own.version
          (.given own.type (.given own.title (.given own.summary (.given hasNames ?_)))))
        refine .given facts.path (.given facts.sha256 (.given hasBytes ?_))
        exact .ok ⟨rfl, rfl, rfl, rfl, rfl, rfl, rfl, words, rfl, rfl, rfl, rfl, count, rfl⟩

/-- What `DocsLoadSearch` returns has a view beside that of the catalog. -/
theorem docsLoadSearch_view {pack : DocsPack} {text : Chars} {entries : CatalogEntries}
    (loads : docsLoad rt pack = .ok catalog)
    (loaded : LoadedCatalog rt catalog entries) (views : CatalogView rt catalog view)
    (searches : docsLoadSearch rt pack = .ok text) :
    ∃ index : DocsIndex view, IndexView rt text index := by
  obtain ⟨records, read, same, all⟩ := (docsLoadSearch_ends loads loaded).result searches
  obtain ⟨documents, readDocuments, viewed⟩ := views.documents
  obtain rfl := Except.ok.inj (loaded.documents.symm.trans readDocuments)
  obtain ⟨records', indexed⟩ := forall₂_of_exists fun record member => (all record member).view
  exact ⟨⟨records', indexed.length_eq.symm.trans (same.trans viewed.length_eq)⟩, records, read, indexed⟩

/-- Where a pack loads, its catalog has a view, and so has its search index
where that loads; on these `docs list`, `docs get`, `docs search` and the
resolution of ids give what they give on the pack: the same error, or the
same answer with its texts read as lists and dicts. -/
theorem docsCommands_view {pack : DocsPack} (loads : docsLoad rt pack = .ok catalog)
    (hashes : ∀ text, rt.sha256 text = sha256 (text.flatMap Utf8.encode)) :
    ∃ view, CatalogView rt catalog view ∧
      (∀ id, docsResolveRaw rt catalog id = docsResolve rt.tables view id) ∧
      (∀ args, Alike (PageView (SummaryView rt)) (docsListRaw rt pack args) (docsList rt.tables view args)) ∧
      (∀ args, Alike (TextView rt) (docsGetRaw rt pack args) (docsGet rt.tables view (pack.files sha256) args)) ∧
      ∀ text, docsLoadSearch rt pack = .ok text → ∃ index : DocsIndex view, IndexView rt text index ∧
        ∀ args, Alike (PageView (MatchView rt)) (docsSearchRaw rt pack args)
          (docsSearch rt.tables view index args) := by
  obtain ⟨entries, loaded⟩ := (docsLoad_ends rt pack).result loads
  obtain ⟨view, views⟩ := loaded.view
  refine ⟨view, views, docsResolveRaw_view views, docsListRaw_view loads views,
    docsGetRaw_view loads views hashes, ?_⟩
  intro text searches
  obtain ⟨index, indexed⟩ := docsLoadSearch_view loads loaded views searches
  exact ⟨index, indexed, docsSearchRaw_view loads views searches indexed⟩

end

/-- The SHA-256 of the texts of an example. -/
def servedHash (bytes : Bytes) : Option Chars :=
  if bytes = ascii "One" then some (chars "8b12507783d5becacbf2ebe5b01a60024d8728a8f86dcc818bce699e8b3320bc")
  else if bytes = ascii "Two" then some (chars "94a72c074cfe574742c9e99e863322f73feff82981d065ff65a0308f44f19f62")
  else none

def servedRuntime : DocsRuntime := { plainRuntime with sha256 := fun text => servedHash (text.flatMap Utf8.encode) }

def servedRecord (body : String) (priority : String) (shown : String) : Chars :=
  pairText [("aliases", chars "name"), ("body", chars body), ("display_snippets", pairText [("one", chars shown)]),
    ("priority", chars priority), ("snippets", pairText [("one", chars body)]), ("summary", chars "summary"),
    ("title", chars "title")]

def servedIndex : Chars :=
  pairText [("documents", pairText [("machteld/index", servedRecord "first words" "220" "First words"),
      ("machteld/command/b", servedRecord "second words" "400" "Second words")]),
    ("normalization", chars "unicode-lower-whitespace-v1"), ("schema", chars "1")]

def servedIndexHash : Chars := chars "c53729eeebd252a0ce739242984c7a3b8b327edf416e91fb5fe3ad68c2c95973"

/-- A catalog with two documents and the identity of its search index. -/
def servedCatalog : Chars :=
  let hash := (servedHash (ascii "One")).getD []
  let hash' := (servedHash (ascii "Two")).getD []
  pairText [("aliases", pairText [("b", chars "machteld/command/b")]), ("auxiliary", []),
    ("corpus_sha256", emptyHash),
    ("documents", pairText [("machteld/index", sampleRecord "machteld/index" "index" "a.md" hash),
      ("machteld/command/b", sampleRecord "machteld/command/b" "command" "b.md" hash')]),
    ("fragments", pairText [("machteld/index#one", pairText [("id", chars "machteld/index"),
      ("section", chars "one")])]),
    ("generator", chars "reference"),
      ("inventory", pairText [("a.md", sampleFile hash), ("b.md", sampleFile hash')]),
    ("machteld_version", chars "1.0"), ("products", pairText [("machteld", sampleProduct "1.0" "2"),
      ("tcl", sampleProduct "9.0.4" "0"), ("tk", sampleProduct "9.0.3" "0")]), ("schema", chars "1"),
    ("search", pairText [("bytes", chars "401"), ("path", chars "search.dict"), ("sha256", servedIndexHash)])]

def servedPack : DocsPack where
  mount := .mounted
  root := chars "//zipfs:/app/reference"
  file path :=
    if path = chars "//zipfs:/app/reference/catalog.dict" then some ⟨some 2000, .ok servedCatalog, none⟩
    else if path = chars "//zipfs:/app/reference/search.dict" then some
      ⟨some 401, .ok servedIndex, some servedIndexHash⟩
    else if path = chars "//zipfs:/app/reference/a.md" then some ⟨some 3, .ok (chars "One"), none⟩
    else if path = chars "//zipfs:/app/reference/b.md" then some ⟨some 3, .ok (chars "Two"), none⟩
    else none
  tree := []

/-- What the pack gives, evaluated at once, as each of these loads it again. -/
theorem served_loads : (docsLoad servedRuntime servedPack = .ok servedCatalog ∧
    docsLoadSearch servedRuntime servedPack = .ok servedIndex) ∧
    ((servedRuntime.entries servedCatalog "documents").toOption.map fun documents => documents.map Prod.fst) =
      some [chars "machteld/index", chars "machteld/command/b"] ∧
    (docsListRaw servedRuntime servedPack []).toOption.map DocsPage.limit = some 50 ∧
    (docsGetRaw servedRuntime servedPack [chars "b#one"]).toOption.map (fun text => text.page.items) =
      some (chars "Tw") ∧
    (docsSearchRaw servedRuntime servedPack [chars "words"]).toOption.map DocsPage.limit = some 50 := by
  decide +kernel

/-- Two documents are listed and searched, and a section behind an alias is
read. -/
theorem docsCommands_view_sample : ∃ view : DocsCatalog, CatalogView servedRuntime servedCatalog view ∧
    view.documents.map Prod.fst = [chars "machteld/index", chars "machteld/command/b"] ∧
    (∃ page, docsList asciiTables view [] = .ok page ∧ page.limit = 50) ∧
    (∃ text, docsGet asciiTables view (servedPack.files servedHash) [chars "b#one"] = .ok text ∧
      text.page.items = chars "Tw") ∧
    ∃ (index : DocsIndex view) (page : DocsPage DocsMatch),
      docsSearch asciiTables view index [chars "words"] = .ok page ∧ page.limit = 50 := by
  have hashes : ∀ text, servedRuntime.sha256 text = servedHash (text.flatMap Utf8.encode) := fun _ => rfl
  obtain ⟨⟨loads, loadsSearch⟩, known, listed, got, found⟩ := served_loads
  obtain ⟨view, views, -, lists, gets, searches⟩ := docsCommands_view loads hashes
  obtain ⟨index, -, finds⟩ := searches servedIndex loadsSearch
  obtain ⟨documents, readDocuments, viewed⟩ := views.documents
  refine ⟨view, views, ?_, ?_, ?_, index, ?_⟩
  · rw [readDocuments] at known
    exact (forall₂_map_eq viewed fun _ _ views => views.1.symm).symm.trans (Option.some.inj known)
  · obtain ⟨raw, page, same, related, limit⟩ := (lists []).shows listed
    exact ⟨page, same, related.limit.symm.trans limit⟩
  · obtain ⟨raw, text, same, related, items⟩ := (gets [chars "b#one"]).shows got
    exact ⟨text, same, related.page ▸ items⟩
  · obtain ⟨raw, page, same, related, limit⟩ := (finds [chars "words"]).shows found
    exact ⟨page, same, related.limit.symm.trans limit⟩

end Machteld
