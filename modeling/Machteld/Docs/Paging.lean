import Machteld.Docs.Get
import Machteld.Docs.Search

namespace Machteld

/-- The options of a call that asks for a page. -/
def pageArgs (offset limit : Nat) : List Chars :=
  [chars "-offset", numberChars offset, chars "-limit", numberChars limit]

/-- The defaults with the options of a page. -/
def pageOptions (offset limit : Nat) (defaults : List (Chars × Chars)) : List (Chars × Chars) :=
  dictPut (chars "limit") (numberChars limit) (dictPut (chars "offset") (numberChars offset) defaults)

/-- Options that take a page, and no other one of the same name. -/
structure TakesPage (allowed : List Chars) : Prop where
  offset : allowed.contains (chars "-offset") = true
  limit : allowed.contains (chars "-limit") = true
  apart : ∀ option ∈ allowed, option ∉ [chars "-offset", chars "-limit"] → option.drop 1 ≠ chars "offset" ∧
    option.drop 1 ≠ chars "limit"

theorem filterAllowed_page : TakesPage filterAllowed := ⟨by decide, by decide, by decide⟩

theorem getAllowed_page : TakesPage getAllowed := ⟨by decide, by decide, by decide⟩

variable {allowed args : List Chars} {defaults pairs : List (Chars × Chars)} {offset limit : Nat}

theorem docsOptions_page (takes : TakesPage allowed) (offset limit : Nat) :
    docsOptions allowed (pageArgs offset limit ++ args) defaults [] =
      docsOptions allowed args (pageOptions offset limit defaults) [chars "-offset", chars "-limit"] := by
  have second : ¬ ([chars "-offset"].contains (chars "-limit") = true) := by decide
  rw [pageArgs, List.cons_append, List.cons_append, docsOptions, if_pos takes.offset, if_neg (by decide)]
  rw [List.cons_append, List.cons_append, docsOptions, if_pos takes.limit, List.nil_append, if_neg second]
  rfl

/-- Whatever page is asked for, the other options are read the same. -/
theorem docsOptions_pages (takes : TakesPage allowed) {read : List (Chars × Chars) × List Chars}
    (passed : docsOptions allowed (pageArgs offset limit ++ args) defaults [] = .ok read) :
    ∃ pairs, (∀ offset, docsOptions allowed (pageArgs offset limit ++ args) defaults [] =
        .ok (dictPuts pairs (pageOptions offset limit defaults), read.2)) ∧
      ∀ p ∈ pairs, p.1 ≠ chars "offset" ∧ p.1 ≠ chars "limit" := by
  rw [docsOptions_page takes] at passed
  obtain ⟨pairs, reads, named⟩ := docsOptions_read passed
  refine ⟨pairs, fun offset => ?_, ?_⟩
  · rw [docsOptions_page takes]
    exact reads _
  · intro p member
    obtain ⟨option, known, fresh, same⟩ := named p member
    rw [same]
    exact takes.apart option known fresh

theorem optionValue_kept {name : String} {result : List (Chars × Chars)} (absent : ∀ p ∈ pairs, p.1 ≠ chars name) :
    optionValue name (dictPuts pairs result) = optionValue name result := by
  have none' : chars name ∉ pairs.map Prod.fst := by
    intro bad
    obtain ⟨p, member, same⟩ := List.mem_map.mp bad
    exact absent p member same
  rw [optionValue, dictGet_dictPuts, dictValues_absent none']
  rfl

theorem optionValue_offset (named : ∀ p ∈ pairs, p.1 ≠ chars "offset" ∧ p.1 ≠ chars "limit") :
    optionValue "offset" (dictPuts pairs (pageOptions offset limit defaults)) = numberChars offset := by
  rw [optionValue_kept fun p member => (named p member).1, optionValue, pageOptions, dictGet_dictPut,
    if_neg (by decide), dictGet_dictPut,
    if_pos rfl]
  rfl

theorem optionValue_limit (named : ∀ p ∈ pairs, p.1 ≠ chars "offset" ∧ p.1 ≠ chars "limit") :
    optionValue "limit" (dictPuts pairs (pageOptions offset limit defaults)) = numberChars limit := by
  rw [optionValue_kept fun p member => (named p member).2, optionValue, pageOptions, dictGet_dictPut, if_pos rfl]
  rfl

/-- The value of another option does not depend on the page. -/
theorem optionValue_other {name : String} (notOffset : chars "offset" ≠ chars name)
    (notLimit : chars "limit" ≠ chars name)
    (offset offset' : Nat) : optionValue name (dictPuts pairs (pageOptions offset limit defaults)) =
      optionValue name (dictPuts pairs (pageOptions offset' limit defaults)) := by
  simp only [optionValue, dictGet_dictPuts, pageOptions, dictGet_dictPut, if_neg notOffset, if_neg notLimit]

/-- The integers of a page where they were taken once. -/
theorem docsInteger_page {option : String} {maximum n : Nat}
    (passed : docsInteger (numberChars limit) option 1 maximum = .ok n) :
    n = limit ∧ 0 < limit := by
  obtain ⟨same, positive, -⟩ := docsInteger_ok passed
  rw [numberChars_value] at same
  exact ⟨same, by omega⟩

variable {tables : CharTables} {catalog : DocsCatalog}

theorem docsFilterOptions_pages {filter : DocsFilter}
    (first : docsFilterOptions tables catalog (pageArgs 0 limit ++ args) = .ok filter) :
    0 < limit ∧ ∀ offset ≤ 2147483647,
      docsFilterOptions tables catalog (pageArgs offset limit ++ args) =
        .ok { filter with offset := offset, limit := limit } := by
  obtain ⟨options, read, passed⟩ := Except.bind_ok.mp first
  obtain ⟨pairs, reads, named⟩ := docsOptions_pages filterAllowed_page read
  have start : options.1 = dictPuts pairs (pageOptions 0 limit filterDefaults) :=
    congrArg Prod.fst (Except.ok.inj (read.symm.trans (reads 0)))
  rw [start] at passed
  unfold docsFilter at passed
  simp only at passed
  split_ifs at passed with scope type
  obtain ⟨offset, -, passed⟩ := Except.bind_ok.mp passed
  obtain ⟨limit', asked, passed⟩ := Except.bind_ok.mp passed
  rw [optionValue_limit named] at asked
  obtain ⟨rfl, positive⟩ := docsInteger_page asked
  obtain rfl := Except.ok.inj passed
  refine ⟨positive, fun offset' small => ?_⟩
  have offsetRead : docsInteger (numberChars offset') "-offset" 0 2147483647 = .ok offset' :=
    docsInteger_numberChars (Nat.le_refl _) (Nat.zero_le _) small
  have scopeSame := @optionValue_other filterDefaults pairs limit' "scope" (by decide) (by decide) offset' 0
  have typeSame := @optionValue_other filterDefaults pairs limit' "type" (by decide) (by decide) offset' 0
  rw [docsFilterOptions, reads offset']
  change docsFilter tables catalog (dictPuts pairs (pageOptions offset' limit' filterDefaults)) = _
  rw [docsFilter, scopeSame, typeSame, optionValue_offset named, optionValue_limit named, offsetRead, asked]
  simp only
  rw [if_neg scope, if_neg type]
  rfl

/-- The items of `docs list`: the documents that pass, in the order of their
ids. -/
structure DocsListed (catalog : DocsCatalog) (filter : DocsFilter) (items : List DocSummary) : Prop where
  all : items.Perm (((catalog.documents.map Prod.snd).filter filter.passes).map docsSummary)
  ordered : items.Pairwise fun a b => charsLe a.id b.id = true

theorem docsListItems_listed (catalog : DocsCatalog) (filter : DocsFilter) :
    DocsListed catalog filter (docsListItems catalog filter) := by
  refine ⟨List.mergeSort_perm .., List.pairwise_mergeSort ?_ ?_ _⟩
  · exact fun a b c => charsLe_trans
  · exact fun a b => charsLe_total a.id b.id

/-- The items of `docs search`: the matches, the best first, those of a
score in the order of their ids. -/
structure DocsFound (catalog : DocsCatalog) (index : DocsIndex catalog) (filter : DocsFilter) (normalized : Chars)
    (items : List DocsMatch) : Prop where
  all : ∃ found, docsMatches catalog filter.passes normalized index.documents = .ok found ∧ items.Perm found
  ordered : items.Pairwise fun a b => docsSearchLe a b = true

theorem docsSearchItems_found {index : DocsIndex catalog} {filter : DocsFilter} {normalized : Chars}
    {items : List DocsMatch}
    (sorted : docsSearchItems catalog index filter normalized = .ok items) :
    DocsFound catalog index filter normalized items := by
  obtain ⟨found, matches', same⟩ := Except.bind_ok.mp sorted
  obtain rfl := Except.ok.inj same
  refine ⟨⟨found, matches', List.mergeSort_perm ..⟩, List.pairwise_mergeSort ?_ docsSearchLe_total _⟩
  exact fun a b c => docsSearchLe_trans

theorem DocsListed.small {filter : DocsFilter} {items : List DocSummary}
    (listed : DocsListed catalog filter items) :
    items.length ≤ 10000 := by
  rw [listed.all.length_eq, List.length_map]
  have fewer := (@List.filter_sublist _ filter.passes (catalog.documents.map Prod.snd)).length_le
  rw [List.length_map] at fewer
  exact Nat.le_trans fewer catalog.few

theorem docsMatches_fewer {passes : DocRecord → Bool} {normalized : Chars} {documents : List (Chars × SearchRecord)}
    {found : List DocsMatch}
    (matched : docsMatches catalog passes normalized documents = .ok found) : found.length ≤ documents.length := by
  fun_induction docsMatches catalog passes normalized documents generalizing found with
  | case1 =>
    obtain rfl := Except.ok.inj matched
    exact Nat.le_refl _
  | case2 => cases matched
  | case3 id search documents record known ih =>
    obtain ⟨rest, later, same⟩ := Except.bind_ok.mp matched
    obtain rfl := Except.ok.inj same
    have bound := ih later
    have one : (docsMatch normalized search record).toList.length ≤ 1 := by
      cases docsMatch normalized search record <;> simp
    split_ifs
    · rw [List.length_append, List.length_cons]
      omega
    · exact Nat.le_succ_of_le bound

theorem DocsFound.small {index : DocsIndex catalog} {filter : DocsFilter} {normalized : Chars}
    {items : List DocsMatch}
    (found : DocsFound catalog index filter normalized items) : items.length ≤ 10000 := by
  obtain ⟨matches', matched, same⟩ := found.all
  rw [same.length_eq]
  exact (docsMatches_fewer matched).trans (index.same.trans_le catalog.few)

/-- The pages of `docs list`. -/
theorem docsList_pages {filters : List Chars} {first : DocsPage DocSummary}
    (called : docsList tables catalog (pageArgs 0 limit ++ filters) = .ok first) :
    ∃ filter items, docsFilterOptions tables catalog (pageArgs 0 limit ++ filters) = .ok filter ∧
      DocsListed catalog filter items ∧
      PagesThrough (fun offset => docsList tables catalog (pageArgs offset limit ++ filters)) limit items := by
  obtain ⟨filter, read, -⟩ := Except.bind_ok.mp called
  obtain ⟨positive, reads⟩ := docsFilterOptions_pages read
  have listed := docsListItems_listed catalog filter
  have small := listed.small
  refine ⟨filter, _, read, listed, .of_calls positive fun offset inside => ?_⟩
  rw [docsList, reads offset (by omega)]
  rfl

/-- The pages of `docs search`. -/
theorem docsSearch_pages {index : DocsIndex catalog} {query : Chars} {filters : List Chars}
    {first : DocsPage DocsMatch}
    (called : docsSearch tables catalog index (query :: (pageArgs 0 limit ++ filters)) = .ok first) :
    ∃ normalized filter items, docsNormalizeQuery tables query = .ok normalized ∧
      docsFilterOptions tables catalog (pageArgs 0 limit ++ filters) = .ok filter ∧
        DocsFound catalog index filter normalized items ∧
      PagesThrough (fun offset => docsSearch tables catalog index (query :: (pageArgs offset limit ++ filters)))
        limit items := by
  obtain ⟨normalized, spelled, called⟩ := Except.bind_ok.mp called
  split_ifs at called with words
  obtain ⟨filter, read, called⟩ := Except.bind_ok.mp called
  obtain ⟨items, sorted, -⟩ := Except.bind_ok.mp called
  obtain ⟨positive, reads⟩ := docsFilterOptions_pages read
  have found := docsSearchItems_found sorted
  have small := found.small
  refine ⟨normalized, filter, items, spelled, read, found, .of_calls positive fun offset inside => ?_⟩
  have same : docsSearchItems catalog index { filter with offset := offset, limit := limit } normalized =
    .ok items := sorted
  rw [docsSearch, spelled]
  change (if normalized = [] then _ else _) = _
  rw [if_neg words, reads offset (by omega)]
  change (docsSearchItems catalog index { filter with offset := offset, limit := limit } normalized).bind _ = _
  rw [same]
  rfl

theorem docsGetOptions_pages {o : DocsGetOptions}
    (first : docsGetOptions tables (pageArgs 0 limit ++ args) = .ok o) :
    0 < limit ∧ o.all = false ∧ ∀ offset ≤ 2147483647,
      docsGetOptions tables (pageArgs offset limit ++ args) = .ok { o with offset := offset, limit := limit } := by
  obtain ⟨options, read, passed⟩ := Except.bind_ok.mp first
  obtain ⟨pairs, reads, named⟩ := docsOptions_pages getAllowed_page read
  have start : options.1 = dictPuts pairs (pageOptions 0 limit getDefaults) :=
    congrArg Prod.fst (Except.ok.inj (read.symm.trans (reads 0)))
  have supplied : options.2.contains (chars "-offset") = true := by
    rw [docsOptions_page getAllowed_page] at read
    exact List.contains_iff_mem.mpr (docsOptions_supplied read List.mem_cons_self)
  rw [start] at passed
  obtain ⟨all, boolean, passed⟩ := Except.bind_ok.mp passed
  rw [supplied, Bool.true_or, Bool.and_true] at passed
  by_cases whole : all = true
  · rw [if_pos whole] at passed
    cases passed
  rw [if_neg whole] at passed
  obtain ⟨offset, -, passed⟩ := Except.bind_ok.mp passed
  obtain ⟨limit', asked, passed⟩ := Except.bind_ok.mp passed
  simp only at passed
  split_ifs at passed with format
  rw [optionValue_limit named] at asked
  obtain ⟨rfl, positive⟩ := docsInteger_page asked
  obtain rfl := Except.ok.inj passed
  have part : all = false := eq_false_of_ne_true whole
  refine ⟨positive, part, fun offset' small => ?_⟩
  have offsetRead : docsInteger (numberChars offset') "-offset" 0 2147483647 = .ok offset' :=
    docsInteger_numberChars (Nat.le_refl _) (Nat.zero_le _) small
  have allSame := @optionValue_other getDefaults pairs limit' "all" (by decide) (by decide) offset' 0
  have formatSame := @optionValue_other getDefaults pairs limit' "format" (by decide) (by decide) offset' 0
  have sectionSame := @optionValue_other getDefaults pairs limit' "section" (by decide) (by decide) offset' 0
  rw [docsGetOptions, reads offset']
  change docsGetChecked tables (dictPuts pairs (pageOptions offset' limit' getDefaults)) options.2 = _
  rw [docsGetChecked, allSame, formatSame, sectionSame, optionValue_offset named, optionValue_limit named,
    offsetRead, asked, boolean, part]
  exact if_pos format

/-- The text that `docs get` pages: what a file of the document has, or the
part of it that is the section. -/
def DocsTextOf (files : DocsFiles) (format : DocFormat) (sectionName text : Chars) : Prop :=
  ∃ path whole, files.join format.path = .ok path ∧ files.readUtf8 path = .ok whole ∧
    whole.length = format.characters ∧
    (sectionName = [] ∧ text = whole ∨
      ∃ range, dictGet sectionName format.sections = some range ∧ range.start ≤ range.stop ∧
        range.stop ≤ whole.length ∧
        text = (whole.drop range.start).take (range.stop - range.start))

theorem docsGetWhole_ok {files : DocsFiles} {canonical format : Chars} {representation : DocFormat} {whole : Chars}
    (read : docsGetWhole files canonical format representation = .ok whole) :
    ∃ path, files.join representation.path = .ok path ∧ files.readUtf8 path = .ok whole ∧
      whole.length = representation.characters := by
  obtain ⟨path, joined, read⟩ := Except.bind_ok.mp read
  split_ifs at read with file
  cases known : files.readUtf8 path with
  | error message => rw [known] at read; cases read
  | ok text =>
    rw [known] at read
    simp only at read
    split_ifs at read with intact
    obtain rfl := Except.ok.inj read
    exact ⟨path, joined, known, intact.2.2⟩

theorem docsGetSlice_ok {canonical format sectionName : Chars} {record : DocRecord} {representation : DocFormat}
    {whole text : Chars}
    (cut : docsGetSlice canonical format sectionName record representation whole = .ok text) :
    sectionName = [] ∧ text = whole ∨
      ∃ range, dictGet sectionName representation.sections = some range ∧ range.start ≤ range.stop ∧
        range.stop ≤ whole.length ∧
        text = (whole.drop range.start).take (range.stop - range.start) := by
  unfold docsGetSlice at cut
  split_ifs at cut with empty missing
  · exact .inl ⟨empty, (Except.ok.inj cut).symm⟩
  · cases known : dictGet sectionName representation.sections with
    | none => rw [known] at cut; cases cut
    | some range =>
      rw [known] at cut
      simp only at cut
      split_ifs at cut with bad
      obtain rfl := Except.ok.inj cut
      refine .inr ⟨range, rfl, by omega, by omega, ?_⟩
      have stop : ((range.stop : Int) - 1 + 1).toNat = range.stop := by omega
      rw [tclRange, stop, List.drop_take]

/-- What `docs get` finds: a text of a representation of the document. -/
theorem docsGetFound_ok {files : DocsFiles} {id format asked : Chars} {found : (DocsPage Nat → DocsText) × Chars}
    (got : docsGetFound tables catalog files id format asked = .ok found) :
    (∀ page, (found.1 page).page = page) ∧ ∃ target sectionName record representation,
      docsResolve tables catalog id = .ok target ∧ docsGetSection target.2 asked = .ok sectionName ∧
      dictGet target.1 catalog.documents = some record ∧ dictGet format record.formats = some representation ∧
      DocsTextOf files representation sectionName found.2 := by
  obtain ⟨target, resolved, got⟩ := Except.bind_ok.mp got
  obtain ⟨sectionName, chosen, got⟩ := Except.bind_ok.mp got
  cases document : dictGet target.1 catalog.documents with
  | none => rw [document] at got; cases got
  | some record =>
    rw [document] at got
    simp only at got
    cases formatted : dictGet format record.formats with
    | none => rw [formatted] at got; cases got
    | some representation =>
      rw [formatted] at got
      obtain ⟨whole, read, got⟩ := Except.bind_ok.mp got
      obtain ⟨text, cut, got⟩ := Except.bind_ok.mp got
      obtain rfl := Except.ok.inj got
      obtain ⟨path, joined, known, length⟩ := docsGetWhole_ok read
      exact ⟨fun page => rfl, target, sectionName, record, representation, resolved, chosen, document, formatted,
        path, whole, joined, known,
        length, docsGetSlice_ok cut⟩

theorem DocsTextOf.small {files : DocsFiles} {id format sectionName text : Chars} {record : DocRecord}
    {representation : DocFormat}
    (textOf : DocsTextOf files representation sectionName text)
    (document : dictGet id catalog.documents = some record)
    (formatted : dictGet format record.formats = some representation) : text.length ≤ 67108864 := by
  obtain ⟨path, whole, -, -, length, part⟩ := textOf
  have bound := catalog.small _ (mem_of_dictGet document) _ (mem_of_dictGet formatted)
  simp only at bound
  rcases part with ⟨-, rfl⟩ | ⟨range, -, -, -, rfl⟩
  · omega
  · rw [List.length_take, List.length_drop]
    omega

/-- The page of `docs get` is that of its text. -/
theorem docsGetPage_eq {o : DocsGetOptions} (part : o.all = false) (text : Chars) :
    docsGetPage o text = docsPage text o.offset o.limit := by
  rw [docsGetPage, part]
  rfl

/-- The pages of `docs get`. -/
theorem docsGet_pages {files : DocsFiles} {id : Chars} {options : List Chars} {first : DocsText}
    (called : docsGet tables catalog files (id :: (pageArgs 0 limit ++ options)) = .ok first) :
    ∃ o target sectionName record representation text, docsGetOptions tables (pageArgs 0 limit ++ options) = .ok o ∧
      docsResolve tables catalog id = .ok target ∧ docsGetSection target.2 o.sectionName = .ok sectionName ∧
      dictGet target.1 catalog.documents = some record ∧ dictGet o.format record.formats = some representation ∧
      DocsTextOf files representation sectionName text ∧
      PagesThrough (fun offset => (docsGet tables catalog files (id :: (pageArgs offset limit ++ options))).map
        DocsText.page) limit text := by
  obtain ⟨o, read, called⟩ := Except.bind_ok.mp called
  obtain ⟨found, got, -⟩ := Except.bind_ok.mp called
  obtain ⟨positive, part, reads⟩ := docsGetOptions_pages read
  obtain ⟨page, target, sectionName, record, representation, resolved, chosen, document, formatted, textOf⟩ :=
    docsGetFound_ok got
  have small := textOf.small document formatted
  refine ⟨o, target, sectionName, record, representation, found.2, read, resolved, chosen, document,
    formatted, textOf,
    .of_calls positive fun offset inside => ?_⟩
  rw [docsGet, reads offset (by omega)]
  change ((docsGetFound tables catalog files id o.format o.sectionName).bind _).map _ = _
  rw [got]
  have own := @docsGetPage_eq { o with offset := offset, limit := limit } part found.2
  exact congrArg Except.ok ((page _).trans own)

end Machteld
