import Machteld.Trim
import Machteld.Docs.Answers

namespace Machteld

def idChar (c : Nat) : Bool := isDigitChar c || decide (0x61 ≤ c) && decide (c ≤ 0x7A) || (chars "._/-").contains c

/-- What Tcl's tables say of a blank, a number sign and the characters of
ids and sections, and that the lower case of a character is trimmed as it
is. -/
structure PlainTables (tables : CharTables) : Prop where
  blank : tables.lower 0x20 = 0x20
  sign : tables.lower 0x23 = 0x23
  letter : tables.alnum 0x23 = false
  id : ∀ c, idChar c = true → tables.trimmed c = false
  slug : ∀ c, tables.alnum c = true → tables.trimmed c = false
  keeps : ∀ c, tables.trimmed (tables.lower c) = tables.trimmed c

theorem asciiTables_trimmed {c : Nat} (high : 0x20 < c) : asciiTables.trimmed c = false := by
  simp only [asciiTables, Bool.or_eq_false_iff, Bool.and_eq_false_iff, beq_eq_false_iff_ne, decide_eq_false_iff_not]
  omega

theorem idChar_high {c : Nat} (kept : idChar c = true) : 0x20 < c := by
  simp only [idChar, isDigitChar, Bool.or_eq_true, Bool.and_eq_true, decide_eq_true_eq,
    List.contains_iff_mem] at kept
  rcases kept with (digit | letter) | mark
  · omega
  · omega
  · have marks : ∀ c ∈ chars "._/-", 0x20 < c := by decide
    exact marks c mark

theorem asciiTables_plain : PlainTables asciiTables where
  blank := rfl
  sign := rfl
  letter := rfl
  id _ kept := asciiTables_trimmed (idChar_high kept)
  slug c kept := by
    refine asciiTables_trimmed ?_
    rcases Bool.or_eq_true_iff.mp kept with digit | letter
    · simp only [isDigitChar, Bool.and_eq_true, decide_eq_true_eq] at digit
      omega
    · rw [isAlphaChar, Bool.and_eq_true, decide_eq_true_eq, decide_eq_true_eq, asciiLowerChar] at letter
      split_ifs at letter <;> omega
  keeps c := by
    change asciiTables.trimmed (asciiLowerChar c) = asciiTables.trimmed c
    rw [asciiLowerChar]
    split_ifs with upper
    · rw [asciiTables_trimmed (by omega), asciiTables_trimmed (by omega)]
    · rfl

/-- A request that spells another one with other letter case and white space
around it. -/
def Respells (tables : CharTables) (request core : Chars) : Prop :=
  ∃ left middle right, (∀ c ∈ left, tables.trimmed c = true) ∧ (∀ c ∈ right, tables.trimmed c = true) ∧
    request = left ++ (middle ++ right) ∧ tables.toLower middle = tables.toLower core

/-- The same result, or errors with the same code: their messages quote the
request. -/
def SameAnswer (x y : Except TclError (Chars × Chars)) : Prop :=
  (∃ target, x = .ok target ∧ y = .ok target) ∨ ∃ e e', x = .error e ∧ y = .error e' ∧ e.errorcode = e'.errorcode

/-- What identifies something in a catalog resolves to it. -/
structure Resolves (rt : DocsRuntime) (catalog : Chars) : Prop where
  document : ∀ id, rawExists rt.tcl catalog [chars "documents", id] = true → id.length ≤ 32767 →
    docsResolveRaw rt catalog id = .ok (id, [])
  fragment : ∀ key, rawExists rt.tcl catalog [chars "fragments", key] = true →
    ∃ id slug, rawGetIn rt.tcl catalog [chars "fragments", key, chars "id"] = .ok id ∧
      rawGetIn rt.tcl catalog [chars "fragments", key, chars "section"] = .ok slug ∧
        docsResolveRaw rt catalog key = .ok (id, slug)
  alias' : ∀ name, rawExists rt.tcl catalog [chars "aliases", name] = true →
    rawExists rt.tcl catalog [chars "documents", name] = false →
    rawExists rt.tcl catalog [chars "fragments", name] = false → splitFragment name = none →
    ∃ value candidates, rawGetIn rt.tcl catalog [chars "aliases", name] = .ok value ∧
      rt.tcl.words value = .ok candidates ∧
      ((∃ id, candidates = [id] ∧ docsResolveRaw rt catalog name = .ok (id, [])) ∨
        1 < candidates.length ∧ ∃ message, docsResolveRaw rt catalog name = .error (docsFail "ambiguous" message))
  aliasSection : ∀ name value id slug, rawGetIn rt.tcl catalog [chars "aliases", name] = .ok value →
    rt.tcl.words value = .ok [id] →
    rawExists rt.tcl catalog [chars "documents", name] = false → 0x23 ∉ name →
    rawExists rt.tcl catalog [chars "documents", id, chars "sections", slug] = true →
      (name ++ 0x23 :: slug).length ≤ 32767 →
    docsResolveRaw rt catalog (name ++ 0x23 :: slug) = .ok (id, slug)
  respelled : ∀ request core, Respells rt.tables request core → request.length ≤ 32767 → core.length ≤ 32767 →
    SameAnswer (docsResolveRaw rt catalog request) (docsResolveRaw rt catalog core)

section

variable {rt : DocsRuntime} {catalog : Chars} {entries : CatalogEntries}

/-- A request that is its own key. -/
theorem docsResolveRaw_own {key : Chars} (short : key.length ≤ 32767) (trim : rt.tables.trim key = key)
    (lower : rt.tables.toLower key = key)
    (given : key ≠ []) : docsResolveRaw rt catalog key = docsResolveFrom rt catalog key key :=
  (docsResolveRaw_short short (by rw [trim, lower])).trans (if_neg given)

theorem docsNormalizeAlias_fixed {tables : CharTables} (plain : PlainTables tables) {name : Chars}
    (normal : docsNormalizeAlias tables name = name) : tables.trim name = name ∧ tables.toLower name = name := by
  have lengths : (tables.toLower (tables.trim name)).length = (tables.trim name).length := List.length_map ..
  have runs := replaceRuns_length_le tables.space false (tables.toLower (tables.trim name))
  have whole : (docsNormalizeAlias tables name).length = name.length := congrArg List.length normal
  have trim : tables.trim name = name := CharTables.trim_of_length (by rw [docsNormalizeAlias] at whole; omega)
  have long : (tables.toLower name).length ≤ (replaceRuns tables.space false (tables.toLower name)).length := by
    rw [docsNormalizeAlias, trim] at whole
    rw [trim] at lengths
    omega
  have mapped : (tables.toLower name).map (fun c => if tables.space c then 0x20 else c) = name := by
    rw [← replaceRuns_of_length long]
    rw [docsNormalizeAlias, trim] at normal
    exact normal
  refine ⟨trim, (List.map_eq_map_iff.mpr fun c member => ?_).trans (List.map_id _)⟩
  rw [CharTables.toLower, List.map_map, ← List.map_id name, List.map_map] at mapped
  have own := List.map_eq_map_iff.mp mapped c member
  simp only [Function.comp_apply, id_eq] at own ⊢
  split_ifs at own
  · rw [← own, plain.blank]
  · exact own

theorem canonicalId_chars {id : Chars} (shape : canonicalId id = true) : id ≠ [] ∧ ∀ c ∈ id, idChar c = true := by
  cases id with
  | nil => cases shape
  | cons c id =>
    simp only [canonicalId, List.head?_cons, Option.any_some, List.tail_cons, Bool.and_eq_true,
      List.all_eq_true] at shape
    exact ⟨List.cons_ne_nil _ _, List.forall_mem_cons.mpr ⟨Bool.or_eq_true_iff.mpr (.inl shape.1), shape.2⟩⟩

theorem canonicalSlug_chars {tables : CharTables} {slug : Chars} (shape : canonicalSlug tables slug = true) :
    slug ≠ [] ∧ ∀ c ∈ slug, tables.alnum c = true ∨ c = 0x2D := by
  cases slug with
  | nil => cases shape
  | cons c slug =>
    simp only [canonicalSlug, List.head?_cons, Option.any_some, List.tail_cons, Bool.and_eq_true, List.all_eq_true,
      Bool.or_eq_true,
      beq_iff_eq] at shape
    exact ⟨List.cons_ne_nil _ _, List.forall_mem_cons.mpr ⟨.inl shape.1, shape.2⟩⟩

theorem idChar_sign {id : Chars} (shape : canonicalId id = true) : 0x23 ∉ id := fun bad =>
  absurd ((canonicalId_chars shape).2 _ bad) (by decide)

theorem LoadedCatalog.known_document (loaded : LoadedCatalog rt catalog entries) {id : Chars}
    (found : rawExists rt.tcl catalog [chars "documents", id] = true) :
    ∃ record, rawGetIn rt.tcl catalog [chars "documents", id] = .ok record ∧ LoadedDocument rt (id, record) :=
  loaded.document_of ((rawExists_entries loaded.documents id).mp found)

theorem LoadedCatalog.no_document (loaded : LoadedCatalog rt catalog entries) {key : Chars} (sign : 0x23 ∈ key) :
    rawExists rt.tcl catalog [chars "documents", key] = false := by
  by_contra found
  obtain ⟨record, -, document⟩ := loaded.known_document (Bool.not_eq_false _ ▸ found)
  exact idChar_sign document.shape sign

/-- The section of a document is spelled as `DocsLoad` asks for. -/
theorem LoadedDocument.slug {entry : Chars × Chars} (loaded : LoadedDocument rt entry)
    {sections : List (Chars × Chars)}
    (read : rt.entries entry.2 "sections" = .ok sections) {slug : Chars} (member : slug ∈ sections.map Prod.fst) :
    LoadedSlug rt slug := by
  obtain ⟨sections', read', fits⟩ := loaded.sections
  obtain rfl := Except.ok.inj (read.symm.trans read')
  obtain ⟨heading, inside, rfl⟩ := List.mem_map.mp member
  exact fits heading inside

theorem LoadedSlug.chars (plain : PlainTables rt.tables) {slug : Chars} (loaded : LoadedSlug rt slug) :
    slug ≠ [] ∧ 0x23 ∉ slug ∧ ∀ c ∈ slug, rt.tables.trimmed c = false := by
  obtain ⟨given, kept⟩ := canonicalSlug_chars loaded.shape
  refine ⟨given, fun bad => ?_, fun c member => ?_⟩
  · rcases kept _ bad with letter | dash
    · rw [plain.letter] at letter
      cases letter
    · cases dash
  · rcases kept c member with letter | rfl
    · exact plain.slug c letter
    · exact plain.id 0x2D (by decide)

theorem splitFragment_join {base fragment : Chars} (given : base ≠ []) (given' : fragment ≠ [])
    (sign : 0x23 ∉ base) :
    splitFragment (base ++ 0x23 :: fragment) = some (base, fragment) := by
  have front : ∀ c ∈ base, decide (c ≠ 0x23) = true :=
    fun c member => decide_eq_true fun same => sign (same ▸ member)
  have taken : (base ++ 0x23 :: fragment).takeWhile (· ≠ 0x23) = base := by
    rw [List.takeWhile_append_of_pos front, List.takeWhile_cons_of_neg (by decide), List.append_nil]
  have dropped : (base ++ 0x23 :: fragment).dropWhile (· ≠ 0x23) = 0x23 :: fragment := by
    rw [List.dropWhile_append_of_pos front, List.dropWhile_cons_of_neg (by decide)]
  rw [splitFragment, taken, dropped]
  exact if_pos ⟨given, given'⟩

theorem resolves_document (plain : PlainTables rt.tables) (loaded : LoadedCatalog rt catalog entries) {id : Chars}
    (found : rawExists rt.tcl catalog [chars "documents", id] = true) (short : id.length ≤ 32767) :
    docsResolveRaw rt catalog id = .ok (id, []) := by
  obtain ⟨record, -, document⟩ := loaded.known_document found
  obtain ⟨given, kept⟩ := canonicalId_chars document.shape
  have trim := CharTables.trim_all fun c member => plain.id c (kept c member)
  rw [docsResolveRaw_own short trim document.lower given, docsResolveFrom, if_pos found]

/-- A fragment is looked up as it is spelled. -/
theorem LoadedFragment.key (plain : PlainTables rt.tables) (loaded : LoadedCatalog rt catalog entries)
    {entry : Chars × Chars} {id slug : Chars}
    (fits : LoadedFragment rt entries.documents entry id slug) :
    canonicalId id = true ∧ splitFragment entry.1 = some (id, slug) ∧ rt.tables.trim entry.1 = entry.1 := by
  obtain ⟨record, sections, member, read, inside⟩ := fits.known
  have document := loaded.document _ member
  obtain ⟨given, kept⟩ := canonicalId_chars document.shape
  obtain ⟨given', -, kept'⟩ := (document.slug read inside).chars plain
  rw [fits.spelled]
  refine ⟨document.shape, splitFragment_join given given' (idChar_sign document.shape), ?_⟩
  exact CharTables.trim_between given (fun c first => plain.id c (kept c (List.mem_of_head? first))) given'
    fun c last => kept' c (List.mem_of_getLast? last)

theorem resolves_fragment (plain : PlainTables rt.tables) (loaded : LoadedCatalog rt catalog entries) {key : Chars}
    (found : rawExists rt.tcl catalog [chars "fragments", key] = true) :
    ∃ id slug, rawGetIn rt.tcl catalog [chars "fragments", key, chars "id"] = .ok id ∧
      rawGetIn rt.tcl catalog [chars "fragments", key, chars "section"] = .ok slug ∧
        docsResolveRaw rt catalog key = .ok (id, slug) := by
  obtain ⟨text, hasFragments, read⟩ := rt.entries_read loaded.fragments
  obtain ⟨target, hasTarget, here⟩ := rawGet_mem read ((rawExists_entries loaded.fragments key).mp found)
  obtain ⟨id, slug, fits⟩ := loaded.fragment _ here
  obtain ⟨-, -, trim⟩ := fits.key plain loaded
  have spelled : key = id ++ 0x23 :: slug := fits.spelled
  have sign : 0x23 ∈ key := by
    rw [spelled]
    exact List.mem_append_right _ List.mem_cons_self
  have given : key ≠ [] := List.ne_nil_of_mem sign
  refine ⟨id, slug, rawGetIn_three hasFragments hasTarget fits.hasId,
    rawGetIn_three hasFragments hasTarget fits.hasSlug, ?_⟩
  rw [docsResolveRaw_own fits.short trim fits.lower given, docsResolveFrom,
    if_neg (Bool.eq_false_iff.mp (loaded.no_document sign)), if_pos found]
  exact (Except.bind_of_ok (rawGetIn_two hasFragments hasTarget) _).trans
    ((Except.bind_of_ok fits.hasId _).trans (Except.bind_of_ok fits.hasSlug _))

/-- The alias behind a name. -/
theorem LoadedCatalog.known_alias (loaded : LoadedCatalog rt catalog entries) {name : Chars}
    (found : rawExists rt.tcl catalog [chars "aliases", name] = true) :
    ∃ value candidates, rawGetIn rt.tcl catalog [chars "aliases", name] = .ok value ∧
      LoadedAlias rt entries.documents (name, value) candidates ∧ name ≠ [] ∧ candidates ≠ [] := by
  obtain ⟨text, hasAliases, read⟩ := rt.entries_read loaded.aliases
  obtain ⟨value, hasValue, here⟩ := rawGet_mem read ((rawExists_entries loaded.aliases name).mp found)
  obtain ⟨candidates, fits, given⟩ := loaded.alias' _ here
  exact ⟨value, candidates, rawGetIn_two hasAliases hasValue, fits, given⟩

theorem docsResolveKeyRaw_alias {requested name sectionName value : Chars} {candidates : List Chars}
    (absent : rawExists rt.tcl catalog [chars "documents", name] = false)
    (hasValue : rawGetIn rt.tcl catalog [chars "aliases", name] = .ok value)
    (fits : LoadedAlias rt entries.documents (name, value) candidates) :
    docsResolveKeyRaw rt catalog requested name sectionName = docsResolveOneRaw rt catalog requested sectionName
      (lsort candidates) := by
  have found : rawExists rt.tcl catalog [chars "aliases", docsNormalizeAlias rt.tables name] = true := by
    rw [fits.normal]
    exact rawExists_iff.mpr ⟨value, hasValue⟩
  rw [docsResolveKeyRaw, if_neg (Bool.eq_false_iff.mp absent), if_pos found, fits.normal]
  refine (Except.bind_of_ok hasValue _).trans ((Except.bind_of_ok fits.words _).trans ?_)
  rw [fits.distinct]

theorem docsResolveOneRaw_one {requested sectionName id : Chars}
    (known : sectionName = [] ∨ rawExists rt.tcl catalog [chars "documents", id, chars "sections",
      sectionName] = true) :
    docsResolveOneRaw rt catalog requested sectionName (lsort [id]) = .ok (id, sectionName) := by
  refine if_neg fun bad => ?_
  rcases known with blank | found
  · exact bad.1 blank
  · rw [found] at bad
    cases bad.2

theorem docsResolveOneRaw_several {requested sectionName : Chars} {candidates : List Chars}
    (several : candidates.length ≠ 1) :
    ∃ message, docsResolveOneRaw rt catalog requested sectionName candidates =
      .error (docsFail "ambiguous" message) := by
  unfold docsResolveOneRaw
  split
  · exact absurd rfl several
  · exact ⟨_, rfl⟩

theorem resolves_alias (plain : PlainTables rt.tables) (loaded : LoadedCatalog rt catalog entries) {name : Chars}
    (found : rawExists rt.tcl catalog [chars "aliases", name] = true)
    (noDocument : rawExists rt.tcl catalog [chars "documents", name] = false)
    (noFragment : rawExists rt.tcl catalog [chars "fragments", name] = false) (whole : splitFragment name = none) :
    ∃ value candidates, rawGetIn rt.tcl catalog [chars "aliases", name] = .ok value ∧
      rt.tcl.words value = .ok candidates ∧
      ((∃ id, candidates = [id] ∧ docsResolveRaw rt catalog name = .ok (id, [])) ∨
        1 < candidates.length ∧ ∃ message, docsResolveRaw rt catalog name =
          .error (docsFail "ambiguous" message)) := by
  obtain ⟨value, candidates, hasValue, fits, given, nonempty⟩ := loaded.known_alias found
  obtain ⟨trim, lower⟩ := docsNormalizeAlias_fixed plain fits.normal
  have reached : docsResolveRaw rt catalog name = docsResolveOneRaw rt catalog name [] (lsort candidates) := by
    rw [docsResolveRaw_own (fits.short.trans (by decide)) trim lower given, docsResolveFrom,
      if_neg (Bool.eq_false_iff.mp noDocument),
      if_neg (Bool.eq_false_iff.mp noFragment), whole]
    exact docsResolveKeyRaw_alias noDocument hasValue fits
  refine ⟨value, candidates, hasValue, fits.words, ?_⟩
  rw [reached]
  have length : (lsort candidates).length = candidates.length := List.length_insertionSort _ _
  by_cases single : candidates.length = 1
  · obtain ⟨id, rfl⟩ := List.length_eq_one_iff.mp single
    exact .inl ⟨id, rfl, docsResolveOneRaw_one (.inl rfl)⟩
  · have positive := List.length_pos_of_ne_nil nonempty
    exact .inr ⟨by omega, docsResolveOneRaw_several (by rwa [length])⟩

theorem resolves_aliasSection (plain : PlainTables rt.tables) (loaded : LoadedCatalog rt catalog entries)
    {name value id slug : Chars}
    (hasValue : rawGetIn rt.tcl catalog [chars "aliases", name] = .ok value) (words : rt.tcl.words value = .ok [id])
    (noDocument : rawExists rt.tcl catalog [chars "documents", name] = false) (sign : 0x23 ∉ name)
    (found : rawExists rt.tcl catalog [chars "documents", id, chars "sections", slug] = true)
    (short : (name ++ 0x23 :: slug).length ≤ 32767) :
    docsResolveRaw rt catalog (name ++ 0x23 :: slug) = .ok (id, slug) := by
  obtain ⟨value', candidates, hasValue', fits, given, -⟩ := loaded.known_alias (rawExists_iff.mpr ⟨value, hasValue⟩)
  obtain rfl := Except.ok.inj (hasValue.symm.trans hasValue')
  obtain rfl := Except.ok.inj (words.symm.trans fits.words)
  obtain ⟨trim, lower⟩ := docsNormalizeAlias_fixed plain fits.normal
  obtain ⟨record, hasRecord, document⟩ := loaded.document_of (fits.known id List.mem_cons_self)
  have loadedSlug : LoadedSlug rt slug := by
    obtain ⟨sections, read, -⟩ := document.sections
    obtain ⟨text, hasSections, sectionsRead⟩ := rt.entries_read read
    obtain ⟨heading, hasHeading⟩ := rawExists_iff.mp found
    have under := (rawGetIn_under hasRecord [chars "sections", slug]).symm.trans hasHeading
    rw [rawGetIn_cons hasSections, rawGetIn_one] at under
    exact document.slug read ((rawGet_keys sectionsRead).mp ⟨heading, under⟩)
  obtain ⟨given', -, kept⟩ := loadedSlug.chars plain
  have joined := splitFragment_join given given' sign
  have noFragment : rawExists rt.tcl catalog [chars "fragments", name ++ 0x23 :: slug] = false := by
    refine Bool.eq_false_iff.mpr fun shadowed => ?_
    obtain ⟨text, hasFragments, read⟩ := rt.entries_read loaded.fragments
    obtain ⟨target, -, here⟩ := rawGet_mem read ((rawExists_entries loaded.fragments _).mp shadowed)
    obtain ⟨id', slug', fragment⟩ := loaded.fragment _ here
    obtain ⟨-, split, -⟩ := fragment.key plain loaded
    obtain ⟨rfl, rfl⟩ := Prod.mk.inj (Option.some.inj (joined.symm.trans split))
    obtain ⟨record', sections, member, -⟩ := fragment.known
    rw [(rawExists_entries loaded.documents name).mpr (List.mem_map.mpr ⟨_, member, rfl⟩)] at noDocument
    cases noDocument
  have trimKey := CharTables.trim_between (c := 0x23) given (fun c first => CharTables.trim_head trim first) given'
    fun c last => kept c (List.mem_of_getLast? last)
  have lowerKey : rt.tables.toLower (name ++ 0x23 :: slug) = name ++ 0x23 :: slug := by
    have lowerName : name.map rt.tables.lower = name := lower
    have lowerSlug : slug.map rt.tables.lower = slug := loadedSlug.lower
    rw [CharTables.toLower, List.map_append, List.map_cons, lowerName, plain.sign, lowerSlug]
  have member : 0x23 ∈ name ++ 0x23 :: slug := List.mem_append_right _ List.mem_cons_self
  rw [docsResolveRaw_own short trimKey lowerKey (List.ne_nil_of_mem member), docsResolveFrom,
    if_neg (Bool.eq_false_iff.mp (loaded.no_document member)), if_neg (Bool.eq_false_iff.mp noFragment), joined]
  exact (docsResolveKeyRaw_alias noDocument hasValue fits).trans (docsResolveOneRaw_one (.inr found))

theorem SameAnswer.refl (x : Except TclError (Chars × Chars)) : SameAnswer x x := by
  cases x with
  | ok target => exact .inl ⟨target, rfl, rfl⟩
  | error e => exact .inr ⟨e, e, rfl, rfl, rfl⟩

theorem SameAnswer.fail (code : String) (message message' : Bytes) :
    SameAnswer (.error (docsFail code message)) (.error (docsFail code message')) :=
  .inr ⟨_, _, rfl, rfl, rfl⟩

theorem SameAnswer.bind {α : Type} {x : Except TclError α} {f g : α → Except TclError (Chars × Chars)}
    (same : ∀ a, SameAnswer (f a) (g a)) :
    SameAnswer (x.bind f) (x.bind g) := by
  cases x with
  | ok a => exact same a
  | error e => exact .inr ⟨e, e, rfl, rfl, rfl⟩

/-- What is asked for is only told in errors. -/
theorem docsResolveOneRaw_same (requested requested' sectionName : Chars) (candidates : List Chars) :
    SameAnswer (docsResolveOneRaw rt catalog requested sectionName candidates)
      (docsResolveOneRaw rt catalog requested' sectionName candidates) := by
  unfold docsResolveOneRaw
  split
  · exact .refl _
  · exact .fail ..

theorem docsResolveKeyRaw_same (requested requested' key sectionName : Chars) :
    SameAnswer (docsResolveKeyRaw rt catalog requested key sectionName)
      (docsResolveKeyRaw rt catalog requested' key sectionName) := by
  unfold docsResolveKeyRaw
  split_ifs
  · exact docsResolveOneRaw_same ..
  · exact .bind fun value => .bind fun candidates => docsResolveOneRaw_same ..
  · exact .fail ..

theorem docsResolveFrom_same (requested requested' key : Chars) :
    SameAnswer (docsResolveFrom rt catalog requested key) (docsResolveFrom rt catalog requested' key) := by
  unfold docsResolveFrom
  split_ifs
  · exact .refl _
  · exact .refl _
  · split
    · exact docsResolveKeyRaw_same ..
    · exact docsResolveKeyRaw_same ..

theorem Respells.key {tables : CharTables} (plain : PlainTables tables) {request core : Chars}
    (respells : Respells tables request core) :
    tables.toLower (tables.trim request) = tables.toLower (tables.trim core) := by
  obtain ⟨left, middle, right, before, behind, rfl, same⟩ := respells
  rw [CharTables.trim_pad before behind, CharTables.toLower_trim plain.keeps,
    CharTables.toLower_trim plain.keeps, same]

theorem resolves_respelled (plain : PlainTables rt.tables) {request core : Chars}
    (respells : Respells rt.tables request core)
    (short : request.length ≤ 32767) (short' : core.length ≤ 32767) :
    SameAnswer (docsResolveRaw rt catalog request) (docsResolveRaw rt catalog core) := by
  rw [docsResolveRaw_short short (respells.key plain), docsResolveRaw_short short' rfl]
  split_ifs
  · exact .refl _
  · exact docsResolveFrom_same ..

/-- Every identifier of a catalog that `DocsLoad` accepts resolves. -/
theorem docsLoad_resolves (rt : DocsRuntime) (pack : DocsPack) (plain : PlainTables rt.tables) {catalog : Chars}
    (loads : docsLoad rt pack = .ok catalog) : Resolves rt catalog := by
  obtain ⟨entries, loaded⟩ := (docsLoad_ends rt pack).result loads
  exact {
    document := fun id found short => resolves_document plain loaded found short
    fragment := fun key found => resolves_fragment plain loaded found
    alias' := fun name found noDocument noFragment whole =>
      resolves_alias plain loaded found noDocument noFragment whole
    aliasSection := fun name value id slug hasValue words noDocument sign found short =>
      resolves_aliasSection plain loaded hasValue words noDocument sign found short
    respelled := fun request core respells short short' => resolves_respelled plain respells short short' }

end

/-- A record with the section `one`. -/
def sampleRecord (id type path : String) (hash : Chars) : Chars :=
  pairText [("bytes", chars "3"), ("content_sha256", hash),
    ("formats", pairText [("markdown", pairText [("bytes", chars "3"), ("characters", chars "3"),
      ("path", chars path),
      ("sections", pairText [("one", pairText [("end", chars "2"), ("start", chars "0")])]), ("sha256", hash)])]),
    ("id", chars id), ("names", chars "Name"), ("path", chars path), ("product", chars "machteld"),
      ("raw_path", []),
    ("sections", pairText [("one", chars "One")]), ("source_file", chars "x"), ("source_sha256", []),
      ("summary", chars "Summary"),
    ("title", chars "Title"), ("type", chars type), ("version", chars "1.0")]

def sampleFile (hash : Chars) : Chars := pairText [("bytes", chars "3"), ("sha256", hash)]

def sampleProduct (version : String) (documents : String) : Chars :=
  pairText [("documents", chars documents), ("manual_pages", chars documents), ("version", chars version)]

/-- A catalog with two documents: one of them has an alias that is the id of
the other one, and one with a number sign. -/
def sampleCatalog : Chars :=
  let hash := List.replicate 64 0x61
  let hash' := List.replicate 64 0x62
  pairText [("aliases", pairText [("a#b", chars "machteld/index"), ("b", chars "machteld/command/b"),
      ("machteld/command/b", chars "machteld/index")]), ("auxiliary", []), ("corpus_sha256", emptyHash),
    ("documents", pairText [("machteld/index", sampleRecord "machteld/index" "index" "a.md" hash),
      ("machteld/command/b", sampleRecord "machteld/command/b" "command" "b.md" hash')]),
    ("fragments", pairText [("machteld/index#one", pairText [("id", chars "machteld/index"),
      ("section", chars "one")])]),
    ("generator", chars "reference"),
      ("inventory", pairText [("a.md", sampleFile hash), ("b.md", sampleFile hash')]),
    ("machteld_version", chars "1.0"), ("products", pairText [("machteld", sampleProduct "1.0" "2"),
      ("tcl", sampleProduct "9.0.4" "0"),
      ("tk", sampleProduct "9.0.3" "0")]), ("schema", chars "1"), ("search", [])]

def samplePack : DocsPack where
  mount := .mounted
  root := chars "//zipfs:/app/reference"
  file _ := some ⟨some 2000, .ok sampleCatalog, none⟩
  tree := []

theorem sampleCatalog_loads : docsLoad plainRuntime samplePack = .ok sampleCatalog := by decide +kernel

theorem sampleCatalog_entries :
    rawGetIn braceLists sampleCatalog [chars "aliases", chars "b"] = .ok (chars "machteld/command/b") ∧
    rawGetIn braceLists sampleCatalog [chars "fragments", chars "machteld/index#one", chars "id"] =
      .ok (chars "machteld/index") ∧
    rawGetIn braceLists sampleCatalog [chars "fragments", chars "machteld/index#one", chars "section"] =
      .ok (chars "one") ∧
    rawExists braceLists sampleCatalog [chars "documents", chars "machteld/index"] = true ∧
    rawExists braceLists sampleCatalog [chars "fragments", chars "machteld/index#one"] = true ∧
    rawExists braceLists sampleCatalog [chars "documents", chars "b"] = false ∧
    rawExists braceLists sampleCatalog [chars "documents", chars "machteld/command/b", chars "sections",
      chars "one"] = true := by
  decide +kernel

/-- A document, a fragment, and a section behind an alias. -/
theorem docsLoad_resolves_sample :
    docsResolveRaw plainRuntime sampleCatalog (chars "machteld/index") = .ok (chars "machteld/index", []) ∧
    docsResolveRaw plainRuntime sampleCatalog (chars "machteld/index#one") =
      .ok (chars "machteld/index", chars "one") ∧
    docsResolveRaw plainRuntime sampleCatalog (chars "b#one") = .ok (chars "machteld/command/b", chars "one") := by
  have resolves := docsLoad_resolves plainRuntime samplePack asciiTables_plain sampleCatalog_loads
  obtain ⟨alias', own, section', document, fragment, noDocument, inside⟩ := sampleCatalog_entries
  refine ⟨resolves.document _ document (by decide), ?_, ?_⟩
  · obtain ⟨id, slug, hasId, hasSlug, found⟩ := resolves.fragment _ fragment
    obtain rfl := Except.ok.inj (own.symm.trans hasId)
    obtain rfl := Except.ok.inj (section'.symm.trans hasSlug)
    exact found
  · have single : braceLists.words (chars "machteld/command/b") = .ok [chars "machteld/command/b"] := by
      decide +kernel
    exact resolves.aliasSection (chars "b") _ _ (chars "one") alias' single noDocument
      (by decide) inside (by decide)

theorem Respells.pad {tables : CharTables} {c : Nat} (blank : tables.trimmed c = true) (n : Nat) (core : Chars) :
    Respells tables (List.replicate n c ++ core) core :=
  ⟨List.replicate n c, core, [], fun _ member => List.eq_of_mem_replicate member ▸ blank,
    fun _ bad => absurd bad List.not_mem_nil,
    by rw [List.append_nil], rfl⟩

theorem SameAnswer.not_error {e : TclError} {target : Chars × Chars} : ¬SameAnswer (.error e) (.ok target) := by
  rintro (⟨_, bad, -⟩ | ⟨_, _, -, bad, -⟩) <;> cases bad

/-- What resolves to something else or not at all: a section behind an alias
that is the id of another document, an alias with a number sign in it, and a
request with more blanks than are read. -/
theorem docsResolveRaw_elsewhere :
    docsLoad plainRuntime samplePack = .ok sampleCatalog ∧
    (rawGetIn braceLists sampleCatalog [chars "aliases", chars "machteld/command/b"] =
      .ok (chars "machteld/index") ∧
      rawExists braceLists sampleCatalog [chars "documents", chars "machteld/index", chars "sections",
        chars "one"] = true ∧
      docsResolveRaw plainRuntime sampleCatalog (chars "machteld/command/b#one") =
        .ok (chars "machteld/command/b", chars "one")) ∧
    (rawGetIn braceLists sampleCatalog [chars "aliases", chars "a#b"] = .ok (chars "machteld/index") ∧
      rawExists braceLists sampleCatalog [chars "documents", chars "a#b"] = false ∧
      rawExists braceLists sampleCatalog [chars "fragments", chars "a#b"] = false ∧
      docsResolveRaw plainRuntime sampleCatalog (chars "a#b") =
        .error (docsFail "notfound" (ascii "docs: no document matches \"a#b\""))) ∧
    Respells asciiTables (List.replicate 32767 0x20 ++ chars "b") (chars "b") ∧
    ¬SameAnswer (docsResolveRaw plainRuntime sampleCatalog (List.replicate 32767 0x20 ++ chars "b"))
      (docsResolveRaw plainRuntime sampleCatalog (chars "b")) := by
  have found : docsResolveRaw plainRuntime sampleCatalog (chars "b") = .ok (chars "machteld/command/b", []) := by
    decide +kernel
  have long : 32767 < (List.replicate 32767 0x20 ++ chars "b").length := by
    rw [List.length_append, List.length_replicate]
    decide
  refine ⟨sampleCatalog_loads, and_assoc.mp ⟨by decide +kernel, Respells.pad rfl _ _, ?_⟩⟩
  rw [docsResolveRaw_long long, found]
  exact SameAnswer.not_error

end Machteld
