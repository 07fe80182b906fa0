import Machteld.Docs.Load

namespace Machteld

theorem documented_docsFail {code : String} (known : code ∈ docsCodes) (message : Bytes) :
    Documented (docsFail code message) :=
  ⟨code, known, rfl⟩

theorem documented_corrupt (message : Bytes) : Documented (corrupt message) :=
  documented_docsFail (by decide) message

section

variable {tcl : TclLists} {value key : Chars} {entries : List (Chars × Chars)}

theorem rawGet_entries (read : rawDict tcl value = .ok entries) :
    rawGet tcl value key = (dictGet key entries).elim (.error (dictKeyUnknown key)) .ok := Except.bind_of_ok read _

theorem rawGet_mem (read : rawDict tcl value = .ok entries) (known : key ∈ entries.map Prod.fst) :
    ∃ item, rawGet tcl value key = .ok item ∧ (key, item) ∈ entries := by
  rw [rawGet_entries read]
  cases found : dictGet key entries with
  | none => exact absurd known (dictGet_eq_none_iff.mp found)
  | some item => exact ⟨item, rfl, mem_of_dictGet found⟩

theorem mem_of_rawGet {item : Chars} (read : rawDict tcl value = .ok entries)
    (found : rawGet tcl value key = .ok item) :
    (key, item) ∈ entries := by
  rw [rawGet_entries read] at found
  cases known : dictGet key entries with
  | none =>
    rw [known] at found
    cases found
  | some item' =>
    rw [known] at found
    obtain rfl := Except.ok.inj found
    exact mem_of_dictGet known

/-- `dict exists` tells whether `dict get` finds something. -/
theorem rawExists_iff {keys : List Chars} :
    rawExists tcl value keys = true ↔ ∃ item, rawGetIn tcl value keys = .ok item := by
  induction keys generalizing value with
  | nil => exact ⟨fun _ => ⟨value, rfl⟩, fun _ => rfl⟩
  | cons key keys ih =>
    rw [rawExists, rawGetIn]
    cases rawGet tcl value key with
    | ok item => exact ih
    | error e =>
      constructor
      · intro bad
        cases bad
      · intro found
        obtain ⟨item, bad⟩ := found
        cases bad

theorem rawGetIn_one (tcl : TclLists) (value key : Chars) : rawGetIn tcl value [key] = rawGet tcl value key := by
  rw [rawGetIn]
  cases rawGet tcl value key <;> rfl

theorem rawGetIn_cons {first : Chars} (found : rawGet tcl value key = .ok first) (keys : List Chars) :
    rawGetIn tcl value (key :: keys) = rawGetIn tcl first keys := Except.bind_of_ok found _

/-- The keys behind a place. -/
theorem rawGetIn_under {first : Chars} {keys : List Chars} (found : rawGetIn tcl value keys = .ok first)
    (keys' : List Chars) :
    rawGetIn tcl value (keys ++ keys') = rawGetIn tcl first keys' := by
  induction keys generalizing value with
  | nil =>
    obtain rfl := Except.ok.inj found
    rfl
  | cons key keys ih =>
    obtain ⟨item, got, rest⟩ := Except.bind_ok.mp found
    rw [List.cons_append, rawGetIn_cons got, ih rest]

theorem rawExists_one : rawExists tcl value [key] = true ↔ ∃ item, rawGet tcl value key = .ok item := by
  rw [rawExists_iff, rawGetIn_one]

/-- What `DocsUniqueDict` takes is a dict. -/
theorem docsUniqueDict_entries {place : Bytes} {n : Nat} (unique : docsUniqueDict tcl value place = .ok n) :
    ∃ entries, rawDict tcl value = .ok entries := by
  unfold docsUniqueDict at unique
  cases read : tcl.words value with
  | error e =>
    rw [read] at unique
    cases unique
  | ok words =>
    rw [read] at unique
    dsimp only at unique
    rw [rawDict, Except.bind_of_ok read]
    cases paired : listPairs words with
    | none =>
      rw [paired] at unique
      cases unique
    | some pairs => exact ⟨_, rfl⟩

/-- What passes is a dict. -/
theorem docsUniqueDict_ends (tcl : TclLists) (value : Chars) (place : Bytes) :
    EndsIn (docsUniqueDict tcl value place) Documented fun _ => ∃ entries, rawDict tcl value = .ok entries := by
  cases ran : docsUniqueDict tcl value place with
  | ok n => exact docsUniqueDict_entries ran
  | error e =>
    unfold docsUniqueDict at ran
    split at ran
    · obtain rfl := Except.error.inj ran
      exact documented_corrupt _
    · split at ran
      · obtain rfl := Except.error.inj ran
        exact documented_corrupt _
      · split_ifs at ran
        obtain rfl := Except.error.inj ran
        exact documented_corrupt _

/-- A dict with other keys is refused. -/
theorem keysDiffer_sorted (read : rawDict tcl value = .ok entries) (names : List String) :
    Refutes (keysDiffer tcl value names) Documented (lsort (entries.map Prod.fst) = names.map chars) := by
  rw [keysDiffer, Except.bind_of_ok read]
  exact (Refutes.pure _).mono fun same => (bne_eq_false_iff_eq ..).mp same

theorem sorted_has (read : rawDict tcl value = .ok entries) {names : List String}
    (same : lsort (entries.map Prod.fst) = names.map chars) :
    ∀ name ∈ names, ∃ item, rawGet tcl value (chars name) = .ok item := by
  intro name member
  have known : chars name ∈ lsort (entries.map Prod.fst) := same ▸ List.mem_map_of_mem member
  obtain ⟨item, found, -⟩ := rawGet_mem read (mem_lsort.mp known)
  exact ⟨item, found⟩

theorem sorted_only {names : List String} (same : lsort (entries.map Prod.fst) = names.map chars) :
    ∀ entry ∈ entries, entry.1 ∈ names.map chars := fun _ member =>
      same ▸ mem_lsort.mpr (List.mem_map_of_mem member)

/-- The keys of a dict are some words. -/
theorem keysDiffer_refutes (read : rawDict tcl value = .ok entries) (names : List String) :
    Refutes (keysDiffer tcl value names) Documented (∀ name ∈ names, ∃ item,
      rawGet tcl value (chars name) = .ok item) := by
  exact (keysDiffer_sorted read names).mono (sorted_has read)

end

section

variable {rt : DocsRuntime} {value : Chars} {place : Bytes}

theorem notUnique_refutes :
    Refutes (rt.notUnique value place) Documented (∃ entries, rawDict rt.tcl value = .ok entries) :=
  Refutes.caught.mono fun unique => docsUniqueDict_entries unique.choose_spec

/-- A value that is a dict with some keys. -/
theorem shaped_refutes {names : List String} :
    Refutes (anyOf [rt.notUnique value place, keysDiffer rt.tcl value names]) Documented
    (∀ name ∈ names, ∃ item, rt.get value name = .ok item) := by
  have keys : (∃ entries, rawDict rt.tcl value = .ok entries) →
      Refutes (anyOf [keysDiffer rt.tcl value names]) Documented
        (∀ name ∈ names, ∃ item, rt.get value name = .ok item) := by
    intro unique
    obtain ⟨entries, read⟩ := unique
    exact .last (keysDiffer_refutes read names)
  exact .also notUnique_refutes keys

/-- A value that is a list, and a test of it. -/
theorem words_refutes {test : List Chars → Bool} :
    Refutes (anyOf [caught (rt.tcl.words value), (rt.tcl.words value).bind fun words =>
      .ok (test words)]) Documented
      (∃ words, rt.tcl.words value = .ok words ∧ test words = false) := by
  have read : Refutes (caught (rt.tcl.words value)) Documented (∃ words, rt.tcl.words value = .ok words) := .caught
  have tested : (∃ words, rt.tcl.words value = .ok words) →
      Refutes (anyOf [(rt.tcl.words value).bind fun words => .ok (test words)]) Documented
        (∃ words, rt.tcl.words value = .ok words ∧ test words = false) := by
    intro list
    obtain ⟨words, list⟩ := list
    exact .last (.given list ((Refutes.pure _).mono fun passed => ⟨words, list, passed⟩))
  exact .also read tested

theorem docsValidateHash_ends (value : Chars) (place : Bytes) :
    EndsIn (docsValidateHash value place) Documented fun _ => hexHash value = true :=
  .refuse (.not _) (documented_corrupt _)

/-- A value of an integer field. -/
def CountText (value : Chars) : Prop := canonicalDigits value = true ∧ charsValue value ≤ 2147483647

theorem docsNonnegative_ends (value : Chars) (place : Bytes) :
    EndsIn (docsNonnegative value place) Documented fun _ => CountText value := by
  refine (EndsIn.refuse (Refutes.pure _) (documented_corrupt _)).mono fun _ passed => ?_
  simp only [Bool.or_eq_false_iff, decide_eq_false_iff_not, Bool.not_eq_false'] at passed
  exact ⟨passed.1.2, Nat.not_lt.mp passed.2⟩

theorem DocsRuntime.entries_of {catalog text : Chars} {field : String} {entries : List (Chars × Chars)}
    (found : rt.get catalog field = .ok text)
    (read : rawDict rt.tcl text = .ok entries) : rt.entries catalog field = .ok entries := by
  rw [DocsRuntime.entries, Except.bind_of_ok found, read]

/-- The fields of a catalog, as far as they are tested at first. -/
structure CatalogFields (rt : DocsRuntime) (catalog : Chars) : Prop where
  values : ∀ key ∈ catalogKeys, ∃ text, rt.get catalog key = .ok text
  dicts : ∀ key ∈ catalogDicts, ∃ entries, rt.entries catalog key = .ok entries
  few : ∀ bound ∈ catalogBounds, ∃ entries, rt.entries catalog bound.1 = .ok entries ∧ entries.length ≤ bound.2
  auxiliary : ∃ text words, rt.get catalog "auxiliary" = .ok text ∧ rt.tcl.words text = .ok words

theorem docsLoadDict_ends {catalog : Chars} {key : String} (known : ∃ text, rt.get catalog key = .ok text) :
    EndsIn (docsLoadDict rt catalog key) Documented fun _ => ∃ entries, rt.entries catalog key = .ok entries := by
  obtain ⟨text, found⟩ := known
  refine .given found ((EndsIn.refuse notUnique_refutes (documented_corrupt _)).mono fun _ unique => ?_)
  obtain ⟨entries, read⟩ := unique
  exact ⟨entries, rt.entries_of found read⟩

theorem docsLoadBound_ends {catalog : Chars} {bound : String × Nat}
    (known : ∃ entries, rt.entries catalog bound.1 = .ok entries) :
    EndsIn (docsLoadBound rt catalog bound) Documented fun _ =>
      ∃ entries, rt.entries catalog bound.1 = .ok entries ∧ entries.length ≤ bound.2 := by
  obtain ⟨entries, read⟩ := known
  refine .given read ((EndsIn.refuse (.pure _) (documented_corrupt _)).mono fun _ few => ?_)
  exact ⟨entries, read, Nat.not_lt.mp (of_decide_eq_false few)⟩

/-- A catalog whose head passes has all its fields, as dicts where they
should be; the checks behind it may read them. -/
theorem docsLoadHead_ends (rt : DocsRuntime) (catalog : Chars) :
    EndsIn (docsLoadHead rt catalog) Documented fun _ => CatalogFields rt catalog := by
  unfold docsLoadHead
  refine .bind (docsUniqueDict_ends _ _ _) fun _ unique => ?_
  obtain ⟨entries, read⟩ := unique
  refine .bind (.refuse .caught (documented_corrupt _)) fun _ _ => ?_
  refine .bind (.refuse (keysDiffer_refutes read _) (documented_corrupt _)) fun _ values => ?_
  have value : ∀ key ∈ catalogKeys, ∃ text, rt.get catalog key = .ok text := values
  refine .bind (.each fun key _ => .refuse (.pure _) (documented_corrupt _)) fun _ _ => ?_
  obtain ⟨schema, hasSchema⟩ := value "schema" (by decide)
  refine .given hasSchema (.bind (.refuse (.pure _) (documented_corrupt _)) fun _ _ => ?_)
  obtain ⟨generator, hasGenerator⟩ := value "generator" (by decide)
  refine .given hasGenerator (.bind (.refuse (.pure _) (documented_corrupt _)) fun _ _ => ?_)
  obtain ⟨version, hasVersion⟩ := value "machteld_version" (by decide)
  refine .given hasVersion (.bind (.refuse (.pure _) (documented_corrupt _)) fun _ _ => ?_)
  obtain ⟨corpus, hasCorpus⟩ := value "corpus_sha256" (by decide)
  refine .given hasCorpus (.bind (docsValidateHash_ends _ _) fun _ _ => ?_)
  have inside : catalogDicts ⊆ catalogKeys := by decide
  refine .bind (.each fun key known => docsLoadDict_ends (value key (inside known))) fun _ dicts => ?_
  have bounded : catalogBounds.map Prod.fst ⊆ catalogDicts := by decide
  refine .bind (.each fun bound known => docsLoadBound_ends
    (dicts bound.1 (bounded (List.mem_map_of_mem known)))) fun _ few => ?_
  obtain ⟨auxiliary, hasAuxiliary⟩ := value "auxiliary" (by decide)
  refine .given hasAuxiliary ((EndsIn.refuse words_refutes (documented_corrupt _)).mono fun _ list => ?_)
  obtain ⟨words, list, -⟩ := list
  exact ⟨value, dicts, few, auxiliary, words, hasAuxiliary, list⟩

/-- A field that holds an integer. -/
def HasCount (rt : DocsRuntime) (value : Chars) (field : String) : Prop :=
  ∃ text, rt.get value field = .ok text ∧ CountText text

structure LoadedProduct (rt : DocsRuntime) (entry : Chars × Chars) : Prop where
  version : ∃ text, rt.get entry.2 "version" = .ok text
  documents : HasCount rt entry.2 "documents"
  pages : HasCount rt entry.2 "manual_pages"

theorem docsLoadProduct_ends (rt : DocsRuntime) (entry : Chars × Chars) :
    EndsIn (docsLoadProduct rt entry) Documented fun _ => LoadedProduct rt entry := by
  unfold docsLoadProduct
  refine .bind (.refuse shaped_refutes (documented_corrupt _)) fun _ values => ?_
  obtain ⟨version, hasVersion⟩ := values "version" (by decide)
  refine .given hasVersion (.bind (.refuse (.pure _) (documented_corrupt _)) fun _ _ => ?_)
  obtain ⟨documents, hasDocuments⟩ := values "documents" (by decide)
  refine .given hasDocuments (.bind (docsNonnegative_ends _ _) fun _ documentCount => ?_)
  obtain ⟨pages, hasPages⟩ := values "manual_pages" (by decide)
  refine .given hasPages (.bind (docsNonnegative_ends _ _) fun _ pageCount => ?_)
  refine .bind (.refuse (.pure _) (documented_corrupt _)) fun _ _ => ?_
  refine (EndsIn.refuse (.pure _) (documented_corrupt _)).mono fun _ _ => ?_
  exact ⟨⟨version, hasVersion⟩, ⟨documents, hasDocuments, documentCount⟩, ⟨pages, hasPages, pageCount⟩⟩

def productNames : List Chars := ["machteld", "tcl", "tk"].map chars

theorem DocsRuntime.entries_read {catalog : Chars} {field : String} {entries : List (Chars × Chars)}
    (read : rt.entries catalog field = .ok entries) :
    ∃ text, rt.get catalog field = .ok text ∧ rawDict rt.tcl text = .ok entries := Except.bind_ok.mp read

theorem docsLoadProducts_ends {catalog : Chars} {products : List (Chars × Chars)}
    (read : rt.entries catalog "products" = .ok products) :
    EndsIn (docsLoadProducts rt catalog) Documented fun _ => ∀ entry ∈ products, LoadedProduct rt entry ∧
      entry.1 ∈ productNames := by
  obtain ⟨text, found, entries⟩ := rt.entries_read read
  unfold docsLoadProducts
  refine .given found (.bind (.refuse (keysDiffer_sorted entries _) (documented_corrupt _)) fun _ same =>
    .given entries ?_)
  exact (EndsIn.each fun entry _ => docsLoadProduct_ends rt entry).mono fun _ all entry member =>
    ⟨all entry member, sorted_only same entry member⟩

structure LoadedInventory (rt : DocsRuntime) (entry : Chars × Chars) : Prop where
  safe : docsSafeRelative entry.1 = true
  sha256 : ∃ text, rt.get entry.2 "sha256" = .ok text
  bytes : HasCount rt entry.2 "bytes"

theorem docsLoadInventory_ends {catalog : Chars} {inventory : List (Chars × Chars)}
    (read : rt.entries catalog "inventory" = .ok inventory) :
    EndsIn (docsLoadInventory rt catalog) Documented fun _ => ∀ entry ∈ inventory, LoadedInventory rt entry := by
  have step : ∀ n, ∀ entry : Chars × Chars, EndsIn (docsLoadInventoryEntry rt n entry) Documented fun _ =>
    True ∧ LoadedInventory rt entry := by
    intro n entry
    unfold docsLoadInventoryEntry
    refine .bind (.refuse (.cons (.not _) fun _ => shaped_refutes) (documented_corrupt _)) fun _ checked => ?_
    obtain ⟨safe, values⟩ := checked
    obtain ⟨sha256, hasHash⟩ := values "sha256" (by decide)
    refine .given hasHash (.bind (docsValidateHash_ends _ _) fun _ _ => ?_)
    obtain ⟨bytes, hasBytes⟩ := values "bytes" (by decide)
    refine .given hasBytes (.bind (docsNonnegative_ends _ _) fun _ count => ?_)
    refine .bind (.refuse (.pure _) (documented_corrupt _)) fun _ _ => ?_
    exact ⟨trivial, safe, ⟨sha256, hasHash⟩, bytes, hasBytes, count⟩
  unfold docsLoadInventory
  refine .given read (.bind (.fold (fun _ => True) trivial fun n _ entry _ => step n entry) fun _ all => ?_)
  exact all.2

/-- The range of a section in a representation. -/
structure LoadedRange (rt : DocsRuntime) (entry : Chars × Chars) : Prop where
  start : HasCount rt entry.2 "start"
  stop : HasCount rt entry.2 "end"

structure LoadedFormat (rt : DocsRuntime) (entry : Chars × Chars) : Prop where
  path : ∃ text, rt.get entry.2 "path" = .ok text
  sha256 : ∃ text, rt.get entry.2 "sha256" = .ok text
  bytes : HasCount rt entry.2 "bytes"
  characters : ∃ text, rt.get entry.2 "characters" = .ok text ∧ CountText text ∧ charsValue text ≤ 67108864
  ranges : ∃ ranges, rt.entries entry.2 "sections" = .ok ranges ∧ ∀ range ∈ ranges, LoadedRange rt range

theorem docsLoadRange_ends {id : Bytes} {record facts sections characters : Chars}
    (hasSections : rt.get record "sections" = .ok sections)
    (hasCharacters : rt.get facts "characters" = .ok characters) (prior : Nat) (entry : Chars × Chars) :
    EndsIn (docsLoadRange rt id record facts prior entry) Documented fun _ => LoadedRange rt entry := by
  unfold docsLoadRange
  refine .given hasSections (.bind (.refuse (.cons (.pure _) fun _ => shaped_refutes) (documented_corrupt _))
    fun _ checked => ?_)
  obtain ⟨start, hasStart⟩ := checked.2 "start" (by decide)
  obtain ⟨stop, hasStop⟩ := checked.2 "end" (by decide)
  refine .given hasStart (.given hasStop (.bind (docsNonnegative_ends _ _) fun _ startCount => ?_))
  refine .bind (docsNonnegative_ends _ _) fun _ stopCount => .given hasCharacters ?_
  refine .bind (.refuse (.pure _) (documented_corrupt _)) fun _ _ => ?_
  exact ⟨⟨start, hasStart, startCount⟩, stop, hasStop, stopCount⟩

theorem rawGetIn_two {tcl : TclLists} {value first second key key' : Chars}
    (found : rawGet tcl value key = .ok first)
    (found' : rawGet tcl first key' = .ok second) : rawGetIn tcl value [key, key'] = .ok second := by
  rw [rawGetIn_cons found, rawGetIn_one, found']

theorem docsLoadFormat_ends {catalog : Chars} {inventory : List (Chars × Chars)}
    (declared : rt.entries catalog "inventory" = .ok inventory)
    (loaded : ∀ entry ∈ inventory, LoadedInventory rt entry) {record sections : Chars}
    (hasSections : rt.get record "sections" = .ok sections)
    (id : Bytes) (represented : List Chars) (entry : Chars × Chars) :
    EndsIn (docsLoadFormat rt catalog id record represented entry) Documented fun _ => LoadedFormat rt entry := by
  obtain ⟨text, hasInventory, read⟩ := rt.entries_read declared
  unfold docsLoadFormat
  refine .bind (.refuse (.cons (.pure _) fun _ => shaped_refutes) (documented_corrupt _)) fun _ checked => ?_
  refine .bind (.each fun field _ => .refuse (.pure _) (documented_corrupt _)) fun _ _ => ?_
  obtain ⟨relative, hasPath⟩ := checked.2 "path" (by decide)
  refine .given hasPath (.bind (.refuse (.pure _) (documented_corrupt _)) fun _ _ => ?_)
  obtain ⟨sha256, hasHash⟩ := checked.2 "sha256" (by decide)
  refine .given hasHash (.bind (docsValidateHash_ends _ _) fun _ _ => ?_)
  obtain ⟨bytes, hasBytes⟩ := checked.2 "bytes" (by decide)
  refine .given hasBytes (.bind (docsNonnegative_ends _ _) fun _ byteCount => ?_)
  obtain ⟨characters, hasCharacters⟩ := checked.2 "characters" (by decide)
  refine .given hasCharacters (.bind (docsNonnegative_ends _ _) fun _ characterCount => ?_)
  refine .bind (.refuse (.pure _) (documented_corrupt _)) fun _ small => .given hasInventory ?_
  have agrees : Refutes (anyOf [.ok (!rawExists rt.tcl text [relative]),
      (rawGetIn rt.tcl text [relative, chars "sha256"]).bind fun declared => .ok (declared != sha256),
      (rawGetIn rt.tcl text [relative, chars "bytes"]).bind fun declared =>
        .ok (charsValue declared != charsValue bytes)])
      Documented True := by
    refine .also (.not _) fun present => ?_
    obtain ⟨facts, found⟩ := rawExists_one.mp present
    obtain ⟨-, ⟨declared, hasDeclared⟩, bytes', hasBytes', -⟩ := loaded _ (mem_of_rawGet read found)
    exact .also (.given (rawGetIn_two found hasDeclared) (.pure _)) fun _ =>
      .also (.given (rawGetIn_two found hasBytes') (.pure _)) fun _ => .nil
  refine .bind (.refuse agrees (documented_corrupt _)) fun _ _ => ?_
  obtain ⟨ranges, hasRanges⟩ := checked.2 "sections" (by decide)
  refine .given hasRanges (.bind (.refuse notUnique_refutes (documented_corrupt _)) fun _ unique => ?_)
  obtain ⟨entries, rangesRead⟩ := unique
  have step : ∀ prior, True → ∀ range ∈ entries, EndsIn
    (docsLoadRange rt id record entry.2 prior range) Documented fun _ =>
      True ∧ LoadedRange rt range := fun prior _ range _ =>
    (docsLoadRange_ends hasSections hasCharacters prior range).mono fun _ bounds => ⟨trivial, bounds⟩
  refine .given rangesRead (.bind (.fold (fun _ => True) trivial step) fun _ all => ?_)
  rw [Bool.or_eq_false_iff, decide_eq_false_iff_not, decide_eq_false_iff_not] at small
  exact ⟨⟨relative, hasPath⟩, ⟨sha256, hasHash⟩, ⟨bytes, hasBytes, byteCount⟩,
    ⟨characters, hasCharacters, characterCount, Nat.not_lt.mp small.2⟩,
    entries, rt.entries_of hasRanges rangesRead, all.2⟩

end

end Machteld
