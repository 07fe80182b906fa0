import Machteld.Docs.Accepted

namespace Machteld

/-- What `DocsTreeFiles` tells of a file. -/
structure PackFacts where
  sha256 : Chars
  bytes : Nat
deriving DecidableEq

/-- `dict get $files $relative` -/
def packFact (files : List (Chars × PackFacts)) (relative : Chars) : Except TclError PackFacts :=
  (dictGet relative files).elim (.error (dictKeyUnknown relative)) .ok

def treePut (files : List (Chars × PackFacts)) (entry : Chars × PackFacts) :
    Except TclError (List (Chars × PackFacts)) := do
  let files := dictPut entry.1 entry.2 files
  refuse (.ok (decide (100000 < files.length))) (corrupt (ascii "docs: reference tree has too many files"))
  return files

def posixError (posix message : Bytes) : TclError := ⟨message, [ascii "POSIX", posix, message]⟩

/-- The path of an item; the ternary of `expr` hands on the name of an item
of the root. -/
def treeChild (rt : DocsRuntime) (relative name : Chars) : Except TclError Chars :=
  if relative = [] then exprResult (rt.exprOf name) else .ok (relative ++ 0x2F :: name)

/-- What `DocsNativeChildren` finds in a directory of the root, and nothing
where there is none of that name. -/
def rootChildren (tree : List (Chars × PackNode)) (name : Chars) : List (Chars × PackNode) :=
  match dictGet name tree with
  | some (.directory children) => children
  | _ => []

/-- `DocsTreeFiles`: `left` is 65 less the depth. It is the name handed on
that is gone into. -/
def docsTreeFiles (rt : DocsRuntime) :
    Nat → Chars → List (Chars × PackNode) → Except TclError (List (Chars × PackFacts))
  | 0, _, _ => .error (corrupt (ascii "docs: reference tree is too deep"))
  | left + 1, relative, children =>
    foldOf (fun files item => (treeChild rt relative item.1).bind fun child =>
      match item.2 with
      | .unknown posix message => .error (posixError posix message)
      | .directory below =>
        let below := if relative = [] ∧ child ≠ item.1 then rootChildren children child else below
        (docsTreeFiles rt left child below).bind (foldOf treePut files)
      | .file (some bytes) (some sha256) => treePut files (child, ⟨sha256, bytes⟩)
      | .file _ _ => .error (docsFail "oserror" (ascii "docs: cannot inspect reference file " ++ tclText child))
      | .special => .error (corrupt (ascii "docs: reference pack contains an unsupported path type"))) [] children

def manifestHeader : Chars := chars "# machteld reference pack v1; SHA-256 consistency manifest (self excluded)"

/-- `^([0-9a-f]{64}) (.+)$` -/
def manifestLine (line : Chars) : Option (Chars × Chars) :=
  if hexHash (line.take 64) ∧ (line.drop 64).take 2 = chars "  " ∧
    line.drop 66 ≠ [] then some (line.drop 66, line.take 64) else none

/-- The loop of `DocsManifest`, with the path before. -/
def docsManifestLine (s : List (Chars × Chars) × Chars) (line : Chars) :
    Except TclError (List (Chars × Chars) × Chars) := do
  let malformed := corrupt (ascii "docs: malformed reference manifest entry")
  let entry ← (manifestLine line).elim (.error malformed) .ok
  refuse (.ok (!docsSafeRelative entry.1 || entry.1 == chars "manifest.sha256" ||
    (dictGet entry.1 s.1).isSome)) malformed
  refuse (.ok (s.2 != [] && charsLe entry.1 s.2))
    (corrupt (ascii "docs: reference manifest is not ordinally sorted"))
  return (dictPut entry.1 entry.2 s.1, entry.1)

/-- `DocsManifest`: the SHA-256 of each declared path. -/
def docsManifest (pack : DocsPack) : Except TclError (List (Chars × Chars)) := do
  docsRoot pack
  match pack.control "manifest.sha256" with
  | none => .error (corrupt (ascii "docs: reference manifest is missing or too large"))
  | some file => do
    refuse (.ok (file.size.all fun size => decide (size = 0) || decide (16777216 < size)))
      (corrupt (ascii "docs: reference manifest is missing or too large"))
    let text ← docsReadUtf8 file (ascii "manifest")
    refuse (.ok (text.contains 0xD || text.getLast? != some 0xA || text.dropLast.getLast? == some 0xA))
      (corrupt (ascii "docs: reference manifest is not canonical LF text"))
    let lines := if text.dropLast = [] then [] else text.dropLast.splitOn 0xA
    refuse (.ok (lines.head? != some manifestHeader || decide (100000 < lines.length)))
      (corrupt (ascii "docs: malformed reference manifest"))
    let manifest ← foldOf docsManifestLine ([], []) lines.tail
    refuse (.ok manifest.1.isEmpty) (corrupt (ascii "docs: reference manifest is empty"))
    return manifest.1

/-- The tree as `DocsPackFiles` takes it: an error that is not of a damaged
tree becomes one. -/
def docsPackTree (rt : DocsRuntime) (pack : DocsPack) : Except TclError (List (Chars × PackFacts)) :=
  match (docsRoot pack).bind fun _ => docsTreeFiles rt 65 [] pack.tree with
  | .ok files => .ok files
  | .error e =>
    if e.errorcode.take 2 = [ascii "MACHTELD", ascii "DOCS"] ∧ e.errorcode.getD 2 [] = ascii "corrupt" then .error e
    else .error (corrupt (ascii "docs: cannot inspect the embedded reference pack"))

def docsPackControl (files : List (Chars × PackFacts)) (manifest : List (Chars × Chars)) (control : String) :
    Except TclError Unit :=
  refuse (.ok ((dictGet (chars control) files).isNone || (dictGet (chars control) manifest).isNone))
    (corrupt (ascii "docs: reference control file " ++ (ascii control ++ ascii " is missing")))

def docsPackDeclared (files : List (Chars × PackFacts)) (entry : Chars × Chars) : Except TclError Unit :=
  refuse (anyOf [do return (← packFact files entry.1).sha256 != entry.2,
      do return decide (268435456 < (← packFact files entry.1).bytes)])
    (corruptFor "docs: manifest hash mismatch for " (tclText entry.1))

def docsPackInventory (rt : DocsRuntime) (files : List (Chars × PackFacts)) (manifest : List (Chars × Chars))
    (entry : Chars × Chars) :
    Except TclError Unit :=
  refuse (anyOf [.ok (dictGet entry.1 manifest).isNone,
      do return (← packFact files entry.1).sha256 != (← rt.get entry.2 "sha256"),
      do return (← packFact files entry.1).bytes != charsValue (← rt.get entry.2 "bytes")])
    (corrupt (ascii "docs: reference inventory file " ++ (tclText entry.1 ++ ascii " failed integrity validation")))

/-- The checks of `DocsPackFiles` up to the one on the search index. -/
def docsPackChecked (rt : DocsRuntime) (pack : DocsPack) (catalog : Chars) :
    Except TclError (List (Chars × PackFacts)) := do
  let files ← docsPackTree rt pack
  let manifest ← docsManifest pack
  eachOf (docsPackControl files manifest) ["catalog.dict", "catalog.json", "search.dict"]
  let declared := manifest.map Prod.fst ++ [chars "manifest.sha256"]
  refuse (.ok (lsort (files.map Prod.fst) != lsort declared))
    (corrupt (ascii "docs: reference pack contains an undeclared or missing file"))
  eachOf (docsPackDeclared files) manifest
  let inventory ← rt.entries catalog "inventory"
  eachOf (docsPackInventory rt files manifest) inventory
  return files

/-- The check of `DocsPackFiles` on the search index. -/
def docsPackSearch (rt : DocsRuntime) (files : List (Chars × PackFacts)) (search : Chars) : Except TclError Unit :=
  refuse (anyOf [do return (← packFact files (chars "search.dict")).sha256 != (← rt.get search "sha256"),
      do return rt.unequal (← packFact files (chars "search.dict")).bytes (← rt.get search "bytes")])
    (corrupt (ascii "docs: search index failed integrity validation"))

/-- `DocsPackFiles` -/
def docsPackFiles (rt : DocsRuntime) (pack : DocsPack) : Except TclError (List (Chars × PackFacts)) := do
  let catalog ← docsLoad rt pack
  let files ← docsPackChecked rt pack catalog
  let search ← rt.get catalog "search"
  docsPackSearch rt files search
  return files

/-- What `docs verify` returns. -/
structure DocsVerified where
  documents : Nat
  files : Nat
  bytes : Nat
  corpusSha256 : Chars

/-- The loop of `DocsVerify` over the inventory, with the input of the
corpus identity so far. -/
def docsVerifyFile (rt : DocsRuntime) (catalog : Chars) (files : List (Chars × PackFacts))
    (input relative : Chars) : Except TclError Chars := do
  let facts ← rawGetIn rt.tcl catalog [chars "inventory", relative]
  refuse (.ok (dictGet relative files).isNone)
    (corrupt (ascii "docs: inventory file " ++ (tclText relative ++ ascii " is absent from the verified pack")))
  let actual ← packFact files relative
  let bytes ← rt.get facts "bytes"
  refuse (.ok (actual.bytes != charsValue bytes)) (corruptFor "docs: byte count mismatch for " (tclText relative))
  let sha256 ← rt.get facts "sha256"
  refuse (.ok (actual.sha256 != sha256)) (corruptFor "docs: hash mismatch for " (tclText relative))
  return input ++ (relative ++ 0 :: (actual.sha256 ++ [0]))

/-- `DocsVerify` -/
def docsVerify (rt : DocsRuntime) (pack : DocsPack) (args : List Chars) : Except TclError DocsVerified := do
  refuse (.ok !args.isEmpty) (docsFail "usage" (ascii "docs: wrong # args: should be \"docs verify\""))
  let catalog ← docsLoad rt pack
  let files ← docsPackFiles rt pack
  let inventory ← rt.entries catalog "inventory"
  let input ← foldOf (docsVerifyFile rt catalog files) [] (lsort (inventory.map Prod.fst))
  match rt.sha256 input with
  | none => .error (corrupt (ascii "docs: cannot recompute the embedded corpus identity"))
  | some corpus => do
    let declared ← rt.get catalog "corpus_sha256"
    refuse (.ok (corpus != declared)) (corrupt (ascii "docs: corpus identity mismatch"))
    let documents ← rt.entries catalog "documents"
    return ⟨documents.length, files.length, files.foldl (fun bytes entry => bytes + entry.2.bytes) 0, corpus⟩

theorem treePut_ends (files : List (Chars × PackFacts)) (entry : Chars × PackFacts) :
    EndsIn (treePut files entry) Documented fun _ => True :=
  .bind (.refuse (.pure _) (documented_corrupt _)) fun _ _ => trivial

/-- The errors of `DocsTreeFiles`: one that is not documented has another
code. -/
def TreeFailure (e : TclError) : Prop := Documented e ∨ e.errorcode.head? ≠ some (ascii "MACHTELD")

theorem docsTreeFiles_ends (rt : DocsRuntime) (left : Nat) (relative : Chars) (children : List (Chars × PackNode)) :
    EndsIn (docsTreeFiles rt left relative children) TreeFailure fun _ => True := by
  have put : ∀ files entry, EndsIn (treePut files entry) TreeFailure fun _ => True := fun files entry =>
    (treePut_ends files entry).weaken fun _ => .inl
  induction left generalizing relative children with
  | zero => exact .inl (documented_corrupt _)
  | succ left ih =>
    refine .foldAny fun files item _ => ?_
    obtain ⟨name, node⟩ := item
    have named : EndsIn (treeChild rt relative name) TreeFailure fun _ => True := by
      have domain : TreeFailure exprDomainError := .inr (by decide)
      unfold treeChild
      split
      · exact EndsIn.mono (.elim domain) fun _ _ => trivial
      · exact trivial
    refine .bind named fun child _ => ?_
    dsimp only
    split
    · exact .inr fun same => absurd (Option.some.inj same) (by decide)
    · exact .bind (ih _ _) fun inner _ => .foldAny fun files entry _ => put files entry
    · exact put _ _
    · exact .inl (documented_docsFail (by decide) _)
    · exact .inl (documented_corrupt _)

/-- An error that is kept is documented. -/
theorem docsPackTree_ends (rt : DocsRuntime) (pack : DocsPack) :
    EndsIn (docsPackTree rt pack) Documented fun _ => True := by
  have ended : EndsIn ((docsRoot pack).bind fun _ => docsTreeFiles rt 65 [] pack.tree) TreeFailure fun _ => True :=
    .bind ((docsRoot_ends pack).weaken fun _ => .inl) fun _ _ => docsTreeFiles_ends _ _ _ _
  unfold docsPackTree
  split
  · exact trivial
  · rename_i e failed
    split_ifs with kept
    · rcases ended.failure failed with documented | other
      · exact documented
      · have front := congrArg List.head? kept.1
        rw [List.head?_take, if_neg (by decide)] at front
        exact absurd front other
    · exact documented_corrupt _

theorem docsManifest_ends (pack : DocsPack) : EndsIn (docsManifest pack) Documented fun _ => True := by
  have step : ∀ s line, EndsIn (docsManifestLine s line) Documented fun _ => True := by
    intro s line
    refine .bind (.elim (documented_corrupt _)) fun entry _ => ?_
    refine .bind (.refuse (.pure _) (documented_corrupt _)) fun _ _ => ?_
    exact .bind (.refuse (.pure _) (documented_corrupt _)) fun _ _ => trivial
  unfold docsManifest
  refine .bind (docsRoot_ends pack) fun _ _ => ?_
  split
  · exact documented_corrupt _
  · refine .bind (.refuse (.pure _) (documented_corrupt _)) fun _ _ =>
      .bind (docsReadUtf8_ends _ _) fun text _ => ?_
    refine .bind (.refuse (.pure _) (documented_corrupt _)) fun _ _ =>
      .bind (.refuse (.pure _) (documented_corrupt _)) fun _ _ => ?_
    refine .bind (.foldAny fun s line _ => step s line) fun manifest _ => ?_
    exact .bind (.refuse (.pure _) (documented_corrupt _)) fun _ _ => trivial

theorem packFact_known {files : List (Chars × PackFacts)} {relative : Chars}
    (known : relative ∈ files.map Prod.fst) :
    ∃ facts, packFact files relative = .ok facts := by
  unfold packFact
  cases found : dictGet relative files with
  | none => exact absurd known (dictGet_eq_none_iff.mp found)
  | some facts => exact ⟨facts, rfl⟩

theorem docsPackDeclared_ends {files : List (Chars × PackFacts)} {entry : Chars × Chars}
    (known : entry.1 ∈ files.map Prod.fst) :
    EndsIn (docsPackDeclared files entry) Documented fun _ => True := by
  obtain ⟨facts, found⟩ := packFact_known known
  exact .refuse (.also (.given found (.pure _)) fun _ => .also (.given found (.pure _)) fun _ => .nil)
    (documented_corrupt _)

section

variable {rt : DocsRuntime} {catalog : Chars} {entries : CatalogEntries} {files : List (Chars × PackFacts)}

theorem docsPackInventory_ends {manifest : List (Chars × Chars)} {entry : Chars × Chars}
    (loaded : LoadedInventory rt entry)
    (declared : ∀ relative ∈ manifest.map Prod.fst, relative ∈ files.map Prod.fst) :
    EndsIn (docsPackInventory rt files manifest entry) Documented fun _ => True := by
  obtain ⟨-, ⟨sha256, hasHash⟩, bytes, hasBytes, -⟩ := loaded
  refine .refuse (.also (.pure _) fun known => ?_) (documented_corrupt _)
  have inside : entry.1 ∈ manifest.map Prod.fst := by
    by_contra absent
    rw [dictGet_eq_none_iff.mpr absent] at known
    cases known
  obtain ⟨facts, found⟩ := packFact_known (declared _ inside)
  exact .also (.given found (.given hasHash (.pure _))) fun _ =>
    .also (.given found (.given hasBytes (.pure _))) fun _ => .nil

/-- The checks before the one on the search index fail as documented, and
leave its file known. -/
theorem docsPackChecked_ends (pack : DocsPack) (loaded : LoadedCatalog rt catalog entries) :
    EndsIn (docsPackChecked rt pack catalog) Documented fun files =>
      ∃ facts, packFact files (chars "search.dict") = .ok facts := by
  unfold docsPackChecked
  refine .bind (docsPackTree_ends rt pack) fun files _ => .bind (docsManifest_ends pack) fun manifest _ => ?_
  refine .bind (.each fun control _ => .refuse (.pure _) (documented_corrupt _)) fun _ controls => ?_
  refine .bind (.refuse (.pure _) (documented_corrupt _)) fun _ same => ?_
  have declared : ∀ relative ∈ manifest.map Prod.fst, relative ∈ files.map Prod.fst := by
    intro relative member
    have sorted := (bne_eq_false_iff_eq ..).mp same
    exact mem_lsort.mp (sorted ▸ mem_lsort.mpr (List.mem_append_left _ member))
  refine .bind (.each fun entry member => docsPackDeclared_ends
    (declared _ (List.mem_map_of_mem member))) fun _ _ => ?_
  refine .given loaded.inventory
    (.bind (.each fun entry member => docsPackInventory_ends (loaded.file entry member) declared) fun _ _ => ?_)
  have present := (Bool.or_eq_false_iff.mp (controls "search.dict" (by decide))).1
  refine packFact_known ?_
  by_contra absent
  rw [dictGet_eq_none_iff.mpr absent] at present
  cases present

/-- The catalog's search field does not tell what the last check of
`DocsPackFiles` reads of it: the hash, and behind the right hash the bytes.
-/
def SearchUntold (rt : DocsRuntime) (search : Chars) (facts : PackFacts) : Prop :=
  rawExists rt.tcl search [chars "sha256"] = false ∨
    rt.get search "sha256" = .ok facts.sha256 ∧ rawExists rt.tcl search [chars "bytes"] = false

/-- A pack that is in order up to the last check of `DocsPackFiles`, but
whose catalog does not tell what this one reads. -/
def PackUntold (rt : DocsRuntime) (pack : DocsPack) : Prop :=
  ∃ catalog files facts search, docsLoad rt pack = .ok catalog ∧ docsPackChecked rt pack catalog = .ok files ∧
    packFact files (chars "search.dict") = .ok facts ∧ rt.get catalog "search" = .ok search ∧
      SearchUntold rt search facts

theorem rawGet_missing {value key : Chars} {pairs : List (Chars × Chars)} (read : rawDict rt.tcl value = .ok pairs)
    (absent : rawExists rt.tcl value [key] = false) : rawGet rt.tcl value key = .error (dictKeyUnknown key) := by
  rw [rawGet_entries read]
  cases found : dictGet key pairs with
  | none => rfl
  | some item =>
    have present : rawExists rt.tcl value [key] = true :=
      rawExists_one.mpr ⟨item, by rw [rawGet_entries read, found]; rfl⟩
    rw [present] at absent
    cases absent

theorem docsPackSearch_ends {search : Chars} {facts : PackFacts}
    (found : packFact files (chars "search.dict") = .ok facts)
    (told : ¬SearchUntold rt search facts) : EndsIn (docsPackSearch rt files search) Documented fun _ => True := by
  rw [SearchUntold, not_or, Bool.not_eq_false, not_and, Bool.not_eq_false] at told
  obtain ⟨sha256, hasHash⟩ := rawExists_one.mp told.1
  refine .refuse (.also (.given found (.given hasHash (.pure _))) fun same => ?_) (documented_corrupt _)
  obtain rfl := (bne_eq_false_iff_eq ..).mp same
  obtain ⟨bytes, hasBytes⟩ := rawExists_one.mp (told.2 hasHash)
  exact .also (.given found (.given hasBytes (.pure _))) fun _ => .nil

theorem docsPackSearch_untold {search : Chars} {pairs : List (Chars × Chars)}
    (read : rawDict rt.tcl search = .ok pairs) {facts : PackFacts}
    (found : packFact files (chars "search.dict") = .ok facts) (untold : SearchUntold rt search facts) :
    ∃ field, docsPackSearch rt files search = .error (dictKeyUnknown field) := by
  rcases untold with absent | ⟨hasHash, absent⟩
  · have missing : rt.get search "sha256" = _ := rawGet_missing read absent
    refine ⟨chars "sha256", Except.bind_of_error (Except.bind_of_error ?_ _) _⟩
    exact (Except.bind_of_ok found _).trans (Except.bind_of_error missing _)
  · have missing : rt.get search "bytes" = _ := rawGet_missing read absent
    refine ⟨chars "bytes", Except.bind_of_error ?_ _⟩
    refine (Except.bind_of_ok ((Except.bind_of_ok found _).trans (Except.bind_of_ok hasHash _)) _).trans ?_
    refine (if_neg (by simp)).trans (Except.bind_of_error ?_ _)
    exact (Except.bind_of_ok found _).trans (Except.bind_of_error missing _)

theorem docsPackFiles_ends {pack : DocsPack} (told : ¬PackUntold rt pack) :
    EndsIn (docsPackFiles rt pack) Documented fun _ => True := by
  unfold docsPackFiles
  refine .bind (docsLoad_ends rt pack).self fun catalog loads => ?_
  obtain ⟨⟨entries, loaded⟩, loads⟩ := loads
  refine .bind (docsPackChecked_ends pack loaded).self fun files checks => ?_
  obtain ⟨⟨facts, found⟩, checks⟩ := checks
  obtain ⟨_, read⟩ := loaded.fields.dicts "search" (by decide)
  obtain ⟨search, hasSearch, -⟩ := rt.entries_read read
  have told : ¬SearchUntold rt search facts := fun bad =>
    told ⟨catalog, files, facts, search, loads, checks, found, hasSearch, bad⟩
  exact .given hasSearch (.bind (docsPackSearch_ends found told) fun _ _ => trivial)

theorem docsPackFiles_failed {pack : DocsPack} {search : Chars} {e : TclError}
    (loads : docsLoad rt pack = .ok catalog)
    (checks : docsPackChecked rt pack catalog = .ok files) (hasSearch : rt.get catalog "search" = .ok search)
    (failed : docsPackSearch rt files search = .error e) : docsPackFiles rt pack = .error e :=
  (Except.bind_of_ok loads _).trans ((Except.bind_of_ok checks _).trans
    ((Except.bind_of_ok hasSearch _).trans (Except.bind_of_error failed _)))

/-- There `DocsPackFiles` fails with an error of `dict get`. -/
theorem docsPackFiles_untold {pack : DocsPack} (untold : PackUntold rt pack) :
    ∃ field, docsPackFiles rt pack = .error (dictKeyUnknown field) := by
  obtain ⟨catalog, files, facts, search, loads, checks, found, hasSearch, untold⟩ := untold
  obtain ⟨entries, loaded⟩ := (docsLoad_ends rt pack).result loads
  obtain ⟨pairs, read⟩ := loaded.fields.dicts "search" (by decide)
  obtain ⟨_, hasSearch', pairsRead⟩ := rt.entries_read read
  obtain rfl := Except.ok.inj (hasSearch.symm.trans hasSearch')
  obtain ⟨field, failed⟩ := docsPackSearch_untold pairsRead found untold
  exact ⟨field, docsPackFiles_failed loads checks hasSearch failed⟩

theorem docsVerify_ends {pack : DocsPack} (told : ¬PackUntold rt pack) (args : List Chars) :
    EndsIn (docsVerify rt pack args) Documented fun _ => True := by
  unfold docsVerify
  refine .bind (.refuse (.pure _) (documented_docsFail (by decide) _)) fun _ _ =>
    .bind (docsLoad_ends rt pack) fun catalog loaded => ?_
  obtain ⟨entries, loaded⟩ := loaded
  refine .bind (docsPackFiles_ends told) fun files _ =>
    .given loaded.inventory (.bind (.foldAny fun input relative member => ?_) fun input _ => ?_)
  · obtain ⟨text, hasInventory, read⟩ := rt.entries_read loaded.inventory
    obtain ⟨facts, hasFacts, here⟩ := rawGet_mem read (mem_lsort.mp member)
    obtain ⟨-, ⟨sha256, hasHash⟩, bytes, hasBytes, -⟩ := loaded.file _ here
    refine .given (rawGetIn_two hasInventory hasFacts)
      (.bind (.refuse (.pure _) (documented_corrupt _)) fun _ present => ?_)
    obtain ⟨actual, found⟩ := Option.isSome_iff_exists.mp (Option.isNone_eq_false_iff.mp present)
    have known : packFact files relative = .ok actual := by
      rw [packFact, found]
      rfl
    refine .given known (.given hasBytes (.bind (.refuse (.pure _) (documented_corrupt _)) fun _ _ => ?_))
    exact .given hasHash (.bind (.refuse (.pure _) (documented_corrupt _)) fun _ _ => trivial)
  · obtain ⟨corpus, hasCorpus⟩ := loaded.fields.values "corpus_sha256" (by decide)
    split
    · exact documented_corrupt _
    · exact .given hasCorpus (.bind (.refuse (.pure _) (documented_corrupt _)) fun _ _ =>
        .given loaded.documents trivial)

theorem docsVerify_failed {pack : DocsPack} {e : TclError} (loads : docsLoad rt pack = .ok catalog)
    (failed : docsPackFiles rt pack = .error e) :
    docsVerify rt pack [] = .error e := (Except.bind_of_ok loads _).trans (Except.bind_of_error failed _)

theorem not_documented_dictKeyUnknown (field : Chars) : ¬Documented (dictKeyUnknown field) := by
  intro documented
  obtain ⟨code, -, same⟩ := documented
  have lengths : 4 = 3 := congrArg List.length same
  omega

end

end Machteld
