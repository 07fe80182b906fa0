import Machteld.Docs.Catalog

namespace Machteld

structure SearchRecord where
  priority : Nat
  title : Chars
  aliases : Chars
  summary : Chars
  body : Chars
  snippets : List (Chars × Chars)
  displaySnippets : List (Chars × Chars)

/-- What `DocsLoadSearch` returns: it has as many documents as the catalog.
-/
structure DocsIndex (catalog : DocsCatalog) where
  documents : List (Chars × SearchRecord)
  same : documents.length = catalog.documents.length

/-- An item of `docs search`. -/
structure DocsMatch where
  summary : DocSummary
  score : Nat
  snippet : Chars

/-- The characters that `DocsNormalizeQuery` keeps. -/
def queryChar (tables : CharTables) (c : Nat) : Bool := tables.alnum c || (chars "_./#-").contains c

/-- `split`: the words between the blanks. -/
def blankPieces (s : Chars) : List Chars := if s = [] then [] else s.splitOn 0x20

/-- `DocsNormalizeQuery` -/
def docsNormalizeQuery (tables : CharTables) (query : Chars) : Except TclError Chars :=
  if 4096 < query.length then .error (docsFail "badvalue" (ascii "docs: search query is too long"))
  else
    let words := replaceRuns (fun c => !queryChar tables c) false (tables.toLower (tables.trim query))
    let normalized := tables.trim (replaceRuns tables.space false words)
    let terms := blankPieces normalized
    if 64 < terms.length then .error (docsFail "badvalue" (ascii "docs: search query has too many terms"))
    else if terms.any fun term => decide (term.length < 2) then
      .error (docsFail "badvalue" (ascii "docs: search terms must contain at least two characters"))
    else .ok normalized

/-- The count of `DocsLiteralCount`, up to some number. -/
def literalCount (needle : Chars) : Nat → Chars → Nat
  | 0, _ => 0
  | left + 1, haystack =>
    match afterFirst needle haystack with
    | none => 0
    | some rest => literalCount needle left rest + 1

/-- `DocsLiteralCount` -/
def docsLiteralCount (needle haystack : Chars) : Nat := if needle = [] then 0 else literalCount needle 20 haystack

/-- What a term adds to the score; none where it does not occur. -/
def termScore (search : SearchRecord) (joined term : Chars) : Option Nat :=
  if occurs term joined then
    some ((if occurs term search.title then 120 else 0) + (if occurs term search.aliases then 100 else 0) +
      (if occurs term search.summary then 40 else 0) + docsLiteralCount term joined)
  else none

/-- The score of a record from the score so far; none where a term does not
occur. -/
def termsScore (search : SearchRecord) (joined : Chars) : List Chars → Nat → Option Nat
  | [], score => some score
  | term :: terms, score =>
    (termScore search joined term).bind fun more => termsScore search joined terms (score + more)

/-- The snippet of the first section with all terms. -/
def searchSnippet (search : SearchRecord) (terms : List Chars) (summary : Chars) : Chars :=
  match search.snippets.find? fun entry => terms.all fun term => occurs term entry.2 with
  | some entry => (dictGet entry.1 search.displaySnippets).getD []
  | none => summary

/-- What `DocsSearch` finds of a record. -/
def docsMatch (normalized : Chars) (search : SearchRecord) (record : DocRecord) : Option DocsMatch :=
  let joined := search.title ++ (0x20 :: search.aliases ++ (0x20 :: search.summary ++ (0x20 :: search.body)))
  let terms := blankPieces normalized
  (termsScore search joined terms search.priority).map fun score =>
    ⟨docsSummary record, if occurs normalized joined then score + 80 else score,
      searchSnippet search terms record.summary⟩

/-- `DocsSearchCompare` gives no more than 0. -/
def docsSearchLe (a b : DocsMatch) : Bool :=
  decide (b.score < a.score) || a.score == b.score && charsLe a.summary.id b.summary.id

/-- The matches of `DocsSearch` in the order of the index. -/
def docsMatches (catalog : DocsCatalog) (passes : DocRecord → Bool) (normalized : Chars) :
    List (Chars × SearchRecord) → Except TclError (List DocsMatch)
  | [] => .ok []
  | (id, search) :: documents =>
    match dictGet id catalog.documents with
    | none => .error (dictKeyUnknown id)
    | some record => do
      let rest ← docsMatches catalog passes normalized documents
      return if passes record then (docsMatch normalized search record).toList ++ rest else rest

/-- The items of `DocsSearch` in their order. -/
def docsSearchItems (catalog : DocsCatalog) (index : DocsIndex catalog) (filter : DocsFilter) (normalized : Chars) :
    Except TclError (List DocsMatch) := do
  let found ← docsMatches catalog filter.passes normalized index.documents
  return found.mergeSort docsSearchLe

/-- `DocsSearch` -/
def docsSearch (tables : CharTables) (catalog : DocsCatalog) (index : DocsIndex catalog) (args : List Chars) :
    Except TclError (DocsPage DocsMatch) :=
  match args with
  | [] => .error (docsFail "usage" (ascii "docs: wrong # args: should be \"docs search query ?options?\""))
  | query :: optionArgs => do
    let normalized ← docsNormalizeQuery tables query
    if normalized = [] then .error (docsFail "badvalue" (ascii "docs: search query must contain a word"))
    else do
      let filter ← docsFilterOptions tables catalog optionArgs
      let items ← docsSearchItems catalog index filter normalized
      return docsPage items filter.offset filter.limit

theorem docsSearchLe_total (a b : DocsMatch) : (docsSearchLe a b || docsSearchLe b a) = true := by
  simp only [docsSearchLe, Bool.or_eq_true, Bool.and_eq_true, decide_eq_true_eq, beq_iff_eq]
  rcases Nat.lt_trichotomy a.score b.score with less | same | more
  · exact .inr (.inl less)
  · rcases Bool.or_eq_true_iff.mp (charsLe_total a.summary.id b.summary.id) with here | there
    · exact .inl (.inr ⟨same, here⟩)
    · exact .inr (.inr ⟨same.symm, there⟩)
  · exact .inl (.inl more)

theorem docsSearchLe_trans {a b c : DocsMatch} (first : docsSearchLe a b = true)
    (second : docsSearchLe b c = true) :
    docsSearchLe a c = true := by
  simp only [docsSearchLe, Bool.or_eq_true, Bool.and_eq_true, decide_eq_true_eq, beq_iff_eq] at first second ⊢
  rcases first with more | ⟨same, ids⟩
  · rcases second with more' | ⟨same', -⟩
    · exact .inl (by omega)
    · exact .inl (by omega)
  · rcases second with more' | ⟨same', ids'⟩
    · exact .inl (by omega)
    · exact .inr ⟨by omega, charsLe_trans ids ids'⟩

end Machteld
