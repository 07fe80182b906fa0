import Mathlib.Data.List.Sort
import Machteld.EndsIn
import Machteld.Docs.SafePath

namespace Machteld

deriving instance DecidableEq for TclError

/-- How Tcl reads a string as a list, and the string that it makes of one.
-/
structure TclLists where
  words : Chars → Except TclError (List Chars)
  text : List Chars → Chars

/-- What the runtime tells the documentation commands: Tcl's lists and
tables, the versions, `!=` between an integer and a string, what `expr`
leaves of a word (none of a NaN), and `hash sum sha256` of a text's UTF-8.
-/
structure DocsRuntime where
  tcl : TclLists
  tables : CharTables
  version : Chars
  patchlevel : Chars
  tkPatchlevel : Chars
  unequal : Nat → Chars → Bool
  exprOf : Chars → Option Chars
  sha256 : Chars → Option Chars

def listPairs {α : Type} : List α → Option (List (α × α))
  | [] => some []
  | [_] => none
  | key :: value :: words => (listPairs words).map ((key, value) :: ·)

def missingValue : TclError :=
  ⟨ascii "missing value to go with key", [ascii "TCL", ascii "VALUE", ascii "DICTIONARY"]⟩

/-- A string as a dict. -/
def rawDict (tcl : TclLists) (value : Chars) : Except TclError (List (Chars × Chars)) :=
  (tcl.words value).bind fun words => (listPairs words).elim (.error missingValue) fun pairs =>
    .ok (dictPuts pairs [])

/-- `dict get` with one key. -/
def rawGet (tcl : TclLists) (value : Chars) (key : Chars) : Except TclError Chars :=
  (rawDict tcl value).bind fun entries => (dictGet key entries).elim (.error (dictKeyUnknown key)) .ok

/-- `dict get` with some keys. -/
def rawGetIn (tcl : TclLists) (value : Chars) : List Chars → Except TclError Chars
  | [] => .ok value
  | key :: keys => (rawGet tcl value key).bind fun item => rawGetIn tcl item keys

/-- `dict exists` -/
def rawExists (tcl : TclLists) (value : Chars) : List Chars → Bool
  | [] => true
  | key :: keys =>
    match rawGet tcl value key with
    | .ok item => rawExists tcl item keys
    | .error _ => false

/-- `lsort` -/
def lsort (words : List Chars) : List Chars := words.insertionSort fun a b => charsLe a b = true

theorem mem_lsort {word : Chars} {words : List Chars} : word ∈ lsort words ↔ word ∈ words :=
  List.mem_insertionSort _

/-- `lsort [dict keys $value]` is not some words. -/
def keysDiffer (tcl : TclLists) (value : Chars) (names : List String) : Except TclError Bool :=
  (rawDict tcl value).bind fun entries => .ok (lsort (entries.map Prod.fst) != names.map chars)

def corrupt (message : Bytes) : TclError := docsFail "corrupt" message

def hasRepeat : List Chars → Bool
  | [] => false
  | key :: keys => keys.contains key || hasRepeat keys

/-- `DocsUniqueDict` -/
def docsUniqueDict (tcl : TclLists) (value : Chars) (place : Bytes) : Except TclError Nat :=
  match tcl.words value with
  | .error _ => .error (corrupt (ascii "docs: " ++ (place ++ ascii " is not an inert dict")))
  | .ok words =>
    match listPairs words with
    | none => .error (corrupt (ascii "docs: " ++ (place ++ ascii " is not an inert dict")))
    | some pairs =>
      if hasRepeat (pairs.map Prod.fst) then .error (corrupt (ascii "docs: duplicate key in " ++ place)) else
        .ok pairs.length

def hexChar (c : Nat) : Bool := isDigitChar c || decide (0x61 ≤ c) && decide (c ≤ 0x66)

/-- `^[0-9a-f]{64}$` -/
def hexHash (value : Chars) : Bool := value.length == 64 && value.all hexChar

/-- `DocsValidateHash` -/
def docsValidateHash (value : Chars) (place : Bytes) : Except TclError Unit :=
  refuse (.ok (!hexHash value)) (corrupt (ascii "docs: invalid SHA-256 in " ++ place))

/-- `DocsNonnegative` -/
def docsNonnegative (value : Chars) (place : Bytes) : Except TclError Unit :=
  refuse (.ok (decide (10 < value.length) || !canonicalDigits value || decide (2147483647 < charsValue value)))
    (corrupt (ascii "docs: invalid nonnegative integer in " ++ place))

/-- `^[a-z0-9][-a-z0-9._/]*$` -/
def canonicalId (id : Chars) : Bool :=
  let first := fun c => isDigitChar c || decide (0x61 ≤ c) && decide (c ≤ 0x7A)
  id.head?.any first && id.tail.all fun c => first c || (chars "._/-").contains c

/-- `^[[:alnum:]][[:alnum:]-]*$` -/
def canonicalSlug (tables : CharTables) (slug : Chars) : Bool :=
  slug.head?.any tables.alnum && slug.tail.all fun c => tables.alnum c || c == 0x2D

/-- The words of a list without quotes and backslashes, from the words so
far and the one being read, both backwards, and the braces it is in. -/
def braceWords : Chars → List Chars → Option Chars → Nat → Except TclError (List Chars)
  | [], words, word, 0 => .ok (word.elim words fun word => word.reverse :: words).reverse
  | [], _, _, _ + 1 =>
    .error ⟨ascii "unmatched open brace in list", [ascii "TCL", ascii "VALUE", ascii "LIST", ascii "BRACE"]⟩
  | c :: s, words, none, _ =>
    bif c == 0x20 || c == 0xA then braceWords s words none 0
    else bif c == 0x7B then braceWords s words (some []) 1
    else braceWords s words (some [c]) 0
  | c :: s, words, some word, 0 =>
    bif c == 0x20 || c == 0xA then braceWords s (word.reverse :: words) none 0 else braceWords s words
      (some (c :: word)) 0
  | c :: s, words, some word, depth + 1 =>
    bif c == 0x7D then
      bif depth == 0 then braceWords s (word.reverse :: words) none 0 else braceWords s words
        (some (c :: word)) depth
    else braceWords s words (some (c :: word)) (bif c == 0x7B then depth + 2 else depth + 1)

/-- Tcl on lists without quotes and backslashes. -/
def braceLists : TclLists where
  words s := braceWords s [] none 0
  text words := [0x20].intercalate (words.map fun word => if word = [] ∨
    word.contains 0x20 then 0x7B :: (word ++ [0x7D]) else word)

/-- A dict whose values are in braces. -/
def pairText (pairs : List (String × Chars)) : Chars :=
  [0x20].intercalate (pairs.map fun pair => chars pair.1 ++ (0x20 :: 0x7B :: (pair.2 ++ [0x7D])))

/-- Tcl's tables on ASCII. -/
def asciiTables : CharTables where
  lower := asciiLowerChar
  trimmed c := c == 0 || decide (9 ≤ c) && decide (c ≤ 13) || c == 0x20
  space c := decide (9 ≤ c) && decide (c ≤ 13) || c == 0x20
  alnum c := isDigitChar c || isAlphaChar c

/-- The SHA-256 of the empty text. -/
def emptyHash : Chars :=
  (Nat.toDigits 16 0xe3b0c44298fc1c149afbf4c8996fb92427ae41e4649b934ca495991b7852b855).map Char.toNat

/-- The runtime of some examples. -/
def plainRuntime : DocsRuntime where
  tcl := braceLists
  tables := asciiTables
  version := chars "1.0"
  patchlevel := chars "9.0.4"
  tkPatchlevel := chars "9.0.3"
  unequal n value := value != numberChars n
  exprOf := plainExpr
  sha256 text := if text = [] then some emptyHash else none

/-- The codes of the errors of the documentation commands. -/
def docsCodes : List String :=
  ["ambiguous", "badvalue", "corrupt", "exists", "notfound", "oserror", "unsupported", "usage"]

/-- An error that the documentation commands promise. -/
def Documented (e : TclError) : Prop :=
  ∃ code ∈ docsCodes, e.errorcode = [ascii "MACHTELD", ascii "DOCS", ascii code]

end Machteld
