import Machteld.Decimal
import Machteld.Dict
import Machteld.Json.Value
import Machteld.Units.Parse

namespace Machteld

/-- What Tcl reads a string as: a list, a boolean and a whole number; and
what `expr` leaves of a word that it only hands on, none where it refuses a
NaN. -/
structure TclReads where
  listOf : Bytes → Except TclError (List Bytes)
  boolean : Bytes → Option Bool
  integer : Bytes → Option Int
  exprOf : Bytes → Option Bytes

/-- A word that `expr` hands on. -/
def TclReads.expr (tcl : TclReads) (word : Bytes) : Except TclError Bytes := exprResult (tcl.exprOf word)

/-- The documented behaviour of `expr` for a word it hands on: a word that
reads as a number is formatted anew, with a digit or as an infinity, and
stays as it is the next time; every other word is left alone. -/
structure TclReads.ExprSpec (tcl : TclReads) : Prop where
  empty : tcl.exprOf [] = some []
  value : ∀ v w, tcl.exprOf v = some w → w = v ∨ w.any isDigit = true ∨ w = ascii "Inf" ∨ w = ascii "-Inf"
  again : ∀ v w, tcl.exprOf v = some w → tcl.exprOf w = some w

def wordPairs : List Bytes → Option (List (Bytes × Bytes))
  | [] => some []
  | [_] => none
  | key :: value :: words => (wordPairs words).map ((key, value) :: ·)

/-- What `dict for` goes through; none where a string is no dict. -/
def TclReads.dictOf (tcl : TclReads) (s : Bytes) : Option (List (Bytes × Bytes)) :=
  match tcl.listOf s with
  | .error _ => none
  | .ok words => (wordPairs words).map (dictPuts · [])

/-- `<` of `expr` between whole numbers. -/
def TclReads.less (tcl : TclReads) (a b : Bytes) : Bool :=
  match tcl.integer a, tcl.integer b with
  | some m, some n => decide (m < n)
  | _, _ => false

/-- The words of a list without quotes and backslashes, from the words so
far, the one being read and the braces it is in. -/
def plainList : Bytes → List Bytes → Option Bytes → Nat → Except TclError (List Bytes)
  | [], words, word, 0 => .ok (words ++ word.toList)
  | [], _, _, _ + 1 =>
    .error ⟨ascii "unmatched open brace in list", [ascii "TCL", ascii "VALUE", ascii "LIST", ascii "BRACE"]⟩
  | c :: s, words, none, _ =>
    if c = space then plainList s words none 0
    else if c = 0x7B then plainList s words (some []) 1
    else plainList s words (some [c]) 0
  | c :: s, words, some word, 0 =>
    if c = space then plainList s (words ++ [word]) none 0 else plainList s words (some (word ++ [c])) 0
  | c :: s, words, some word, depth + 1 =>
    if c = 0x7D then if depth = 0 then plainList s (words ++ [word]) none 0 else plainList s words
      (some (word ++ [c])) depth
    else plainList s words (some (word ++ [c])) (if c = 0x7B then depth + 2 else depth + 1)

/-- Tcl on lists without quotes and backslashes, the digits of numbers, the
NaN and the usual words for booleans. -/
def plainTcl : TclReads where
  listOf s := plainList s [] none 0
  boolean s :=
    if (["1", "yes", "on", "true"].map ascii).contains s then some true
    else if (["0", "no", "off", "false"].map ascii).contains s then some false
    else none
  integer s := if s ≠ [] ∧ s.all isDigit then some (digitsValue s) else none
  exprOf s :=
    if s = ascii "NaN" then none
    else if s ≠ [] ∧ s.all isDigit then some (decimal (digitsValue s))
    else some s

theorem digitsValue_decimal (n : Nat) : digitsValue (decimal n) = n := by
  have digits := Nat.ofDigitChars_toDigits (n := n) (by decide : 1 < 10) (Nat.le_refl 10)
  have each : ∀ c ∈ Nat.toDigits 10 n, (UInt8.ofNat c.toNat).toNat = c.toNat := fun c member =>
    (digit_byte (Nat.isDigit_of_mem_toDigits (by decide) (by decide) member)).1
  rw [digitsValue, decimal, List.foldl_map]
  rw [Nat.ofDigitChars] at digits
  refine (List.foldl_ext _ _ _ fun sofar c member => ?_).trans digits
  rw [each c member]
  rfl

theorem plainTcl_expr : plainTcl.ExprSpec where
  empty := rfl
  value v w handed := by
    simp only [plainTcl] at handed
    split_ifs at handed with nan number
    · obtain rfl := Option.some.inj handed
      obtain ⟨c, member⟩ := List.exists_mem_of_ne_nil _ (decimal_ne_nil (digitsValue v))
      exact .inr (.inl (List.any_eq_true.mpr ⟨c, member, decimal_isDigit _ c member⟩))
    · exact .inl (Option.some.inj handed).symm
  again v w handed := by
    simp only [plainTcl] at handed ⊢
    split_ifs at handed with nan number
    · obtain rfl := Option.some.inj handed
      have digits := List.all_eq_true.mpr (decimal_isDigit (digitsValue v))
      have other : decimal (digitsValue v) ≠ ascii "NaN" := by
        intro same
        rw [same] at digits
        exact absurd digits (by decide)
      rw [if_neg other, if_pos ⟨decimal_ne_nil _, digits⟩, digitsValue_decimal]
    · obtain rfl := Option.some.inj handed
      rw [if_neg nan, if_neg number]

end Machteld
