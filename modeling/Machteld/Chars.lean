import Machteld.TclText

namespace Machteld

/-- A Tcl string as its code points. -/
abbrev Chars := List Nat

def chars (s : String) : Chars := s.toList.map Char.toNat

/-- An integer as a string. -/
def numberChars (n : Nat) : Chars := (Nat.toDigits 10 n).map Char.toNat

def isDigitChar (c : Nat) : Bool := decide (0x30 ≤ c) && decide (c ≤ 0x39)

/-- `^(0|[1-9][0-9]*)$` -/
def canonicalDigits (s : Chars) : Bool :=
  s == [0x30] || (s.head?.any fun c => decide (c ≠ 0x30)) && s.all isDigitChar

def charsValue (s : Chars) : Nat := s.foldl (fun n c => 10 * n + (c - 0x30)) 0

/-- What `expr` leaves of the digits of a number, of a NaN and of a word
that reads as no number. -/
def plainExpr (word : Chars) : Option Chars :=
  if word = chars "NaN" then none
  else if word ≠ [] ∧ word.all isDigitChar then some (numberChars (charsValue word))
  else some word

/-- What Tcl's tables say of a code point: its lower case, whether
`string trim` takes it away, and whether `\s` and `[:alnum:]` match it. -/
structure CharTables where
  lower : Nat → Nat
  trimmed : Nat → Bool
  space : Nat → Bool
  alnum : Nat → Bool

def CharTables.toLower (tables : CharTables) (s : Chars) : Chars := s.map tables.lower

/-- `string trim` -/
def CharTables.trim (tables : CharTables) (s : Chars) : Chars :=
  ((s.dropWhile tables.trimmed).reverse.dropWhile tables.trimmed).reverse

/-- Each run of some characters becomes one blank; `inRun` tells whether the
one before was of such a run. -/
def replaceRuns (matched : Nat → Bool) (inRun : Bool) : Chars → Chars
  | [] => []
  | c :: s =>
    if matched c then if inRun then replaceRuns matched true s else 0x20 :: replaceRuns matched true s
    else c :: replaceRuns matched false s

/-- What follows the first place of a string in another. -/
def afterFirst (needle : Chars) : Chars → Option Chars
  | [] => none
  | c :: s => if needle.isPrefixOf (c :: s) then some ((c :: s).drop needle.length) else afterFirst needle s

/-- `string first` finds it. -/
def occurs (needle haystack : Chars) : Bool := (afterFirst needle haystack).isSome

/-- `string compare` gives no more than 0. -/
def charsLe : Chars → Chars → Bool
  | [], _ => true
  | _ :: _, [] => false
  | a :: s, b :: t => decide (a < b) || a == b && charsLe s t

theorem numberChars_length {n : Nat} (small : n ≤ 2147483647) : (numberChars n).length ≤ 10 := by
  rw [numberChars, List.length_map]
  exact (Nat.length_toDigits_le_iff (by decide) (by decide)).mpr (by omega)

theorem numberChars_small : ∀ n < 10, numberChars n = [0x30 + n] := by
  decide

theorem numberChars_large {n : Nat} (large : 10 ≤ n) :
    numberChars n = numberChars (n / 10) ++ numberChars (n % 10) := by
  rw [numberChars, Nat.toDigits_of_base_le (by decide) large,
    List.map_append, ← Nat.toDigits_of_lt_base (by omega : n % 10 < 10)]
  rfl

theorem numberChars_digits (n : Nat) : (numberChars n).all isDigitChar = true := by
  induction h : n using Nat.strongRecOn generalizing n with
  | ind k ih =>
    subst h
    by_cases small : n < 10
    · rw [numberChars_small n small, List.all_cons, List.all_nil, Bool.and_true, isDigitChar, Bool.and_eq_true_iff]
      exact ⟨decide_eq_true (by omega), decide_eq_true (by omega)⟩
    · rw [numberChars_large (by omega), List.all_append, ih (n / 10) (by omega) _ rfl, ih (n % 10) (by omega) _ rfl]
      rfl

theorem numberChars_head {n : Nat} (positive : 0 < n) :
    ((numberChars n).head?.any fun c => decide (c ≠ 0x30)) = true := by
  induction h : n using Nat.strongRecOn generalizing n with
  | ind k ih =>
    subst h
    by_cases small : n < 10
    · rw [numberChars_small n small, List.head?_cons, Option.any_some]
      exact decide_eq_true (by omega)
    · have first := ih (n / 10) (by omega) (by omega) rfl
      rw [numberChars_large (by omega), List.head?_append]
      cases head : (numberChars (n / 10)).head? with
      | none => rw [head] at first; cases first
      | some c => rw [head] at first; exact first

theorem numberChars_canonical (n : Nat) : canonicalDigits (numberChars n) = true := by
  unfold canonicalDigits
  rcases Nat.eq_zero_or_pos n with rfl | positive
  · rfl
  · rw [numberChars_head positive, numberChars_digits, Bool.true_and, Bool.or_true]

theorem numberChars_value (n : Nat) : charsValue (numberChars n) = n := by
  have read := Nat.ofDigitChars_toDigits (n := n) (by decide : 1 < 10) (by decide : 10 ≤ 10)
  rw [Nat.ofDigitChars_eq_foldl] at read
  rw [charsValue, numberChars, List.foldl_map]
  exact read

theorem charsLe_total (s t : Chars) : (charsLe s t || charsLe t s) = true := by
  induction s generalizing t with
  | nil => rfl
  | cons a s ih =>
    cases t with
    | nil => rfl
    | cons b t =>
      simp only [charsLe, Bool.or_eq_true, Bool.and_eq_true, decide_eq_true_eq, beq_iff_eq]
      rcases Nat.lt_trichotomy a b with less | rfl | more
      · exact .inl (.inl less)
      · rcases Bool.or_eq_true_iff.mp (ih t) with here | there
        · exact .inl (.inr ⟨rfl, here⟩)
        · exact .inr (.inr ⟨rfl, there⟩)
      · exact .inr (.inl more)

theorem charsLe_trans {s t u : Chars} (first : charsLe s t = true) (second : charsLe t u = true) :
    charsLe s u = true := by
  induction s generalizing t u with
  | nil => rfl
  | cons a s ih =>
    cases t with
    | nil => cases first
    | cons b t =>
      cases u with
      | nil => cases second
      | cons c u =>
        simp only [charsLe, Bool.or_eq_true, Bool.and_eq_true, decide_eq_true_eq, beq_iff_eq] at first second ⊢
        rcases first with less | ⟨rfl, rest⟩
        · rcases second with less' | ⟨rfl, -⟩
          · exact .inl (Nat.lt_trans less less')
          · exact .inl less
        · rcases second with less' | ⟨rfl, rest'⟩
          · exact .inl less'
          · exact .inr ⟨rfl, ih rest rest'⟩

end Machteld
