import Machteld.Bytes

namespace Machteld.Argv

def isBlank (c : UInt8) : Bool := c == space || c == tab

def slashRun (n : Nat) : Bytes := List.replicate n backslash

/-- Where the splitter stands: between words, or inside one, with the run of
backslashes it has seen but not yet given a meaning. -/
inductive Lex
  | gap
  | word (inQuotes : Bool) (slashes : Nat) (text : Bytes)

/-- One character of a word: `2n` backslashes before a quote give `n` and
toggle quoting, `2n+1` give `n` and a literal quote, all others are literal.
-/
def take (inQuotes : Bool) (slashes : Nat) (text : Bytes) (c : UInt8) : Lex :=
  if c = backslash then .word inQuotes (slashes + 1) text
  else if c = dquote then
    if slashes % 2 = 0 then .word (!inQuotes) 0 (text ++ slashRun (slashes / 2))
    else .word inQuotes 0 (text ++ slashRun (slashes / 2) ++ [dquote])
  else .word inQuotes 0 (text ++ slashRun slashes ++ [c])

/-- The words of a command line from position 1 on. -/
def words : Lex → Bytes → List Bytes
  | .gap, [] => []
  | .gap, c :: cs => if isBlank c then words .gap cs else words (take false 0 [] c) cs
  | .word _ slashes text, [] => [text ++ slashRun slashes]
  | .word inQuotes slashes text, c :: cs =>
    if isBlank c && !inQuotes then (text ++ slashRun slashes) :: words .gap cs
    else words (take inQuotes slashes text c) cs

/-- The whole split. Position 0 has rules of its own, so how its word is
taken off the front is a parameter. -/
def commandLineToArgv (program : Bytes → Bytes × Bytes) : Bytes → List Bytes
  | [] => []
  | c :: cs => (program (c :: cs)).1 :: words .gap (program (c :: cs)).2

/-- The rule for position 0: a quoted program name ends at the next quote,
any other at the first blank, and backslashes mean nothing. -/
def programWord : Bytes → Bytes × Bytes
  | [] => ([], [])
  | c :: cs =>
    if c = dquote then (cs.takeWhile (· != dquote), (cs.dropWhile (· != dquote)).drop 1)
    else ((c :: cs).takeWhile (! isBlank ·), (c :: cs).dropWhile (! isBlank ·))

@[simp] theorem isBlank_backslash : isBlank backslash = false := rfl

@[simp] theorem isBlank_dquote : isBlank dquote = false := rfl

theorem slashRun_add (m n : Nat) : slashRun (m + n) = slashRun m ++ slashRun n :=
  List.replicate_add ..

theorem slashRun_succ (n : Nat) : slashRun (n + 1) = slashRun n ++ [backslash] := slashRun_add n 1

theorem words_slashRun (inQuotes : Bool) (n k : Nat) (text rest : Bytes) :
    words (.word inQuotes n text) (slashRun k ++ rest) = words (.word inQuotes (n + k) text) rest := by
  induction k generalizing n with
  | zero => rfl
  | succ k ih =>
    have head : slashRun (k + 1) = backslash :: slashRun k := rfl
    rw [head, List.cons_append, words, if_neg (by simp), take, if_pos rfl, ih]
    congr 2
    omega

/-- Quoting toggles at a quote behind an even run of backslashes. -/
theorem words_toggle (inQuotes : Bool) (n : Nat) (text rest : Bytes) :
    words (.word inQuotes (n + n) text) (dquote :: rest) =
      words (.word (!inQuotes) 0 (text ++ slashRun n)) rest := by
  have half : (n + n) / 2 = n := by omega
  rw [words, if_neg (by simp), take, if_neg (by decide), if_pos rfl, if_pos (by omega), half]

/-- A quote behind an odd run is part of the word. -/
theorem words_literal_quote (inQuotes : Bool) (n : Nat) (text rest : Bytes) :
    words (.word inQuotes (n + n + 1) text) (dquote :: rest) =
      words (.word inQuotes 0 (text ++ slashRun n ++ [dquote])) rest := by
  have half : (n + n + 1) / 2 = n := by omega
  rw [words, if_neg (by simp), take, if_neg (by decide), if_pos rfl, if_neg (by omega), half]

theorem words_plain {inQuotes : Bool} {c : UInt8} (inside : inQuotes = true ∨ isBlank c = false)
    (notSlash : c ≠ backslash) (notQuote : c ≠ dquote) (n : Nat) (text rest : Bytes) :
    words (.word inQuotes n text) (c :: rest) =
      words (.word inQuotes 0 (text ++ slashRun n ++ [c])) rest := by
  have stays : ¬ (isBlank c && !inQuotes) = true := by
    rcases inside with quoted | solid
    · simp [quoted]
    · simp [solid]
  rw [words, if_neg stays, take, if_neg notSlash, if_neg notQuote]

theorem words_gap {c : UInt8} (solid : isBlank c = false) (rest : Bytes) :
    words .gap (c :: rest) = words (.word false 0 []) (c :: rest) := by
  rw [words, if_neg (by simp [solid]), words, if_neg (by simp [solid])]

theorem words_space (rest : Bytes) : words .gap (space :: rest) = words .gap rest := if_pos rfl

/-- What may follow a word: nothing, or the blank that separates the next
one. -/
def EndsWord (rest : Bytes) : Prop := rest = [] ∨ ∃ later, rest = space :: later

theorem words_end {rest : Bytes} (ends : EndsWord rest) (n : Nat) (text : Bytes) :
    words (.word false n text) rest = (text ++ slashRun n) :: words .gap rest := by
  rcases ends with rfl | ⟨later, rfl⟩
  · rfl
  · rw [words_space, words]
    exact if_pos rfl

end Machteld.Argv
