import Machteld.Argv

namespace Machteld.Crt

open Argv (isBlank slashRun EndsWord)

/-- Where the C runtime's splitter stands: between words, inside one, or
behind a quote that closes unless another quote follows. -/
inductive State
  | gap
  | word (inQuotes : Bool) (slashes : Nat) (text : Bytes)
  | closing (text : Bytes)

/-- One character of a word: backslashes have a meaning before a quote only.
-/
def take (inQuotes : Bool) (slashes : Nat) (text : Bytes) (c : UInt8) : State :=
  if c = backslash then .word inQuotes (slashes + 1) text
  else if c = dquote then
    if slashes % 2 = 0 then
      if inQuotes then .closing (text ++ slashRun (slashes / 2)) else .word true 0 (text ++ slashRun (slashes / 2))
    else .word inQuotes 0 (text ++ slashRun (slashes / 2) ++ [dquote])
  else .word inQuotes 0 (text ++ slashRun slashes ++ [c])

/-- The words of a command line. A doubled quote inside quotes is a quote
and leaves them open. -/
def words : State → Bytes → List Bytes
  | .gap, [] => []
  | .gap, c :: cs => if isBlank c then words .gap cs else words (take false 0 [] c) cs
  | .word _ slashes text, [] => [text ++ slashRun slashes]
  | .word inQuotes slashes text, c :: cs =>
    if isBlank c && !inQuotes then (text ++ slashRun slashes) :: words .gap cs
    else words (take inQuotes slashes text c) cs
  | .closing text, [] => [text]
  | .closing text, c :: cs =>
    if c = dquote then words (.word true 0 (text ++ [dquote])) cs
    else if isBlank c then text :: words .gap cs
    else words (take false 0 text c) cs

theorem words_slashRun (inQuotes : Bool) (n k : Nat) (text rest : Bytes) :
    words (.word inQuotes n text) (slashRun k ++ rest) = words (.word inQuotes (n + k) text) rest := by
  induction k generalizing n with
  | zero => rfl
  | succ k ih =>
    have head : slashRun (k + 1) = backslash :: slashRun k := rfl
    rw [head, List.cons_append, words, if_neg (by simp), take, if_pos rfl, ih]
    congr 2
    omega

theorem words_plain {inQuotes : Bool} {c : UInt8} (inside : inQuotes = true ∨ isBlank c = false)
    (notSlash : c ≠ backslash) (notQuote : c ≠ dquote) (n : Nat) (text rest : Bytes) :
    words (.word inQuotes n text) (c :: rest) = words (.word inQuotes 0 (text ++ slashRun n ++ [c])) rest := by
  have stays : ¬ (isBlank c && !inQuotes) = true := by
    rcases inside with quoted | solid
    · simp [quoted]
    · simp [solid]
  rw [words, if_neg stays, take, if_neg notSlash, if_neg notQuote]

theorem words_gap {c : UInt8} (solid : isBlank c = false) (rest : Bytes) :
    words .gap (c :: rest) = words (.word false 0 []) (c :: rest) := by
  rw [words, if_neg (by simp [solid]), words, if_neg (by simp [solid])]

theorem words_space (rest : Bytes) : words .gap (space :: rest) = words .gap rest := if_pos rfl

/-- A quote at the start of a word opens it. -/
theorem words_opens (rest : Bytes) : words .gap (dquote :: rest) = words (.word true 0 []) rest := rfl

/-- Twice the backslashes and two quotes stand for the backslashes and a
quote. -/
theorem words_doubled (n : Nat) (text rest : Bytes) :
    words (.word true (n + n) text) (dquote :: dquote :: rest) =
      words (.word true 0 (text ++ slashRun n ++ [dquote])) rest := by
  have half : (n + n) / 2 = n := by omega
  rw [words, if_neg (by simp), take, if_neg (by decide), if_pos rfl, if_pos (by omega), half, if_pos rfl, words,
    if_pos rfl]

/-- Twice the backslashes and one quote at the end of a word close it. -/
theorem words_closes {rest : Bytes} (ends : EndsWord rest) (n : Nat) (text : Bytes) :
    words (.word true (n + n) text) (dquote :: rest) = (text ++ slashRun n) :: words .gap rest := by
  have half : (n + n) / 2 = n := by omega
  rw [words, if_neg (by simp), take, if_neg (by decide), if_pos rfl, if_pos (by omega), half, if_pos rfl]
  rcases ends with rfl | ⟨later, rfl⟩
  · rfl
  · rw [words_space, words]
    exact (if_neg (by decide)).trans (if_pos rfl)

theorem words_end {rest : Bytes} (ends : EndsWord rest) (n : Nat) (text : Bytes) :
    words (.word false n text) rest = (text ++ slashRun n) :: words .gap rest := by
  rcases ends with rfl | ⟨later, rfl⟩
  · rfl
  · rw [words_space, words]
    exact if_pos rfl

/-- A word of neither blanks nor quotes. -/
theorem words_bare {s rest : Bytes} (solid : ∀ c ∈ s, isBlank c = false ∧ c ≠ dquote)
    (ends : EndsWord rest) (n : Nat)
    (text : Bytes) : words (.word false n text) (s ++ rest) = (text ++ slashRun n ++ s) :: words .gap rest := by
  induction s generalizing n text with
  | nil => simpa using words_end ends n text
  | cons c cs ih =>
    obtain ⟨here, later⟩ := List.forall_mem_cons.mp solid
    by_cases slash : c = backslash
    · have step := words_slashRun false n 1 text (cs ++ rest)
      rw [slash, List.cons_append]
      refine step.trans ((ih later (n + 1) text).trans ?_)
      simp [Argv.slashRun_succ]
    · rw [List.cons_append, words_plain (Or.inr here.1) slash here.2, ih later]
      simp [slashRun]

end Machteld.Crt
