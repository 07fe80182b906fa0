import Machteld.Argv

namespace Machteld

open Argv

/-- The copying loop of `wj_escape_arg`, with the run of backslashes counted
so far, and the closing quote when the argument is wrapped. -/
def escapeLoop (hasSpace : Bool) : Nat → Bytes → Bytes
  | slashes, [] => if hasSpace then slashRun slashes ++ [dquote] else []
  | slashes, c :: cs =>
    if c = backslash then backslash :: escapeLoop hasSpace (slashes + 1) cs
    else if c = dquote then
      -- the run before the quote is doubled, then the quote itself is escaped
      slashRun slashes ++ backslash :: dquote :: escapeLoop hasSpace 0 cs
    else c :: escapeLoop hasSpace 0 cs

def wjEscapeArg (s : Bytes) : Bytes :=
  if s = [] then [dquote, dquote]
  else
    let growth := s.countP fun c => c == dquote || c == backslash
    let hasSpace := s.any fun c => c == space || c == tab
    if growth = 0 ∧ hasSpace = false then s
    else (if hasSpace then [dquote] else []) ++ escapeLoop hasSpace 0 s

def wjMakeCmdline : List Bytes → Bytes
  | [] => []
  | arg :: args => wjEscapeArg arg ++ args.flatMap fun arg => space :: wjEscapeArg arg

theorem escapeLoop_plain {s : Bytes} (plain : ∀ c ∈ s, c ≠ dquote ∧ c ≠ backslash) (n : Nat) :
    escapeLoop false n s = s := by
  induction s generalizing n with
  | nil => rfl
  | cons c cs ih =>
    have here := plain c (List.mem_cons_self ..)
    rw [escapeLoop, if_neg here.2, if_neg here.1, ih fun d member => plain d (List.mem_cons_of_mem _ member)]

/-- Quoting and copying are one loop: an argument that is returned unchanged
is one the loop would copy unchanged. -/
theorem wjEscapeArg_loop {s : Bytes} (nonempty : s ≠ []) :
    wjEscapeArg s = (if s.any isBlank then [dquote] else []) ++ escapeLoop (s.any isBlank) 0 s := by
  rw [wjEscapeArg, if_neg nonempty]
  have same : (s.any fun c => c == space || c == tab) = s.any isBlank := rfl
  simp only [same]
  split_ifs with plain wrapped wrapped
  · exact absurd plain.2 (by simp [wrapped])
  · rw [plain.2, escapeLoop_plain]
    · rfl
    · intro c member
      have none := List.countP_eq_zero.mp plain.1 c member
      simpa using none
  · rfl
  · rfl

/-- The decoder's pending backslashes are exactly the encoder's count, and
its quoting is exactly the encoder's wrapping. -/
theorem words_escapeLoop {hasSpace : Bool} {s rest : Bytes} (blanks : hasSpace = true ∨ s.any isBlank = false)
    (ends : EndsWord rest) (n : Nat) (text : Bytes) :
    words (.word hasSpace n text) (escapeLoop hasSpace n s ++ rest) =
      (text ++ slashRun n ++ s) :: words .gap rest := by
  induction s generalizing n text with
  | nil =>
    cases hasSpace with
    | false => simpa [escapeLoop] using words_end ends n text
    | true =>
      rw [escapeLoop, if_pos rfl, List.append_assoc, words_slashRun, List.singleton_append, words_toggle,
        Bool.not_true, words_end ends]
      simp [slashRun]
  | cons c cs ih =>
    have later : hasSpace = true ∨ cs.any isBlank = false :=
      blanks.imp_right fun none => by simp only [List.any_cons, Bool.or_eq_false_iff] at none; exact none.2
    rw [escapeLoop]
    split_ifs with isSlash isQuote
    · subst isSlash
      have step := words_slashRun hasSpace n 1 text (escapeLoop hasSpace (n + 1) cs ++ rest)
      rw [List.cons_append]
      refine step.trans ((ih later (n + 1) text).trans ?_)
      simp [slashRun_succ]
    · subst isQuote
      have run := words_slashRun hasSpace n (n + 1) text (dquote :: (escapeLoop hasSpace 0 cs ++ rest))
      rw [slashRun_succ, List.append_assoc, List.singleton_append, ← Nat.add_assoc] at run
      rw [List.append_assoc, List.cons_append, List.cons_append, run, words_literal_quote, ih later]
      simp [slashRun]
    · have solid : hasSpace = true ∨ isBlank c = false :=
        blanks.imp_right fun none => by simp only [List.any_cons, Bool.or_eq_false_iff] at none; exact none.1
      rw [List.cons_append, words_plain solid isSlash isQuote, ih later]
      simp [slashRun]

theorem wjEscapeArg_head (s : Bytes) : ∃ c cs, wjEscapeArg s = c :: cs ∧ isBlank c = false := by
  by_cases empty : s = []
  · exact ⟨dquote, [dquote], if_pos empty, rfl⟩
  · rw [wjEscapeArg_loop empty]
    cases blanks : s.any isBlank with
    | true => exact ⟨dquote, escapeLoop true 0 s, rfl, rfl⟩
    | false =>
      cases s with
      | nil => exact absurd rfl empty
      | cons c cs =>
        simp only [List.any_cons, Bool.or_eq_false_iff] at blanks
        rw [if_neg (by decide), List.nil_append, escapeLoop]
        split_ifs
        · exact ⟨backslash, _, rfl, rfl⟩
        · exact ⟨backslash, _, rfl, rfl⟩
        · exact ⟨c, _, rfl, blanks.1⟩

/-- An escaped argument is read back as one word, whatever it contains. -/
theorem words_wjEscapeArg {rest : Bytes} (ends : EndsWord rest) (s : Bytes) :
    words .gap (wjEscapeArg s ++ rest) = s :: words .gap rest := by
  obtain ⟨c, cs, spelled, solid⟩ := wjEscapeArg_head s
  have entered : words .gap (wjEscapeArg s ++ rest) = words (.word false 0 []) (wjEscapeArg s ++ rest) := by
    rw [spelled]
    exact words_gap solid _
  rw [entered]
  have opened : ∀ tail, words (.word false 0 []) (dquote :: tail) = words (.word true 0 []) tail :=
    fun tail => words_toggle false 0 [] tail
  by_cases empty : s = []
  · have closed := words_toggle true 0 [] rest
    rw [empty, show wjEscapeArg [] = [dquote, dquote] from rfl, List.cons_append, opened]
    exact closed.trans (words_end ends 0 [])
  · rw [wjEscapeArg_loop empty]
    cases blanks : s.any isBlank with
    | true =>
      rw [if_pos rfl, List.append_assoc, List.singleton_append, opened, words_escapeLoop (Or.inl rfl) ends]
      rfl
    | false =>
      rw [if_neg (by decide), List.nil_append, words_escapeLoop (Or.inr blanks) ends]
      rfl

theorem endsWord_args (args : List Bytes) :
    EndsWord (args.flatMap fun arg => space :: wjEscapeArg arg) := by
  cases args with
  | nil => exact Or.inl rfl
  | cons arg args => exact Or.inr ⟨_, rfl⟩

theorem words_args (args : List Bytes) :
    words .gap (args.flatMap fun arg => space :: wjEscapeArg arg) = args := by
  induction args with
  | nil => rfl
  | cons arg args ih =>
    rw [List.flatMap_cons, List.cons_append, words_space, words_wjEscapeArg (endsWord_args args), ih]

/-- The command line of an argument list is read back position by position.
Of position 0 only this is assumed: its word is what the first argument was
escaped to, whatever the reader's rules make of it. -/
theorem wjMakeCmdline_argv (program : Bytes → Bytes × Bytes) (argv : List Bytes)
    (oneWord : ∀ arg args, argv = arg :: args →
      (program (wjMakeCmdline argv)).2 = args.flatMap fun arg => space :: wjEscapeArg arg) :
    (commandLineToArgv program (wjMakeCmdline argv)).length = argv.length ∧
      ∀ i, 1 ≤ i → (commandLineToArgv program (wjMakeCmdline argv))[i]? = argv[i]? := by
  cases argv with
  | nil => exact ⟨rfl, fun i _ => rfl⟩
  | cons arg args =>
    have tail := oneWord arg args rfl
    have split : commandLineToArgv program (wjMakeCmdline (arg :: args)) =
        (program (wjMakeCmdline (arg :: args))).1 :: args := by
      obtain ⟨c, cs, spelled, _⟩ := wjEscapeArg_head arg
      have cons : ∃ d ds, wjMakeCmdline (arg :: args) = d :: ds :=
        ⟨c, cs ++ _, by rw [wjMakeCmdline, spelled, List.cons_append]⟩
      obtain ⟨d, ds, line⟩ := cons
      rw [line] at tail ⊢
      rw [commandLineToArgv, tail, words_args]
    rw [split]
    refine ⟨rfl, fun i after => ?_⟩
    obtain ⟨j, rfl⟩ : ∃ j, i = j + 1 := ⟨i - 1, by omega⟩
    rfl

theorem wjMakeCmdline_argv_tool :
    (commandLineToArgv programWord (wjMakeCmdline [ascii "tool", ascii "a b\\", ascii "\"", []])).length = 4 ∧
      ∀ i, 1 ≤ i → (commandLineToArgv programWord (wjMakeCmdline [ascii "tool", ascii "a b\\",
        ascii "\"", []]))[i]? =
        [ascii "tool", ascii "a b\\", ascii "\"", []][i]? :=
  wjMakeCmdline_argv programWord _ fun arg args same => by cases same; decide

end Machteld
