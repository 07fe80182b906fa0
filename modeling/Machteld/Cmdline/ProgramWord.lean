import Machteld.Cmdline.EscapeArg
import Mathlib.Data.List.TakeWhile

namespace Machteld

open Argv

/-- `-arg0` of `parse_opts` -/
def parseArg0 (v : Bytes) : Except String Bytes :=
  if 0 ∈ v then .error "-arg0 may not contain NUL" else .ok v

/-- `argv_with_arg0` -/
def argvWithArg0 (arg0 : Option Bytes) (cargv : List Bytes) : List Bytes :=
  match arg0 with
  | none => cargv
  | some word => word :: cargv.tail

/-- How long the run of backslashes is that a word ends in, with `n` before
it. -/
def trailingSlashes : Nat → Bytes → Nat
  | n, [] => n
  | n, c :: cs => if c = backslash then trailingSlashes (n + 1) cs else trailingSlashes 0 cs

/-- A word the rule for position 0 reads back from its escaped form. -/
def ProgramWord (word : Bytes) : Prop :=
  dquote ∉ word ∧ ¬ (word.any isBlank = true ∧ word.getLast? = some backslash)

/-- No backslash is counted where the word does not end in one. -/
theorem trailingSlashes_zero {n : Nat} {word : Bytes} :
    trailingSlashes n word = 0 ↔ (word = [] → n = 0) ∧ word.getLast? ≠ some backslash := by
  induction word generalizing n with
  | nil => simp [trailingSlashes]
  | cons c cs ih =>
    rw [trailingSlashes]
    by_cases slash : c = backslash
    · rw [if_pos slash, ih]
      cases cs with
      | nil => simp [slash]
      | cons d ds => simp [List.getLast?_cons_cons]
    · rw [if_neg slash, ih]
      cases cs with
      | nil => simp [slash]
      | cons d ds => simp [List.getLast?_cons_cons]

/-- Without quotes only the run before the closing quote is doubled. -/
theorem escapeLoop_unquoted {word : Bytes} (noQuote : dquote ∉ word) (hasSpace : Bool) (n : Nat) :
    escapeLoop hasSpace n word =
      word ++ if hasSpace then slashRun (trailingSlashes n word) ++ [dquote] else [] := by
  induction word generalizing n with
  | nil => rfl
  | cons c cs ih =>
    obtain ⟨notHere, notLater⟩ := not_or.mp (mt List.mem_cons.mpr noQuote)
    rw [escapeLoop, trailingSlashes, if_neg (Ne.symm notHere), ih notLater, ih notLater]
    by_cases slash : c = backslash
    · rw [if_pos slash, if_pos slash, slash, List.cons_append]
    · rw [if_neg slash, if_neg slash, List.cons_append]

/-- Each quote of a word costs a backslash more. -/
theorem escapeLoop_length (hasSpace : Bool) (n : Nat) (word : Bytes) :
    word.length + word.count dquote ≤ (escapeLoop hasSpace n word).length := by
  induction word generalizing n with
  | nil => simp
  | cons c cs ih =>
    rw [escapeLoop]
    by_cases slash : c = backslash
    · have later := ih (n + 1)
      rw [if_pos slash, List.count_cons_of_ne (by rw [slash]; decide)]
      simp only [List.length_cons]
      omega
    · have later := ih 0
      by_cases quote : c = dquote
      · rw [if_neg slash, if_pos quote, quote, List.count_cons_self]
        simp only [List.length_append, List.length_cons]
        omega
      · rw [if_neg slash, if_neg quote, List.count_cons_of_ne quote]
        simp only [List.length_cons]
        omega

/-- The bytes of an unwrapped word are its own, backslashes and quotes. -/
theorem escapeLoop_solid {word : Bytes} (solid : word.any isBlank = false) (n : Nat) :
    ∀ c ∈ escapeLoop false n word, isBlank c = false := by
  induction word generalizing n with
  | nil => exact List.forall_mem_nil _
  | cons c cs ih =>
    simp only [List.any_cons, Bool.or_eq_false_iff] at solid
    rw [escapeLoop]
    split_ifs with slash quote
    · exact List.forall_mem_cons.mpr ⟨rfl, ih solid.2 _⟩
    · refine List.forall_mem_append.mpr ⟨fun d member => ?_, ?_⟩
      · rw [List.eq_of_mem_replicate member]
        rfl
      · exact List.forall_mem_cons.mpr ⟨rfl, List.forall_mem_cons.mpr ⟨rfl, ih solid.2 _⟩⟩
    · exact List.forall_mem_cons.mpr ⟨solid.1, ih solid.2 _⟩

/-- The first byte of a word that no blank stands in, as it is escaped. -/
theorem escapeLoop_head {word : Bytes} (nonempty : word ≠ []) :
    ∃ c cs, escapeLoop false 0 word = c :: cs ∧ c ≠ dquote := by
  cases word with
  | nil => exact absurd rfl nonempty
  | cons c cs =>
    rw [escapeLoop]
    split_ifs with slash quote
    · exact ⟨backslash, _, rfl, by decide⟩
    · exact ⟨backslash, _, rfl, by decide⟩
    · exact ⟨c, _, rfl, quote⟩

theorem programWord_quoted {inner rest : Bytes} (noQuote : dquote ∉ inner) :
    programWord (dquote :: (inner ++ dquote :: rest)) = (inner, rest) := by
  have all : ∀ c ∈ inner, (c != dquote) = true := fun c member => by
    simpa using fun same : c = dquote => noQuote (same ▸ member)
  have stop : (dquote :: rest).head?.any (· != dquote) = false := rfl
  obtain ⟨taken, dropped⟩ := takeWhile_append_stop all stop
  rw [programWord, if_pos rfl, taken, dropped]
  rfl

/-- A word without blanks is read up to the first blank. -/
theorem programWord_solid {word rest : Bytes} (nonempty : word ≠ []) (solid : word.any isBlank = false)
    (ends : EndsWord rest) : programWord (escapeLoop false 0 word ++ rest) = (escapeLoop false 0 word, rest) := by
  obtain ⟨c, cs, spelled, notQuote⟩ := escapeLoop_head nonempty
  have all : ∀ c ∈ escapeLoop false 0 word, (! isBlank c) = true := fun c member => by
    rw [escapeLoop_solid solid 0 c member]
    rfl
  have stop : rest.head?.any (! isBlank ·) = false := by
    rcases ends with rfl | ⟨later, rfl⟩ <;> rfl
  obtain ⟨taken, dropped⟩ := takeWhile_append_stop all stop
  have line : escapeLoop false 0 word ++ rest = c :: (cs ++ rest) := by rw [spelled, List.cons_append]
  rw [line, programWord, if_neg notQuote, ← line, taken, dropped]

/-- A quote inside a wrapped word ends the program name there. -/
theorem programWord_cut (inner rest : Bytes) : dquote ∉ (programWord (dquote :: (inner ++ rest))).1 := by
  rw [programWord, if_pos rfl]
  intro member
  simpa using List.mem_takeWhile_imp member

/-- The first word is read back where it has no quote and does not end in a
backslash in quotes. -/
theorem programWord_wjEscapeArg {word rest : Bytes} (plain : ProgramWord word) (ends : EndsWord rest) :
    programWord (wjEscapeArg word ++ rest) = (word, rest) := by
  obtain ⟨noQuote, fits⟩ := plain
  by_cases empty : word = []
  · rw [empty]
    have noQuote : dquote ∉ ([] : Bytes) := List.not_mem_nil
    exact programWord_quoted noQuote
  · rw [wjEscapeArg_loop empty]
    cases blanks : word.any isBlank with
    | true =>
      have noRun : trailingSlashes 0 word = 0 :=
        trailingSlashes_zero.mpr ⟨fun _ => rfl, fun last => fits ⟨blanks, last⟩⟩
      rw [if_pos rfl, escapeLoop_unquoted noQuote, if_pos rfl, noRun]
      have read : programWord (dquote :: (word ++ dquote :: rest)) = (word, rest) := programWord_quoted noQuote
      simpa [slashRun] using read
    | false =>
      have itself : escapeLoop false 0 word = word := by simpa using escapeLoop_unquoted noQuote false 0
      have read := programWord_solid empty blanks ends
      rw [itself] at read
      rw [if_neg (by decide), List.nil_append, itself, read]

/-- And in no other case. -/
theorem programWord_wjEscapeArg_iff {word rest : Bytes} (ends : EndsWord rest) :
    (programWord (wjEscapeArg word ++ rest)).1 = word ↔ ProgramWord word := by
  refine ⟨fun same => ?_, fun plain => by rw [programWord_wjEscapeArg plain ends]⟩
  by_cases empty : word = []
  · subst empty
    exact ⟨List.not_mem_nil, by simp⟩
  rw [wjEscapeArg_loop empty] at same
  cases blanks : word.any isBlank with
  | true =>
    rw [blanks, if_pos rfl, List.append_assoc, List.singleton_append] at same
    have noQuote : dquote ∉ word := same ▸ programWord_cut _ rest
    refine ⟨noQuote, fun both => ?_⟩
    rw [escapeLoop_unquoted noQuote, if_pos rfl, ← List.append_assoc, List.append_assoc,
      List.singleton_append] at same
    have run : dquote ∉ word ++ slashRun (trailingSlashes 0 word) := fun member => by
      rcases List.mem_append.mp member with here | slash
      · exact noQuote here
      · exact absurd (List.eq_of_mem_replicate slash) (by decide)
    rw [programWord_quoted run] at same
    have noRun : slashRun (trailingSlashes 0 word) = [] := List.append_right_eq_self.mp same
    have zero : trailingSlashes 0 word = 0 := by simpa [slashRun] using noRun
    exact (trailingSlashes_zero.mp zero).2 both.2
  | false =>
    rw [blanks, if_neg (by decide), List.nil_append, programWord_solid empty blanks ends] at same
    refine ⟨fun quote => ?_, fun both => absurd (blanks.symm.trans both.1) (by decide)⟩
    have longer := escapeLoop_length false 0 word
    have counted := List.count_pos_iff.mpr quote
    have equal : (escapeLoop false 0 word).length = word.length := congrArg List.length same
    omega

theorem commandLineToArgv_wjMakeCmdline (word : Bytes) (args : List Bytes) :
    commandLineToArgv programWord (wjMakeCmdline (word :: args)) =
      (programWord (wjEscapeArg word ++ args.flatMap fun arg => space :: wjEscapeArg arg)).1 ::
        words .gap (programWord (wjEscapeArg word ++ args.flatMap fun arg => space :: wjEscapeArg arg)).2 := by
  obtain ⟨c, cs, spelled, _⟩ := wjEscapeArg_head word
  rw [wjMakeCmdline, spelled, List.cons_append, commandLineToArgv]

/-- A child sees the command line's words exactly where the program word has
no quote and does not end in a backslash behind a blank. -/
theorem argvWithArg0_seen_iff (arg0 : Option Bytes) (command : Bytes) (args : List Bytes) :
    commandLineToArgv programWord (wjMakeCmdline (argvWithArg0 arg0 (command :: args))) =
        argvWithArg0 arg0 (command :: args) ↔ ProgramWord (arg0.getD command) := by
  have words : argvWithArg0 arg0 (command :: args) = arg0.getD command :: args := by cases arg0 <;> rfl
  rw [words, commandLineToArgv_wjMakeCmdline]
  constructor
  · intro seen
    exact (programWord_wjEscapeArg_iff (endsWord_args args)).mp (List.cons.inj seen).1
  · intro plain
    rw [programWord_wjEscapeArg plain (endsWord_args args), words_args]

/-- `run -arg0 {my "tool} -- tool x`: the child is called `my \` and gets
the words `tool x` as one. -/
theorem argvWithArg0_seen_quote :
    parseArg0 (ascii "my \"tool") = .ok (ascii "my \"tool") ∧
      commandLineToArgv programWord (wjMakeCmdline (argvWithArg0 (some (ascii "my \"tool"))
        [ascii "tool", ascii "x"])) ≠
        [ascii "my \"tool", ascii "x"] := by
  decide

end Machteld
