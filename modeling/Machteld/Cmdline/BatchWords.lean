import Machteld.Cmdline.Batch
import Machteld.Cmdline.ProgramWord
import Machteld.Crt

namespace Machteld

open Argv CmdExe

/-- The text after percent expansion, given what each name expands to. -/
def expandPercent (value : Bytes → Bytes) (text : Bytes) : Bytes :=
  (expand (fun name => (value name).map fun c => (c, ())) (pieces none (text.map fun c => (c, ())))).map Prod.fst

/-- The loop of `append_batch_arg` without the references it inserts. -/
def quoteLoop (quote : Bool) : Nat → Bytes → Bytes
  | backslashes, [] => if quote then slashRun backslashes ++ [dquote] else []
  | backslashes, c :: cs =>
    if c = backslash then c :: quoteLoop quote (backslashes + 1) cs
    else if c = dquote then slashRun backslashes ++ dquote :: c :: quoteLoop quote 0 cs
    else c :: quoteLoop quote 0 cs

def quotedBatchArg (arg : Bytes) : Bytes :=
  (if batchQuote arg then [dquote] else []) ++ quoteLoop (batchQuote arg) 0 arg

section

variable {value : Bytes → Bytes}

theorem expandPercent_cons {c : UInt8} (other : c ≠ percent) (rest : Bytes) :
    expandPercent value (c :: rest) = c :: expandPercent value rest := by
  simp [expandPercent, pieces, expand, other]

theorem expandPercent_append {a : Bytes} (plain : percent ∉ a) (rest : Bytes) :
    expandPercent value (a ++ rest) = a ++ expandPercent value rest := by
  induction a with
  | nil => rfl
  | cons c cs ih =>
    obtain ⟨notHere, notLater⟩ := not_or.mp (mt List.mem_cons.mpr plain)
    rw [List.cons_append, expandPercent_cons (Ne.symm notHere), ih notLater, List.cons_append]

/-- An inserted reference goes away and leaves the percent sign in front of
it. -/
theorem expandPercent_neutral (cdEmpty : value (ascii "cd:~,") = []) (rest : Bytes) :
    expandPercent value (neutral ++ percent :: rest) = percent :: expandPercent value rest := by
  have lexed : pieces none ((neutral ++ percent :: rest).map fun c => (c, ())) =
      .char (percent, ()) :: .ref () ((ascii "cd:~,").map fun c => (c, ())) () ::
        pieces none (rest.map fun c => (c, ())) := rfl
  have name : ((ascii "cd:~,").map fun c => (c, ())).map Prod.fst = ascii "cd:~," := rfl
  simp only [expandPercent, lexed, expand, List.flatMap_cons, name, cdEmpty, List.map_nil, List.nil_append,
    List.singleton_append, List.map_cons]

/-- A text whose percent signs are neutralized is expanded to itself. -/
theorem expandPercent_neutralized (cdEmpty : value (ascii "cd:~,") = []) (s rest : Bytes) :
    expandPercent value (appendNeutralized s ++ rest) = s ++ expandPercent value rest := by
  induction s with
  | nil => rfl
  | cons c cs ih =>
    rw [appendNeutralized, List.flatMap_cons, ← appendNeutralized, List.append_assoc]
    split_ifs with isPercent
    · rw [isPercent, List.append_assoc, List.singleton_append, expandPercent_neutral cdEmpty, ih, List.cons_append]
    · rw [List.singleton_append, expandPercent_cons isPercent, ih, List.cons_append]

/-- Percent signs of an argument are neutralized wherever they stand, in
front of a quote or of a backslash too. The induction is on the bytes, with
the backslashes counted. -/
theorem expandPercent_batchLoop (cdEmpty : value (ascii "cd:~,") = []) (quote : Bool) {arg : Bytes}
    (oneLine : cr ∉ arg)
    (n : Nat) (rest : Bytes) :
    expandPercent value (batchLoop quote n arg ++ rest) = quoteLoop quote n arg ++ expandPercent value rest := by
  induction arg generalizing n with
  | nil =>
    cases quote with
    | false => rfl
    | true =>
      have plain : percent ∉ slashRun n ++ [dquote] := fun member => by
        rcases List.mem_append.mp member with slash | quote
        · exact percent_not_mem_slashRun n slash
        · exact absurd (List.mem_singleton.mp quote) (by decide)
      exact expandPercent_append plain rest
  | cons c cs ih =>
    obtain ⟨notHere, notLater⟩ := not_or.mp (mt List.mem_cons.mpr oneLine)
    rw [batchLoop, quoteLoop]
    by_cases slash : c = backslash
    · rw [if_pos slash, if_pos slash, List.cons_append, expandPercent_cons (by rw [slash]; decide), ih notLater,
        List.cons_append]
    · by_cases isQuote : c = dquote
      · rw [if_neg slash, if_neg slash, if_pos isQuote, if_pos isQuote, List.append_assoc, List.append_assoc,
          expandPercent_append (percent_not_mem_slashRun n), List.cons_append, List.cons_append, List.cons_append,
          List.cons_append, expandPercent_cons (by decide),
            expandPercent_cons (by rw [isQuote]; decide), ih notLater]
      · rw [if_neg slash, if_neg slash, if_neg isQuote, if_neg isQuote]
        split_ifs with isPercent
        · have same := isPercent.resolve_right (Ne.symm notHere)
          rw [List.append_assoc, List.cons_append, same, expandPercent_neutral cdEmpty, ih notLater,
            List.cons_append]
        · rw [List.cons_append, expandPercent_cons (fun same => isPercent (Or.inl same)), ih notLater,
            List.cons_append]

theorem expandPercent_batchArg (cdEmpty : value (ascii "cd:~,") = []) {arg : Bytes} (oneLine : cr ∉ arg)
    (rest : Bytes) :
    expandPercent value (appendBatchArg arg ++ rest) = quotedBatchArg arg ++ expandPercent value rest := by
  rw [appendBatchArg, quotedBatchArg, List.append_assoc, List.append_assoc]
  split_ifs
  · rw [List.singleton_append, List.singleton_append, expandPercent_cons (by decide),
      expandPercent_batchLoop cdEmpty _ oneLine]
  · rw [List.nil_append, List.nil_append, expandPercent_batchLoop cdEmpty _ oneLine]

/-- By induction on the arguments. -/
theorem expandPercent_batchArgs (cdEmpty : value (ascii "cd:~,") = []) {args : List Bytes}
    (oneLine : ∀ arg ∈ args, cr ∉ arg) (rest : Bytes) :
    expandPercent value ((args.flatMap fun arg => space :: appendBatchArg arg) ++ rest) =
      (args.flatMap fun arg => space :: quotedBatchArg arg) ++ expandPercent value rest := by
  induction args with
  | nil => rfl
  | cons arg args ih =>
    obtain ⟨here, later⟩ := List.forall_mem_cons.mp oneLine
    rw [List.flatMap_cons, List.flatMap_cons, List.append_assoc, List.append_assoc, List.cons_append,
      List.cons_append,
      expandPercent_cons (by decide), expandPercent_batchArg cdEmpty here, ih later]

end

/-- Inside quotes the splitter's pending backslashes are the loop's count.
-/
theorem words_quoteLoop {rest : Bytes} (ends : EndsWord rest) (arg : Bytes) (n : Nat) (text : Bytes) :
    Crt.words (.word true n text) (quoteLoop true n arg ++ rest) =
      (text ++ slashRun n ++ arg) :: Crt.words .gap rest := by
  induction arg generalizing n text with
  | nil =>
    rw [quoteLoop, if_pos rfl, List.append_assoc, List.singleton_append, Crt.words_slashRun, Crt.words_closes ends,
      List.append_nil]
  | cons c cs ih =>
    rw [quoteLoop]
    split_ifs with isSlash isQuote
    · have step := Crt.words_slashRun true n 1 text (quoteLoop true (n + 1) cs ++ rest)
      rw [isSlash, List.cons_append]
      refine step.trans ((ih (n + 1) text).trans ?_)
      simp [slashRun_succ]
    · rw [isQuote, List.append_assoc, List.cons_append, List.cons_append, Crt.words_slashRun, Crt.words_doubled, ih]
      simp [slashRun]
    · rw [List.cons_append, Crt.words_plain (Or.inl rfl) isSlash isQuote, ih]
      simp [slashRun]

theorem needsQuote_solid {c : UInt8} (plain : needsQuote c = false) : isBlank c = false ∧ c ≠ dquote := by
  constructor
  · by_contra blank
    have yes : isBlank c = true := by simpa only [Bool.not_eq_false] using blank
    have either : c = space ∨ c = tab := by simpa [isBlank] using yes
    rcases either with rfl | rfl
    · exact absurd plain (by decide)
    · exact absurd plain (by decide)
  · rintro rfl
    exact absurd plain (by decide)

theorem quoteLoop_plain {arg : Bytes} (noQuote : dquote ∉ arg) (n : Nat) : quoteLoop false n arg = arg := by
  induction arg generalizing n with
  | nil => rfl
  | cons c cs ih =>
    obtain ⟨notHere, notLater⟩ := not_or.mp (mt List.mem_cons.mpr noQuote)
    rw [quoteLoop, if_neg (Ne.symm notHere), ih notLater, ih notLater, ite_self]

/-- A quoted argument is read as one word, the argument itself. -/
theorem words_quotedBatchArg {rest : Bytes} (ends : EndsWord rest) (arg : Bytes) :
    Crt.words .gap (quotedBatchArg arg ++ rest) = arg :: Crt.words .gap rest := by
  rw [quotedBatchArg]
  cases quote : batchQuote arg with
  | true =>
    rw [if_pos rfl, List.append_assoc, List.singleton_append, Crt.words_opens, words_quoteLoop ends]
    rfl
  | false =>
    simp only [batchQuote, Bool.or_eq_false_iff] at quote
    have solid : ∀ c ∈ arg, isBlank c = false ∧ c ≠ dquote := fun c member =>
      needsQuote_solid (by simpa using List.any_eq_false.mp quote.2 c member)
    have noQuote : dquote ∉ arg := fun member => (solid _ member).2 rfl
    rw [if_neg (by decide), List.nil_append, quoteLoop_plain noQuote]
    cases arg with
    | nil => exact absurd quote.1.1 (by decide)
    | cons c cs =>
      have entered := Crt.words_gap (solid c (List.mem_cons_self ..)).1 (cs ++ rest)
      exact entered.trans (Crt.words_bare solid ends 0 [])

theorem endsWord_batchArgs (args : List Bytes) :
    EndsWord (args.flatMap fun arg => space :: quotedBatchArg arg) := by
  cases args with
  | nil => exact Or.inl rfl
  | cons arg args => exact Or.inr ⟨_, rfl⟩

theorem words_batchArgs (args : List Bytes) :
    Crt.words .gap (args.flatMap fun arg => space :: quotedBatchArg arg) = args := by
  induction args with
  | nil => rfl
  | cons arg args ih =>
    rw [List.flatMap_cons, List.cons_append, Crt.words_space, words_quotedBatchArg (endsWord_batchArgs args), ih]

/-- A script path without quotes, between its own. -/
theorem words_script {script rest : Bytes} (noQuote : dquote ∉ script) (noSlash : script.getLast? ≠ some backslash)
    (ends : EndsWord rest) :
    Crt.words .gap (dquote :: (script ++ dquote :: rest)) = script :: Crt.words .gap rest := by
  have copied : quoteLoop true 0 script = script ++ slashRun (trailingSlashes 0 script) ++ [dquote] := by
    have general : ∀ n, quoteLoop true n script = script ++ slashRun (trailingSlashes n script) ++ [dquote] := by
      clear noSlash
      induction script with
      | nil => intro n; rfl
      | cons c cs ih =>
        obtain ⟨notHere, notLater⟩ := not_or.mp (mt List.mem_cons.mpr noQuote)
        intro n
        rw [quoteLoop, trailingSlashes, if_neg (Ne.symm notHere), ih notLater, ih notLater]
        by_cases slash : c = backslash
        · rw [if_pos slash, if_pos slash, List.cons_append, List.cons_append]
        · rw [if_neg slash, if_neg slash, List.cons_append, List.cons_append]
    exact general 0
  have noRun : trailingSlashes 0 script = 0 := trailingSlashes_zero.mpr ⟨fun _ => rfl, noSlash⟩
  have spelled : script ++ dquote :: rest = quoteLoop true 0 script ++ rest := by
    rw [copied, noRun]
    simp [slashRun]
  rw [Crt.words_opens, spelled, words_quoteLoop ends]
  rfl

/-- The script path and the arguments arrive as they were given, whether the
first word is read by the rule of its position or by the rule of the others.
-/
theorem wjMakeBatchCmdline_words {script line : Bytes} {args : List Bytes} {value : Bytes → Bytes}
    (accepted : wjMakeBatchCmdline script args = .ok line) (cdEmpty : value (ascii "cd:~,") = []) :
    ∃ payload rest, line = batchPrefix ++ payload ∧ dropOuterQuotes (expandPercent value payload) = some rest ∧
      Crt.words .gap rest = script :: args ∧
      (programWord rest).1 :: Crt.words .gap (programWord rest).2 = script :: args := by
  unfold wjMakeBatchCmdline at accepted
  split_ifs at accepted with badScript badLine badArg
  simp only [Bool.or_eq_true, not_or, Bool.not_eq_true] at badScript
  have noQuote : dquote ∉ script := by simpa using badScript.1
  have noSlash : script.getLast? ≠ some backslash := by simpa using badScript.2
  have oneLine : ∀ arg ∈ args, cr ∉ arg := by
    intro arg member present
    have fine : hasCrOrLf arg = false := by
      by_contra bad
      exact badArg (List.any_eq_true.mpr ⟨arg, member, by simpa using bad⟩)
    simp only [hasCrOrLf, Bool.or_eq_false_iff] at fine
    simp [present] at fine
  have line := Except.ok.inj accepted
  have ends := endsWord_batchArgs args
  refine ⟨dquote :: (dquote :: appendNeutralized script ++ [dquote] ++
      args.flatMap fun arg => space :: appendBatchArg arg) ++ [dquote],
    dquote :: (script ++ dquote :: args.flatMap fun arg => space :: quotedBatchArg arg), by
      rw [← line]; simp, ?_, ?_, ?_⟩
  · have expanded : expandPercent value (dquote :: (dquote :: appendNeutralized script ++ [dquote] ++
        args.flatMap fun arg => space :: appendBatchArg arg) ++ [dquote]) =
          dquote :: (dquote :: (script ++ dquote :: args.flatMap fun arg => space :: quotedBatchArg arg)) ++
            [dquote] := by
      simp only [List.cons_append, List.append_assoc, List.nil_append]
      rw [expandPercent_cons (by decide), expandPercent_cons (by decide), expandPercent_neutralized cdEmpty,
        expandPercent_cons (by decide), expandPercent_batchArgs cdEmpty oneLine]
      rfl
    rw [expanded, dropOuterQuotes_wrap]
  · rw [words_script noQuote noSlash ends, words_batchArgs]
  · rw [programWord_quoted noQuote, words_batchArgs]

theorem wjMakeBatchCmdline_words_sample :
    ∃ payload rest, ascii "cmd.exe /e:ON /v:OFF /d /c \"\"x.bat\" \"%%cd:~,%FOO%%cd:~,%\\\\\" \"a\"\"&b\"\"" =
        batchPrefix ++ payload ∧ dropOuterQuotes (expandPercent (fun _ => []) payload) = some rest ∧
      Crt.words .gap rest = [ascii "x.bat", ascii "%FOO%\\", ascii "a\"&b"] ∧
      (programWord rest).1 :: Crt.words .gap (programWord rest).2 =
        [ascii "x.bat", ascii "%FOO%\\", ascii "a\"&b"] :=
  wjMakeBatchCmdline_words (by rfl) rfl

end Machteld
