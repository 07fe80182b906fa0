import Machteld.Cmdline.Batch

namespace Machteld

open Argv CmdExe

/-- The reference the encoder inserts, as the lexer reads it. -/
def CdReference : Piece Origin → Prop
  | .char _ => True
  | .ref opening name _ => opening = .cd ∧ name = mark .cd (ascii "cd:~,")

/-- A text whose percent signs all stand behind an inserted reference, and
what expansion leaves of it. -/
inductive Guarded : Marked → Marked → Prop
  | nil : Guarded [] []
  | char {c : UInt8} {origin : Origin} {text left : Marked} (other : c ≠ percent) :
      Guarded text left → Guarded ((c, origin) :: text) ((c, origin) :: left)
  | percent {origin : Origin} {text left : Marked} :
      Guarded text left →
      Guarded (mark .cd neutral ++ (Machteld.percent, origin) :: text) ((Machteld.percent, .cd) :: left)

theorem Guarded.append {a b leftA leftB : Marked} (first : Guarded a leftA) (second : Guarded b leftB) :
    Guarded (a ++ b) (leftA ++ leftB) := by
  induction first with
  | nil => exact second
  | char other _ ih => exact .char other ih
  | percent _ ih => simpa using Guarded.percent ih

theorem pieces_char {c : UInt8} (other : c ≠ percent) (origin : Origin) (rest : Marked) :
    pieces none ((c, origin) :: rest) = .char (c, origin) :: pieces none rest := by
  rw [pieces, if_neg other]

theorem pieces_neutral (origin : Origin) (rest : Marked) :
    pieces none (mark .cd neutral ++ (percent, origin) :: rest) =
      .char (percent, .cd) :: .ref .cd (mark .cd (ascii "cd:~,")) origin :: pieces none rest := rfl

/-- The lexer stays in step with the encoder: it opens a reference exactly
at the second inserted percent sign and closes it at the neutralized one. -/
theorem Guarded.references {text left : Marked} (guarded : Guarded text left) :
    ∀ piece ∈ pieces none text, CdReference piece := by
  induction guarded with
  | nil => simp [pieces]
  | char other _ ih =>
    rw [pieces_char other]
    intro piece member
    rcases List.mem_cons.mp member with rfl | later
    · trivial
    · exact ih piece later
  | percent _ ih =>
    rw [pieces_neutral]
    intro piece member
    rcases List.mem_cons.mp member with rfl | later
    · trivial
    · rcases List.mem_cons.mp later with rfl | later
      · exact ⟨rfl, rfl⟩
      · exact ih piece later

/-- A guarded text comes out of the expansion as what it guards: the only
references in it are the inserted ones, and these are empty. -/
theorem Guarded.expand {text left : Marked} (guarded : Guarded text left) {value : Bytes → Marked}
    (cdEmpty : value (ascii "cd:~,") = []) : expand value (pieces none text) = left := by
  induction guarded with
  | nil => rfl
  | char other _ ih => rw [pieces_char other]; exact congrArg _ ih
  | percent _ ih =>
    rw [pieces_neutral]
    have name : (mark .cd (ascii "cd:~,")).map Prod.fst = ascii "cd:~," := mark_fst _ _
    simp only [CmdExe.expand, List.flatMap_cons, name, cdEmpty, List.nil_append, List.singleton_append] at ih ⊢
    rw [ih]

def Origin.IsText : Origin → Prop
  | .script => True
  | .arg _ => True
  | _ => False

theorem isText_arg (i : Nat) : (Origin.arg i).IsText := trivial

/-- What has to hold of a character read with a given quoting state: a
metacharacter of the script or an argument is quoted, a separator is not. -/
def Sound (x : (UInt8 × Origin) × Bool) : Prop :=
  (x.1.2.IsText → x.1.1 ∈ metachars → x.2 = true) ∧ ∀ i, x.1.2 = .gap i → x.2 = false

/-- A piece of the expanded payload read from quoting state `q` to closed.
-/
structure Sealed (q : Bool) (left : Marked) : Prop where
  sound : ∀ x ∈ quoting q left, Sound x
  closed : quotedAfter q left = false

/-- Sealed texts in a row are sealed, where the first of them closes its quotes.
-/
theorem Sealed.append {q : Bool} {a b : Marked} (first : Sealed q a) (second : Sealed false b) :
    Sealed q (a ++ b) where
  sound := by
    intro x member
    rw [quoting_append, first.closed] at member
    rcases List.mem_append.mp member with left | right
    · exact first.sound x left
    · exact second.sound x right
  closed := by rw [quotedAfter_append, first.closed, second.closed]

theorem Sealed.cons {q : Bool} {x : UInt8 × Origin} {left : Marked} (here : Sound (x, q))
    (later : Sealed (if x.1 = dquote then !q else q) left) : Sealed q (x :: left) where
  sound := by
    intro y member
    rcases List.mem_cons.mp member with rfl | inLeft
    · exact here
    · exact later.sound y inLeft
  closed := later.closed

theorem Sealed.plain {q : Bool} {c : UInt8} {origin : Origin} {left : Marked} (other : c ≠ dquote)
    (here : Sound ((c, origin), q)) (later : Sealed q left) : Sealed q ((c, origin) :: left) :=
  .cons here (by rw [if_neg other]; exact later)

theorem Sealed.opens {origin : Origin} {left : Marked} (here : Sound ((dquote, origin), false))
    (later : Sealed true left) : Sealed false ((dquote, origin) :: left) :=
  .cons here later

theorem Sealed.closes {origin : Origin} {left : Marked} (here : Sound ((dquote, origin), true))
    (later : Sealed false left) : Sealed true ((dquote, origin) :: left) :=
  .cons here later

theorem sealed_nil : Sealed false [] := ⟨by simp [quoting], rfl⟩

theorem sound_quoting (c : UInt8) (q : Bool) : Sound ((c, .quoting), q) := ⟨False.elim, fun _ => nofun⟩

theorem sound_cd (c : UInt8) (q : Bool) : Sound ((c, .cd), q) := ⟨False.elim, fun _ => nofun⟩

theorem sound_quoted {c : UInt8} {origin : Origin} (text : origin.IsText) : Sound ((c, origin), true) :=
  ⟨fun _ _ => rfl, fun i same => by subst same; exact text.elim⟩

theorem sound_plain {c : UInt8} {origin : Origin} (text : origin.IsText) (plain : c ∉ metachars) (q : Bool) :
    Sound ((c, origin), q) :=
  ⟨fun _ bad => absurd bad plain, fun i same => by subst same; exact text.elim⟩

theorem guarded_quoting (s : Bytes) (plain : percent ∉ s) : Guarded (mark .quoting s) (mark .quoting s) := by
  induction s with
  | nil => exact .nil
  | cons c s ih =>
    simp only [List.mem_cons, not_or] at plain
    exact .char (Ne.symm plain.1) (ih plain.2)

theorem Sealed.slashes {q : Bool} {left : Marked} (later : Sealed q left) (n : Nat) :
    Sealed q (mark .quoting (slashRun n) ++ left) := by
  induction n with
  | zero => exact later
  | succ n ih => exact .plain (by decide) (sound_quoting _ _) ih

/-- Inside quotes every character of the argument is quoted: an embedded
quote is preceded by a second one, so quoting is open again behind it. -/
theorem markedLoop_quoted (i n : Nat) {arg : Bytes} (oneLine : cr ∉ arg) :
    ∃ left, Guarded (markedLoop true i n arg) left ∧ Sealed true left := by
  induction arg generalizing n with
  | nil =>
    refine ⟨mark .quoting (slashRun n) ++ [(dquote, .quoting)],
      (guarded_quoting _ (percent_not_mem_slashRun n)).append (.char (by decide) .nil), ?_⟩
    exact Sealed.slashes (.closes (sound_quoting _ _) sealed_nil) n
  | cons c cs ih =>
    simp only [List.mem_cons, not_or] at oneLine
    rw [markedLoop]
    split_ifs with isSlash isQuote isPercent
    · obtain ⟨left, guarded, quoted⟩ := ih (n + 1) oneLine.2
      subst isSlash
      exact ⟨_, .char (by decide) guarded, .plain (by decide) (sound_quoted trivial) quoted⟩
    · obtain ⟨left, guarded, quoted⟩ := ih 0 oneLine.2
      subst isQuote
      refine ⟨_, (guarded_quoting _ (percent_not_mem_slashRun n)).append
        (.char (by decide) (.char (by decide) guarded)), ?_⟩
      have inner : Sound ((dquote, Origin.arg i), false) := sound_plain (isText_arg i) (by decide) _
      exact Sealed.slashes (.closes (sound_quoting _ _) (.opens inner quoted)) n
    · obtain ⟨left, guarded, quoted⟩ := ih 0 oneLine.2
      obtain rfl := isPercent.resolve_right (Ne.symm oneLine.1)
      exact ⟨_, .percent guarded, .plain (by decide) (sound_cd _ _) quoted⟩
    · obtain ⟨left, guarded, quoted⟩ := ih 0 oneLine.2
      simp only [not_or] at isPercent
      exact ⟨_, .char isPercent.1 guarded, .plain isQuote (sound_quoted trivial) quoted⟩

theorem needsQuote_metachars {c : UInt8} (meta' : c ∈ metachars) : needsQuote c = true := by
  have all : metachars.all needsQuote = true := by decide
  exact List.all_eq_true.mp all c meta'

/-- An argument left unquoted holds none of the characters that would need
it. -/
theorem markedLoop_plain (i n : Nat) {arg : Bytes} (plain : arg.any needsQuote = false) :
    ∃ left, Guarded (markedLoop false i n arg) left ∧ Sealed false left := by
  induction arg generalizing n with
  | nil => exact ⟨[], .nil, sealed_nil⟩
  | cons c cs ih =>
    simp only [List.any_cons, Bool.or_eq_false_iff] at plain
    have notMeta : c ∉ metachars := fun bad => by rw [needsQuote_metachars bad] at plain; cases plain.1
    have notPercent : c ≠ percent := by rintro rfl; exact absurd plain.1 (by decide)
    have notCr : c ≠ cr := by rintro rfl; exact absurd plain.1 (by decide)
    have notQuote : c ≠ dquote := by rintro rfl; exact absurd plain.1 (by decide)
    have extend : ∀ {text left}, Guarded text left → Sealed false left →
        ∃ left, Guarded ((c, .arg i) :: text) left ∧ Sealed false left := by
      intro text left guarded closed
      have here : Sound ((c, Origin.arg i), false) := sound_plain (isText_arg i) notMeta _
      exact ⟨_, .char notPercent guarded, .plain notQuote here closed⟩
    rw [markedLoop]
    split_ifs with isSlash isPercent
    · obtain ⟨left, guarded, closed⟩ := ih (n + 1) plain.2
      exact extend guarded closed
    · exact absurd isPercent (by simp [notPercent, notCr])
    · obtain ⟨left, guarded, closed⟩ := ih 0 plain.2
      exact extend guarded closed

/-- An argument comes out of the expansion in quotes of its own, which are
closed at its end, so no byte of it is read outside quotes. -/
theorem markedArg_sealed (i : Nat) {arg : Bytes} (oneLine : cr ∉ arg) :
    ∃ left, Guarded (markedArg i arg) left ∧ Sealed false left := by
  rw [markedArg]
  cases quote : batchQuote arg with
  | true =>
    obtain ⟨left, guarded, quoted⟩ := markedLoop_quoted i 0 oneLine
    exact ⟨_, .char (by decide) guarded, .opens (sound_quoting _ _) quoted⟩
  | false =>
    simp only [batchQuote, Bool.or_eq_false_iff] at quote
    exact markedLoop_plain i 0 quote.2

/-- So do all of them. -/
theorem markedArgs_sealed (i : Nat) {args : List Bytes} (oneLine : ∀ arg ∈ args, cr ∉ arg) :
    ∃ left, Guarded (markedArgs i args) left ∧ Sealed false left := by
  induction args generalizing i with
  | nil => exact ⟨[], .nil, sealed_nil⟩
  | cons arg args ih =>
    obtain ⟨left, guarded, closed⟩ := markedArg_sealed i (oneLine arg (List.mem_cons_self ..))
    obtain ⟨tail, guardedTail, closedTail⟩ := ih (i + 1) fun a member => oneLine a (List.mem_cons_of_mem _ member)
    have separator : Sound ((space, Origin.gap i), false) := ⟨False.elim, fun _ _ => rfl⟩
    exact ⟨_, (Guarded.char (by decide) guarded).append guardedTail,
      (Sealed.plain (by decide) separator closed).append closedTail⟩

/-- The name of the script comes out in quotes of its own. -/
theorem markedScript_sealed {script : Bytes} (noQuote : dquote ∉ script) :
    ∃ left, Guarded (markedScript script) left ∧ Sealed false left := by
  have inside : ∃ left, Guarded ((script.flatMap fun c =>
      if c = percent then mark .cd neutral ++ [(c, Origin.script)] else [(c, Origin.script)]) ++
        [(dquote, Origin.quoting)]) left ∧ Sealed true left := by
    induction script with
    | nil => exact ⟨_, .char (by decide) .nil, .closes (sound_quoting _ _) sealed_nil⟩
    | cons c cs ih =>
      simp only [List.mem_cons, not_or] at noQuote
      obtain ⟨left, guarded, quoted⟩ := ih noQuote.2
      rw [List.flatMap_cons, List.append_assoc]
      split_ifs with isPercent
      · subst isPercent
        rw [List.append_assoc, List.singleton_append]
        exact ⟨_, .percent guarded, .plain (by decide) (sound_cd _ _) quoted⟩
      · exact ⟨_, .char isPercent guarded, .plain (Ne.symm noQuote.1) (sound_quoted trivial) quoted⟩
  obtain ⟨left, guarded, quoted⟩ := inside
  exact ⟨_, .char (by decide) guarded, .opens (sound_quoting _ _) quoted⟩

theorem bytesFrom_append (origin : Origin) (a b : Marked) :
    bytesFrom origin (a ++ b) = bytesFrom origin a ++ bytesFrom origin b := by
  simp [bytesFrom]

theorem bytesFrom_mark {origin other : Origin} (different : other ≠ origin) (s : Bytes) :
    bytesFrom origin (mark other s) = [] := by
  simp [bytesFrom, mark, different]

theorem bytesFrom_cons (origin : Origin) (c : UInt8) (other : Origin) (text : Marked) :
    bytesFrom origin ((c, other) :: text) =
      if other = origin then c :: bytesFrom origin text else bytesFrom origin text := by
  by_cases same : other = origin <;> simp [bytesFrom, same]

theorem Origin.IsText.ne_quoting {origin : Origin} (text : origin.IsText) : Origin.quoting ≠ origin := by
  rintro rfl; exact text

theorem Origin.IsText.ne_cd {origin : Origin} (text : origin.IsText) : Origin.cd ≠ origin := by
  rintro rfl; exact text

theorem Origin.IsText.ne_gap {origin : Origin} (text : origin.IsText) (i : Nat) : Origin.gap i ≠ origin := by
  rintro rfl; exact text

theorem bytesFrom_markedLoop {origin : Origin} (text : origin.IsText) (quote : Bool) (i n : Nat) (arg : Bytes) :
    bytesFrom origin (markedLoop quote i n arg) = if Origin.arg i = origin then arg else [] := by
  induction arg generalizing n with
  | nil =>
    cases quote <;> simp [markedLoop, bytesFrom_append, bytesFrom_mark text.ne_quoting, bytesFrom_cons,
      text.ne_quoting] <;> simp [bytesFrom]
  | cons c cs ih =>
    rw [markedLoop]
    split_ifs <;> simp_all [bytesFrom_append, bytesFrom_mark text.ne_quoting, bytesFrom_mark text.ne_cd,
      bytesFrom_cons, text.ne_quoting]

theorem bytesFrom_markedArg {origin : Origin} (text : origin.IsText) (i : Nat) (arg : Bytes) :
    bytesFrom origin (markedArg i arg) = if Origin.arg i = origin then arg else [] := by
  have opening : bytesFrom origin (if batchQuote arg then [(dquote, Origin.quoting)] else []) = [] := by
    split_ifs
    · simp [bytesFrom, text.ne_quoting]
    · rfl
  rw [markedArg, bytesFrom_append, opening, bytesFrom_markedLoop text, List.nil_append]

theorem bytesFrom_markedArgs_script (i : Nat) (args : List Bytes) : bytesFrom .script (markedArgs i args) = [] := by
  induction args generalizing i with
  | nil => rfl
  | cons arg args ih =>
    simp [markedArgs, bytesFrom_append, bytesFrom_cons,
      bytesFrom_markedArg (show Origin.script.IsText from trivial), ih]

/-- The bytes that come from an argument are the argument's, in their order.
-/
theorem bytesFrom_markedArgs {i j : Nat} {args : List Bytes} :
    bytesFrom (.arg j) (markedArgs i args) = if i ≤ j then args.getD (j - i) [] else [] := by
  induction args generalizing i with
  | nil => simp [markedArgs, bytesFrom]
  | cons arg args ih =>
    simp only [markedArgs, List.cons_append, bytesFrom_append, bytesFrom_cons, (isText_arg j).ne_gap, if_false,
      bytesFrom_markedArg (isText_arg j), ih, Origin.arg.injEq]
    rcases Nat.lt_trichotomy i j with less | same | more
    · obtain ⟨k, rfl⟩ : ∃ k, j = i + 1 + k := ⟨j - (i + 1), by omega⟩
      have here : i + 1 + k - i = k + 1 := by omega
      simp [show i ≠ i + 1 + k by omega, show i ≤ i + 1 + k by omega, here]
    · subst same
      simp [show ¬ i + 1 ≤ i by omega]
    · simp [show i ≠ j by omega, show ¬ i + 1 ≤ j by omega, show ¬ i ≤ j by omega]

/-- The bytes that come from the name of the script are the name's. -/
theorem bytesFrom_markedScript {origin : Origin} (text : origin.IsText) (script : Bytes) :
    bytesFrom origin (markedScript script) = if Origin.script = origin then script else [] := by
  have inside : bytesFrom origin (script.flatMap fun c =>
      if c = percent then mark .cd neutral ++ [(c, Origin.script)] else [(c, Origin.script)]) =
        if Origin.script = origin then script else [] := by
    induction script with
    | nil => simp [bytesFrom]
    | cons c cs ih =>
      rw [List.flatMap_cons, bytesFrom_append, ih]
      split_ifs <;> simp_all [bytesFrom_append, bytesFrom_mark text.ne_cd, bytesFrom_cons] <;> simp [bytesFrom]
  rw [markedScript, bytesFrom_append, bytesFrom_cons, if_neg text.ne_quoting, inside]
  simp [bytesFrom, text.ne_quoting]

theorem not_mem_of_contains {c : UInt8} {s : Bytes} (absent : s.contains c = false) : c ∉ s := by
  intro member
  rw [List.contains_iff_mem.mpr member] at absent
  cases absent

/-- What acceptance by `wj_make_batch_cmdline` means for its inputs and its
output. -/
theorem wjMakeBatchCmdline_ok {script line : Bytes} {args : List Bytes}
    (accepted : wjMakeBatchCmdline script args = .ok line) :
    dquote ∉ script ∧ (∀ arg ∈ args, cr ∉ arg) ∧
      line = batchPrefix ++ (dquote :: (markedBody script args).map Prod.fst ++ [dquote]) := by
  unfold wjMakeBatchCmdline at accepted
  split_ifs at accepted with badScript badLine badArg
  simp only [Bool.or_eq_true, not_or, Bool.not_eq_true] at badScript
  refine ⟨not_mem_of_contains badScript.1, ?_, ?_⟩
  · intro arg member
    have fine : hasCrOrLf arg = false := by
      by_contra bad
      exact badArg (List.any_eq_true.mpr ⟨arg, member, by simpa using bad⟩)
    simp only [hasCrOrLf, Bool.or_eq_false_iff] at fine
    exact not_mem_of_contains fine.1
  · simp only [Except.ok.injEq] at accepted
    rw [← accepted, markedBody_fst]
    simp

/-- An accepted batch command line, lexed as `cmd.exe` does: after the outer
quotes are dropped, the only references expanded are the inserted ones, no
metacharacter of the script or an argument is read outside quotes, and
quoting is closed at every separator and at the end. -/
theorem wjMakeBatchCmdline_inert {script line : Bytes} {args : List Bytes} {value : Bytes → Marked}
    (accepted : wjMakeBatchCmdline script args = .ok line) (cdEmpty : value (ascii "cd:~,") = []) :
    ∃ payload, line = batchPrefix ++ payload ∧
      dropOuterQuotes payload = some ((markedBody script args).map Prod.fst) ∧
      bytesFrom .script (markedBody script args) = script ∧
      (∀ i arg, args[i]? = some arg → bytesFrom (.arg i) (markedBody script args) = arg) ∧
      (∀ piece ∈ pieces none (markedBody script args), CdReference piece) ∧
      (∀ x ∈ quoting false (expand value (pieces none (markedBody script args))), Sound x) ∧
      quotedAfter false (expand value (pieces none (markedBody script args))) = false := by
  obtain ⟨noQuote, oneLine, spelled⟩ := wjMakeBatchCmdline_ok accepted
  obtain ⟨left, guarded, closed⟩ := markedScript_sealed noQuote
  obtain ⟨tail, guardedTail, closedTail⟩ := markedArgs_sealed 0 oneLine
  have whole : Guarded (markedBody script args) (left ++ tail) := guarded.append guardedTail
  have sealed := closed.append closedTail
  rw [whole.expand cdEmpty]
  refine ⟨_, spelled, dropOuterQuotes_wrap _, ?_, ?_, whole.references, sealed.sound, sealed.closed⟩
  · rw [markedBody, bytesFrom_append, bytesFrom_markedScript (show Origin.script.IsText from trivial),
      bytesFrom_markedArgs_script, if_pos rfl, List.append_nil]
  · intro i arg present
    rw [markedBody, bytesFrom_append, bytesFrom_markedScript (isText_arg i), bytesFrom_markedArgs]
    simp [present]

theorem wjMakeBatchCmdline_inert_sample :
    ∃ payload, ascii "cmd.exe /e:ON /v:OFF /d /c \"\"x.bat\" \"%%cd:~,%FOO%%cd:~,%\" \"a\"\"&b\"\"" =
        batchPrefix ++ payload ∧
      dropOuterQuotes payload =
        some ((markedBody (ascii "x.bat") [ascii "%FOO%", ascii "a\"&b"]).map Prod.fst) ∧
      bytesFrom .script (markedBody (ascii "x.bat") [ascii "%FOO%", ascii "a\"&b"]) = ascii "x.bat" ∧
      (∀ i arg, [ascii "%FOO%", ascii "a\"&b"][i]? = some arg →
        bytesFrom (.arg i) (markedBody (ascii "x.bat") [ascii "%FOO%", ascii "a\"&b"]) = arg) ∧
      (∀ piece ∈ pieces none (markedBody (ascii "x.bat") [ascii "%FOO%", ascii "a\"&b"]), CdReference piece) ∧
      (∀ x ∈ quoting false (expand (fun _ => [])
        (pieces none (markedBody (ascii "x.bat") [ascii "%FOO%", ascii "a\"&b"]))), Sound x) ∧
      quotedAfter false (expand (fun _ => [])
        (pieces none (markedBody (ascii "x.bat") [ascii "%FOO%", ascii "a\"&b"]))) = false :=
  wjMakeBatchCmdline_inert (by rfl) rfl

end Machteld
