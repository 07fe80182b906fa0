import Machteld.Channel
import Machteld.Json.Value

namespace Machteld

abbrev ctrlZ : UInt8 := 0x1A

/-- U+FEFF in UTF-8 -/
def byteOrderMark : Bytes := [0xEF, 0xBB, 0xBF]

/-- The end of a file for `source`: the first control-Z. -/
def cutEof (bytes : Bytes) : Bytes := bytes.takeWhile (· != ctrlZ)

/-- A byte-order mark at the head is passed over. -/
def skipMark (s : Bytes) : Bytes := if byteOrderMark <+: s then s.drop 3 else s

/-- The loop behind the decoder in `capture_native_startup`. -/
def foldNewlines : Bytes → Bytes
  | [] => []
  | [c] => [if c = cr then lf else c]
  | c :: d :: cs =>
    if c = cr then
      if d = lf then lf :: foldNewlines cs else lf :: foldNewlines (d :: cs)
    else c :: foldNewlines (d :: cs)

/-- The script of `capture_native_startup`: strict UTF-8 behind one mark. -/
def captureNativeStartup (bytes : Bytes) : Option Bytes :=
  (channelRead (skipMark (cutEof bytes))).map foldNewlines

/-- `-translation auto`: a line feed right behind a carriage return is
dropped. -/
def autoTranslate : Bool → Bytes → Bytes
  | _, [] => []
  | sawCr, c :: cs =>
    if c = cr then lf :: autoTranslate true cs
    else if sawCr ∧ c = lf then autoTranslate false cs
    else c :: autoTranslate false cs

/-- `Tcl_ReadChars` in `validate_file`: the channel stops at a control-Z and
keeps a mark. -/
def readFileChars (bytes : Bytes) : Option Bytes := (channelRead (cutEof bytes)).map (autoTranslate false)

/-- What `Tcl_ParseCommand` reports: for each word its text where it is
literal, and the size of the command with its terminator. -/
structure ParsedCommand where
  words : List (Option Bytes)
  commandSize : Nat

/-- `word_is` -/
def wordIs (p : ParsedCommand) (word : Nat) (expected : String) : Bool :=
  p.words[word]?.join == some (ascii expected)

/-- `literal_word` finds a word. -/
def literalWord (p : ParsedCommand) (word : Nat) : Bool := p.words[word]?.join.isSome

/-- The commands `has_opt_in` takes for an opt-in. -/
def isOptIn (p : ParsedCommand) : Bool :=
  wordIs p 0 "package" && wordIs p 1 "require" &&
    if p.words.length = 3 ∧ wordIs p 2 "machteld" then true
    else if p.words.length = 4 ∧ wordIs p 2 "machteld" then literalWord p 3
    else if p.words.length = 5 ∧ wordIs p 2 "-exact" ∧ wordIs p 3 "machteld" then literalWord p 4
    else false

def optinError : TclError :=
  ⟨ascii "not a machteld program: the first executable command must be \"package require machteld\"",
    [ascii "MACHTELD", ascii "ENTRY", ascii "optin"]⟩

section

variable (parse : Bytes → Except TclError ParsedCommand)

/-- The loop over commands without words, of `has_opt_in` and of an
evaluation: the first command with words, and the text it stands at. -/
def commandLoop : Nat → Bytes → Except TclError (Option (Bytes × ParsedCommand))
  | 0, _ => .ok none
  | fuel + 1, bytes =>
    if bytes = [] then .ok none
    else
      (parse bytes).bind fun p =>
        if p.words ≠ [] then .ok (some (bytes, p))
        else if p.commandSize = 0 ∨ bytes.length < p.commandSize then .ok none
        else commandLoop fuel (bytes.drop p.commandSize)

/-- Every round takes at least one byte. -/
def firstCommand (bytes : Bytes) : Except TclError (Option (Bytes × ParsedCommand)) :=
  commandLoop parse bytes.length bytes

/-- The second half of `has_opt_in`. -/
def checkOptIn (bytes : Bytes) : Except TclError Unit :=
  (firstCommand parse bytes).bind fun command =>
    if command.any fun (_, p) => isOptIn p then .ok () else .error optinError

/-- `has_opt_in` -/
def hasOptIn (script : Bytes) : Except TclError Unit := checkOptIn parse (skipMark script)

/-- What `eval_captured_startup` evaluates: a call of `::info script`, and
the script behind a semicolon. -/
def startupWrapper (infoScript script : Bytes) : Bytes := infoScript ++ 0x3B :: script

/-- The first command of the script, which is the second of the wrapper. -/
def evaluatedCommand (infoScript script : Bytes) : Except TclError (Option (Bytes × ParsedCommand)) :=
  (firstCommand parse (startupWrapper infoScript script)).bind fun command =>
    match command with
    | none => .ok none
    | some (bytes, p) => firstCommand parse (bytes.drop p.commandSize)

/-- What the gate looked at. -/
def checkedCommand (script : Bytes) : Except TclError (Option (Bytes × ParsedCommand)) :=
  firstCommand parse (skipMark script)

/-- A reader's script passes the gate. -/
def Accepts (script : Option Bytes) : Prop := ∃ text, script = some text ∧ hasOptIn parse text = .ok ()

/-- Packaging and startup accept the same files, and what startup then
evaluates first is the command it has checked. -/
def GatesAgree (infoScript bytes : Bytes) : Prop :=
  (Accepts parse (readFileChars bytes) ↔ Accepts parse (captureNativeStartup bytes)) ∧
    ∀ script, captureNativeStartup bytes = some script → hasOptIn parse script = .ok () →
      evaluatedCommand parse infoScript script = checkedCommand parse script

/-- How Tcl's parser reads the text of a list with a semicolon behind it,
and that U+FEFF is an ordinary character, with which a word begins. -/
structure ParserFacts (infoScript : Bytes) : Prop where
  info : ∀ rest, ∃ words, words ≠ [] ∧ parse (infoScript ++ 0x3B :: rest) = .ok ⟨words, infoScript.length + 1⟩
  mark : ∀ text p, parse (byteOrderMark ++ text) = .ok p →
    ∃ word words, p.words = word :: words ∧ ∀ w, word = some w → byteOrderMark <+: w

end

theorem autoTranslate_fold : ∀ s : Bytes, autoTranslate false s = foldNewlines s ∧
    autoTranslate true s = foldNewlines (if s.head? = some lf then s.tail else s)
  | [] => ⟨rfl, rfl⟩
  | [c] => by
    by_cases isCr : c = cr
    · subst isCr
      exact ⟨rfl, rfl⟩
    · by_cases isLf : c = lf
      · subst isLf
        exact ⟨rfl, rfl⟩
      · simp [autoTranslate, foldNewlines, isCr, isLf]
  | c :: d :: cs => by
    obtain ⟨plain, after⟩ := autoTranslate_fold (d :: cs)
    have first : autoTranslate false (c :: d :: cs) = foldNewlines (c :: d :: cs) := by
      by_cases isCr : c = cr
      · rw [autoTranslate, if_pos isCr, after, foldNewlines, if_pos isCr]
        by_cases isLf : d = lf
        · simp [isLf]
        · simp [isLf]
      · rw [autoTranslate, if_neg isCr, if_neg (fun both => nomatch both.1), plain, foldNewlines, if_neg isCr]
    refine ⟨first, ?_⟩
    by_cases isLf : c = lf
    · have notCr : c ≠ cr := by
        rw [isLf]
        decide
      rw [autoTranslate, if_neg notCr, if_pos ⟨rfl, isLf⟩, plain]
      simp [isLf]
    · have head : ¬ (c :: d :: cs).head? = some lf := by simpa using isLf
      have same : autoTranslate true (c :: d :: cs) = autoTranslate false (c :: d :: cs) := by
        simp only [autoTranslate, isLf, and_false, if_false]
      rw [if_neg head, ← first, same]

theorem autoTranslate_eq (s : Bytes) : autoTranslate false s = foldNewlines s := (autoTranslate_fold s).1

theorem foldNewlines_mark (s : Bytes) : foldNewlines (byteOrderMark ++ s) = byteOrderMark ++ foldNewlines s := by
  rw [← autoTranslate_eq, ← autoTranslate_eq]
  rfl

theorem channelRead_mark (s : Bytes) :
    channelRead (byteOrderMark ++ s) = (channelRead s).map fun text => byteOrderMark ++ text := by
  have scalar : Utf8.IsScalar 0xFEFF := by decide
  have read : Utf8.decodeOne (byteOrderMark ++ s) = some (0xFEFF, s) := Utf8.decodeOne_encode scalar.1 s
  have whole : Utf8.WellFormed (byteOrderMark ++ s) ↔ Utf8.WellFormed s := by
    rw [Utf8.wellFormed_step read]
    exact and_iff_right scalar.2
  unfold channelRead
  by_cases clean : Utf8.WellFormed s
  · rw [if_pos clean, if_pos (whole.mpr clean)]
    rfl
  · rw [if_neg clean, if_neg (mt whole.mp clean)]
    rfl

theorem skipMark_mark (s : Bytes) : skipMark (byteOrderMark ++ s) = s := if_pos ⟨s, rfl⟩

theorem skipMark_plain {s : Bytes} (plain : ¬ byteOrderMark <+: s) : skipMark s = s := if_neg plain

section

variable {parse : Bytes → Except TclError ParsedCommand} {infoScript : Bytes}

theorem firstCommand_words {bytes : Bytes} {p : ParsedCommand} (nonempty : bytes ≠ [])
    (parsed : parse bytes = .ok p)
    (words : p.words ≠ []) : firstCommand parse bytes = .ok (some (bytes, p)) := by
  obtain ⟨fuel, enough⟩ := Nat.exists_eq_succ_of_ne_zero (mt List.length_eq_zero_iff.mp nonempty)
  rw [firstCommand, enough, Nat.succ_eq_add_one, commandLoop, if_neg nonempty, parsed, Except.bind, if_pos words]

/-- The wrapper's own command comes first, and the script's are behind it.
-/
theorem ParserFacts.evaluated (facts : ParserFacts parse infoScript) (script : Bytes) :
    evaluatedCommand parse infoScript script = firstCommand parse script := by
  obtain ⟨words, some', parsed⟩ := facts.info script
  have first := firstCommand_words (List.append_ne_nil_of_right_ne_nil infoScript
    (List.cons_ne_nil _ _)) parsed some'
  have rest : (infoScript ++ 0x3B :: script).drop (infoScript.length + 1) = script := by
    rw [← List.drop_drop, List.drop_left]
    rfl
  rw [evaluatedCommand, startupWrapper, first]
  simp only [Except.bind, rest]

theorem checkOptIn_ok {bytes : Bytes} :
    checkOptIn parse bytes = .ok () ↔ ∃ text p, firstCommand parse bytes = .ok (some (text, p)) ∧
      isOptIn p = true := by
  rw [checkOptIn]
  cases found : firstCommand parse bytes with
  | error e => exact iff_of_false nofun fun ⟨_, _, same, _⟩ => nomatch same
  | ok command =>
    cases command with
    | none => exact iff_of_false nofun fun ⟨_, _, same, _⟩ => nomatch same
    | some pair =>
      obtain ⟨text, p⟩ := pair
      cases opted : isOptIn p <;> simp [Except.bind, opted]

theorem isOptIn_package {p : ParsedCommand} (opted : isOptIn p = true) :
    ∃ words, p.words = some (ascii "package") :: words := by
  rw [isOptIn, Bool.and_assoc, Bool.and_eq_true, wordIs, beq_iff_eq] at opted
  cases words : p.words with
  | nil => simp [words] at opted
  | cons word words =>
    have first : word = some (ascii "package") := by simpa [words] using opted.1
    exact ⟨_, by rw [first]⟩

/-- What a script with a mark begins with is no opt-in. -/
theorem ParserFacts.marked (facts : ParserFacts parse infoScript) (text : Bytes) :
    (∃ e, firstCommand parse (byteOrderMark ++ text) = .error e) ∨
      ∃ p, firstCommand parse (byteOrderMark ++ text) = .ok (some (byteOrderMark ++ text, p)) ∧
        isOptIn p = false := by
  have nonempty : byteOrderMark ++ text ≠ [] := List.cons_ne_nil _ _
  cases parsed : parse (byteOrderMark ++ text) with
  | error e =>
    refine .inl ⟨e, ?_⟩
    obtain ⟨fuel, enough⟩ := Nat.exists_eq_succ_of_ne_zero (mt List.length_eq_zero_iff.mp nonempty)
    rw [firstCommand, enough, Nat.succ_eq_add_one, commandLoop, if_neg nonempty, parsed]
    rfl
  | ok p =>
    obtain ⟨word, words, spelled, begins⟩ := facts.mark text p parsed
    refine .inr ⟨p, firstCommand_words nonempty parsed (by rw [spelled]; exact List.cons_ne_nil _ _), ?_⟩
    rw [← Bool.not_eq_true]
    intro opted
    obtain ⟨rest, same⟩ := isOptIn_package opted
    rw [spelled] at same
    obtain ⟨rfl, -⟩ := List.cons.inj same
    exact absurd (begins _ rfl) (by decide)

theorem ParserFacts.refuses_marked (facts : ParserFacts parse infoScript) (text : Bytes) :
    checkOptIn parse (byteOrderMark ++ text) ≠ .ok () := by
  intro accepted
  obtain ⟨_, p, found, opted⟩ := checkOptIn_ok.mp accepted
  rcases facts.marked text with ⟨e, failed⟩ | ⟨q, same, refused⟩
  · rw [failed] at found
    cases found
  · rw [same] at found
    obtain ⟨-, rfl⟩ := Prod.mk.inj (Option.some.inj (Except.ok.inj found))
    rw [refused] at opted
    cases opted

theorem accepts_some {text : Bytes} : Accepts parse (some text) ↔ hasOptIn parse text = .ok () :=
  ⟨fun ⟨_, same, passes⟩ => Option.some.inj same ▸ passes, fun passes => ⟨text, rfl, passes⟩⟩

theorem autoTranslate_head {t s : Bytes} {x : UInt8} (notLf : x ≠ lf) (same : autoTranslate false t = x :: s) :
    ∃ t', t = x :: t' ∧ autoTranslate false t' = s := by
  cases t with
  | nil => cases same
  | cons c cs =>
    rw [autoTranslate] at same
    split_ifs at same with isCr drop
    · exact absurd (List.cons.inj same).1.symm notLf
    · cases drop.1
    · obtain ⟨rfl, rest⟩ := List.cons.inj same
      exact ⟨cs, rfl, rest⟩

theorem spelled_head {t s : Bytes} {x : UInt8} (notNul : x ≠ 0xC0)
    (same : (t.flatMap fun c => if c = 0 then [0xC0, 0x80] else [c]) = x :: s) :
    ∃ t', t = x :: t' ∧ (t'.flatMap fun c => if c = 0 then [0xC0, 0x80] else [c]) = s := by
  cases t with
  | nil => cases same
  | cons c cs =>
    rw [List.flatMap_cons] at same
    split_ifs at same with zero
    · exact absurd (List.cons.inj same).1.symm notNul
    · obtain ⟨rfl, rest⟩ := List.cons.inj same
      exact ⟨cs, rfl, rest⟩

/-- A script begins with a mark only where what was read did. -/
theorem mark_of_script {bytes script : Bytes} (read : (channelRead bytes).map foldNewlines = some script)
    (marked : byteOrderMark <+: script) : byteOrderMark <+: bytes := by
  obtain ⟨rest, rfl⟩ := marked
  obtain ⟨text, decoded, folded⟩ := Option.map_eq_some_iff.mp read
  rw [← autoTranslate_eq] at folded
  obtain ⟨_, rfl, second⟩ := autoTranslate_head (by decide) folded
  obtain ⟨_, rfl, third⟩ := autoTranslate_head (by decide) second
  obtain ⟨_, rfl, -⟩ := autoTranslate_head (by decide) third
  unfold channelRead at decoded
  split_ifs at decoded
  obtain ⟨_, rfl, second⟩ := spelled_head (by decide) (Option.some.inj decoded)
  obtain ⟨_, rfl, third⟩ := spelled_head (by decide) second
  obtain ⟨_, rfl, -⟩ := spelled_head (by decide) third
  exact ⟨_, rfl⟩

/-- What is evaluated first is what was checked, in a script without a mark.
-/
theorem ParserFacts.checked (facts : ParserFacts parse infoScript) {script : Bytes}
    (plain : ¬ byteOrderMark <+: script) :
    evaluatedCommand parse infoScript script = checkedCommand parse script := by
  rw [facts.evaluated, checkedCommand, skipMark_plain plain]

/-- Packaging and startup agree exactly where not two marks stand before a
program. -/
theorem gatesAgree_iff (facts : ParserFacts parse infoScript) (bytes : Bytes) :
    GatesAgree parse infoScript bytes ↔ ¬ ∃ rest script, cutEof bytes = byteOrderMark ++ (byteOrderMark ++ rest) ∧
      (channelRead rest).map foldNewlines = some script ∧ checkOptIn parse script = .ok () := by
  have channel : readFileChars bytes = (channelRead (cutEof bytes)).map foldNewlines :=
    congrArg (fun f => (channelRead (cutEof bytes)).map f) (funext autoTranslate_eq)
  have behind : ∀ s : Bytes, (channelRead (byteOrderMark ++ s)).map foldNewlines =
      ((channelRead s).map foldNewlines).map fun text => byteOrderMark ++ text := by
    intro s
    rw [channelRead_mark, Option.map_map, Option.map_map]
    exact congrArg (fun f => (channelRead s).map f) (funext foldNewlines_mark)
  by_cases first : byteOrderMark <+: cutEof bytes
  · obtain ⟨once, cut⟩ := first
    have native : captureNativeStartup bytes = (channelRead once).map foldNewlines := by
      rw [captureNativeStartup, ← cut, skipMark_mark]
    rw [← cut, behind] at channel
    by_cases second : byteOrderMark <+: once
    · obtain ⟨rest, rfl⟩ := second
      rw [behind] at native channel
      have twice : (∃ rest' script, cutEof bytes = byteOrderMark ++ (byteOrderMark ++ rest') ∧
          (channelRead rest').map foldNewlines = some script ∧ checkOptIn parse script = .ok ()) ↔
          ∃ script, (channelRead rest).map foldNewlines = some script ∧ checkOptIn parse script = .ok () := by
        constructor
        · rintro ⟨rest', script, same, read, passes⟩
          rw [← cut] at same
          obtain rfl := List.append_cancel_left (List.append_cancel_left same)
          exact ⟨script, read, passes⟩
        · rintro ⟨script, read, passes⟩
          exact ⟨rest, script, cut.symm, read, passes⟩
      rw [twice, GatesAgree, native, channel]
      cases read : (channelRead rest).map foldNewlines with
      | none => exact iff_of_true ⟨Iff.rfl, fun _ none' => nomatch none'⟩ fun ⟨_, none', _⟩ => nomatch none'
      | some script =>
        have wrap : ¬ Accepts parse (some (byteOrderMark ++ (byteOrderMark ++ script))) := by
          rw [accepts_some, hasOptIn, skipMark_mark]
          exact facts.refuses_marked script
        have startup : Accepts parse (some (byteOrderMark ++ script)) ↔ checkOptIn parse script = .ok () := by
          rw [accepts_some, hasOptIn, skipMark_mark]
        simp only [Option.map_some, wrap, startup, false_iff, Option.some_inj, exists_eq_left']
        refine ⟨fun agree => agree.1, fun refused => ⟨refused, ?_⟩⟩
        rintro _ rfl passes
        rw [hasOptIn, skipMark_mark] at passes
        exact absurd passes refused
    · have one : ¬ ∃ rest script, cutEof bytes = byteOrderMark ++ (byteOrderMark ++ rest) ∧
          (channelRead rest).map foldNewlines = some script ∧ checkOptIn parse script = .ok () := by
        rintro ⟨rest, _, same, _⟩
        rw [← cut] at same
        exact second ⟨rest, (List.append_cancel_left same).symm⟩
      refine iff_of_true ⟨?_, fun script read _ => ?_⟩ one
      · rw [native, channel]
        cases read : (channelRead once).map foldNewlines with
        | none => rfl
        | some script =>
          have plain : ¬ byteOrderMark <+: script := mt (mark_of_script read) second
          rw [Option.map_some, accepts_some, accepts_some, hasOptIn, hasOptIn, skipMark_mark, skipMark_plain plain]
      · rw [native] at read
        exact facts.checked (mt (mark_of_script read) second)
  · have native : captureNativeStartup bytes = (channelRead (cutEof bytes)).map foldNewlines := by
      rw [captureNativeStartup, skipMark_plain first]
    have none : ¬ ∃ rest script, cutEof bytes = byteOrderMark ++ (byteOrderMark ++ rest) ∧
        (channelRead rest).map foldNewlines = some script ∧ checkOptIn parse script = .ok () := by
      rintro ⟨rest, _, same, _⟩
      exact first ⟨_, same.symm⟩
    refine iff_of_true ⟨by rw [native, channel], fun script read _ => ?_⟩ none
    rw [native] at read
    exact facts.checked (mt (mark_of_script read) first)

end

/-- The pieces of a line between single blanks. -/
def splitBlanks : Bytes → List Bytes
  | [] => [[]]
  | c :: cs =>
    match splitBlanks cs with
    | [] => [[]]
    | word :: words => if c = space then [] :: word :: words else (c :: word) :: words

/-- A parser of commands in plain words. -/
def plainParse (text : Bytes) : Except TclError ParsedCommand :=
  let line := text.takeWhile fun c => c != lf && c != 0x3B
  if line.any (· ∈ ascii "\"\\[]$#\x7b\x7d") then .error ⟨ascii "not a plain command", []⟩
  else
    .ok ⟨((splitBlanks line).filter (· ≠ [])).map some,
      if line.length = text.length then line.length else line.length + 1⟩

def plainInfo : Bytes := ascii "::info script m"

theorem splitBlanks_cons {c : UInt8} (solid : c ≠ space) (cs : Bytes) :
    ∃ word words, splitBlanks cs = word :: words ∧ splitBlanks (c :: cs) = (c :: word) :: words := by
  have nonempty : splitBlanks cs ≠ [] := by
    cases cs with
    | nil => exact List.cons_ne_nil _ _
    | cons d ds =>
      rw [splitBlanks]
      split
      · exact List.cons_ne_nil _ _
      · split_ifs <;> exact List.cons_ne_nil _ _
  obtain ⟨word, words, split⟩ := List.exists_cons_of_ne_nil nonempty
  exact ⟨word, words, split, by simp only [splitBlanks, split, if_neg solid]⟩

theorem splitBlanks_mark (line : Bytes) :
    ∃ word words, splitBlanks (byteOrderMark ++ line) = (byteOrderMark ++ word) :: words := by
  obtain ⟨third, words, _, spelled⟩ := splitBlanks_cons (by decide : (0xBF : UInt8) ≠ space) line
  obtain ⟨second, words', same, spelled'⟩ := splitBlanks_cons (by decide : (0xBB : UInt8) ≠ space) (0xBF :: line)
  obtain ⟨first, words'', same', spelled''⟩ :=
    splitBlanks_cons (by decide : (0xEF : UInt8) ≠ space) (0xBB :: 0xBF :: line)
  obtain ⟨rfl, rfl⟩ := List.cons.inj (spelled.symm.trans same)
  obtain ⟨rfl, rfl⟩ := List.cons.inj (spelled'.symm.trans same')
  exact ⟨third, words, spelled''⟩

theorem plainParse_facts : ParserFacts plainParse plainInfo where
  info rest := by
    obtain ⟨taken, -⟩ := @takeWhile_append_stop _ (fun c => c != lf && c != 0x3B) plainInfo (0x3B :: rest)
      (List.all_eq_true.mp rfl) rfl
    have longer : ¬ plainInfo.length = (plainInfo ++ 0x3B :: rest).length := by simp
    have plain : ¬ (plainInfo.any (· ∈ ascii "\"\\[]$#\x7b\x7d")) = true := by decide
    refine ⟨((splitBlanks plainInfo).filter (· ≠ [])).map some, by decide, ?_⟩
    rw [plainParse, taken]
    simp only [if_neg plain, if_neg longer]
  mark text p parsed := by
    have line : (byteOrderMark ++ text).takeWhile (fun c => c != lf && c != 0x3B) =
        byteOrderMark ++ text.takeWhile fun c => c != lf && c != 0x3B :=
          List.takeWhile_append_of_pos (List.all_eq_true.mp rfl)
    obtain ⟨word, words, split⟩ := splitBlanks_mark (text.takeWhile fun c => c != lf && c != 0x3B)
    have kept : ((splitBlanks (byteOrderMark ++ text.takeWhile fun c => c != lf && c != 0x3B)).filter
      (· ≠ [])).map some =
        some (byteOrderMark ++ word) :: (words.filter (· ≠ [])).map some := by
      have nonempty : byteOrderMark ++ word ≠ [] := List.cons_ne_nil _ _
      simp [split, nonempty]
    simp only [plainParse, line, kept] at parsed
    split at parsed
    · cases parsed
    · obtain rfl := Except.ok.inj parsed
      exact ⟨_, _, rfl, fun w same => Option.some.inj same ▸ ⟨word, rfl⟩⟩

theorem gatesAgree_sample :
    GatesAgree plainParse plainInfo (byteOrderMark ++ ascii "package require machteld\x0d\x0a") ↔
    ¬ ∃ rest script, cutEof (byteOrderMark ++ ascii "package require machteld\x0d\x0a") =
        byteOrderMark ++ (byteOrderMark ++ rest) ∧
      (channelRead rest).map foldNewlines = some script ∧ checkOptIn plainParse script = .ok () :=
  gatesAgree_iff plainParse_facts _

/-- Two marks: startup accepts what packaging refuses, and evaluates a
command that is not the one it checked. -/
theorem gates_twoMarks :
    let bytes := byteOrderMark ++ (byteOrderMark ++ ascii "package require machteld")
    Accepts plainParse (captureNativeStartup bytes) ∧ ¬ Accepts plainParse (readFileChars bytes) ∧
      ¬ GatesAgree plainParse plainInfo bytes := by
  have startup : Accepts plainParse (captureNativeStartup
    (byteOrderMark ++ (byteOrderMark ++ ascii "package require machteld"))) :=
    ⟨_, rfl, rfl⟩
  have wrap : ¬ Accepts plainParse
    (readFileChars (byteOrderMark ++ (byteOrderMark ++ ascii "package require machteld"))) := by
    rintro ⟨text, read, passes⟩
    have kept : readFileChars (byteOrderMark ++ (byteOrderMark ++ ascii "package require machteld")) =
        some (byteOrderMark ++ (byteOrderMark ++ ascii "package require machteld")) := rfl
    have refused : hasOptIn plainParse (byteOrderMark ++ (byteOrderMark ++ ascii "package require machteld")) =
        .error optinError := rfl
    obtain rfl := Option.some.inj (kept.symm.trans read)
    rw [refused] at passes
    cases passes
  exact ⟨startup, wrap, fun agree => wrap (agree.1.mpr startup)⟩

end Machteld
