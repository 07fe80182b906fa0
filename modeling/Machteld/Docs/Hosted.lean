import Machteld.Docs.Host

namespace Machteld

open Rfc8259

/-- A JSON object whose member `ok` is the given one. -/
def JsonObject (ok : Bool) (text : Bytes) : Prop :=
  ∃ members, Value (.object ((ascii "ok", .bool ok) :: members)) text ∧ ascii "ok" ∉ members.map Prod.fst

/-- What `DocsHost` owes to a call with `--json`: one document, in the file
where one is published and as the result otherwise. -/
structure DocsJsonOutcome (o : DocsOutcome TclError) : Prop where
  once : o.attempts.length ≤ 1
  success : ∀ text, o.result = .ok text → (o.attempts = [] ∧ JsonObject true text) ∨
    (text = [] ∧ ∃ path doc, o.attempts = [⟨path, doc, none⟩] ∧ JsonObject true doc)
  failure : ∀ err, o.result = .error err →
    JsonObject false err.message ∧ ∀ attempt ∈ o.attempts, attempt.failed = none → JsonObject false attempt.text

/-- What a word of the command line is to the host: `--json`, an `--output`
with its value, which is empty where none follows, or a word of the
operation. -/
inductive HostUse
  | json
  | output (value : Chars)
  | word (word : Chars)
deriving DecidableEq

def hostUses : List Chars → List HostUse
  | [] => []
  | arg :: args =>
    if arg = chars "--output" then
      match args with
      | [] => [.output []]
      | value :: args => .output value :: hostUses args
    else if arg = chars "--json" then .json :: hostUses args
    else .word arg :: hostUses args

/-- `--json` stands in option position. -/
def asksJson (args : List Chars) : Bool := (hostUses args).contains .json

/-- The values of `--output`. -/
def hostOutputs (args : List Chars) : List Chars :=
  (hostUses args).filterMap fun use => match use with
    | .output value => some value
    | _ => none

/-- The words that are no options. -/
def hostWords (args : List Chars) : List Chars :=
  (hostUses args).filterMap fun use => match use with
    | .word word => some word
    | _ => none

/-- The scanners agree, and a call with `--json` ends with a document, in
the GUI tools too. -/
structure DocsHostAgrees (host : DocsHost) (args : List Chars) : Prop where
  scanners : ∀ s, docsHostScan args .start = .ok s →
    docsHostIntent host args = .ok ⟨s.json, s.output⟩ ∧ docsGuiCommand host args = .ok (s.kept.headD [])
  outcome : asksJson args = true → DocsJsonOutcome (docsHost host args)
  gui : (∃ s, docsHostScan args .start = .ok s) → asksJson args = true → DocsJsonOutcome (docsHostGui host args)

/-- Where the option loop takes the words, `expr` hands the output and the
first word of the operation on as they are. With `--json` it refuses no
output, and where the call is refused before it runs a subcommand, that
output can be published. -/
structure DocsWordsKept (host : DocsHost) (args : List Chars) : Prop where
  output : (∃ s, docsHostScan args .start = .ok s) → ∀ path, hostOutputs args = [path] →
    host.exprOf path = some path
  word : (∃ s, docsHostScan args .start = .ok s) → ∀ word ∈ (hostWords args).head?, host.exprOf word = some word
  published : asksJson args = true → ∀ path, hostOutputs args = [path] → ∃ left, host.exprOf path = some left ∧
    ((∃ err, docsHostPlan args = .error err) → left ≠ [] → docsPublishText host left = none)

variable {host : DocsHost} {args : List Chars} {intent : DocsIntent}

def DocsScan.outputs (s : DocsScan) : List Chars := if s.outputSeen then [s.output] else []

theorem hostUses_output (output : Chars) :
    hostUses (chars "--output" :: output :: args) = .output output :: hostUses args := by
  rw [hostUses.eq_def]
  exact if_pos rfl

theorem hostUses_json : hostUses (chars "--json" :: args) = .json :: hostUses args := by
  rw [hostUses.eq_def]
  exact (if_neg (by decide)).trans (if_pos rfl)

theorem hostUses_word {arg : Chars} (notOut : ¬ arg = chars "--output") (notJson : ¬ arg = chars "--json") :
    hostUses (arg :: args) = .word arg :: hostUses args := by
  rw [hostUses.eq_def]
  exact (if_neg notOut).trans (if_neg notJson)

/-- `DocsHostIntent` reads the words as they are. -/
theorem docsIntentScan_uses (args : List Chars) (json : Bool) (outputs : List Chars) :
    docsIntentScan args json outputs = (json || asksJson args, outputs ++ hostOutputs args) := by
  fun_induction docsIntentScan args json outputs with
  | case1 json outputs => rw [asksJson, hostOutputs, hostUses]; simp
  | case2 json outputs => simp [asksJson, hostOutputs, hostUses]
  | case3 json outputs output args ih =>
    rw [ih, asksJson, asksJson, hostOutputs, hostOutputs, hostUses_output]
    simp
  | case4 json outputs args notOut ih =>
    rw [ih, asksJson, asksJson, hostOutputs, hostOutputs, hostUses_json]
    simp
  | case5 arg args json outputs notOut notJson ih =>
    rw [ih, asksJson, asksJson, hostOutputs, hostOutputs, hostUses_word notOut notJson]
    simp

theorem docsGuiKept_uses (args : List Chars) : docsGuiKept args = hostWords args := by
  fun_induction docsGuiKept args with
  | case1 => rfl
  | case2 => rfl
  | case3 output args ih =>
    rw [ih, hostWords, hostWords, hostUses_output]
    rfl
  | case4 args notOut ih =>
    rw [ih, hostWords, hostWords, hostUses_json]
    rfl
  | case5 arg args notOut notJson ih =>
    rw [ih, hostWords, hostWords, hostUses_word notOut notJson]
    rfl

/-- An option loop that passes reads the words as they are. -/
theorem docsHostScan_uses {s r : DocsScan} (scanned : docsHostScan args s = .ok r)
    (unseen : s.outputSeen = false → s.output = []) :
    r.json = (s.json || asksJson args) ∧ r.outputs = s.outputs ++ hostOutputs args ∧
      r.kept = s.kept ++ hostWords args ∧
      (r.outputSeen = false → r.output = []) := by
  fun_induction docsHostScan args s with
  | case1 s =>
    obtain rfl := Except.ok.inj scanned
    exact ⟨(Bool.or_false _).symm, (List.append_nil _).symm, (List.append_nil _).symm, unseen⟩
  | case2 => cases scanned
  | case3 args s fresh ih =>
    obtain ⟨json, outputs, kept, rest⟩ := ih scanned unseen
    refine ⟨json.trans ?_, outputs.trans ?_, kept.trans ?_, rest⟩
    · rw [asksJson, asksJson, hostUses_json]
      simp
    · rw [hostOutputs, hostOutputs, hostUses_json]
      rfl
    · rw [hostWords, hostWords, hostUses_json]
      rfl
  | case4 => cases scanned
  | case5 => cases scanned
  | case6 => cases scanned
  | case7 s output args fresh good other ih =>
    obtain ⟨json, outputs, kept, rest⟩ := ih scanned (fun bad => by cases bad)
    have none' : s.outputs = [] := if_neg fresh
    refine ⟨json.trans ?_, outputs.trans ?_, kept.trans ?_, rest⟩
    · rw [asksJson, asksJson, hostUses_output]
      simp
    · rw [hostOutputs, hostOutputs, hostUses_output, none']
      rfl
    · rw [hostWords, hostWords, hostUses_output]
      rfl
  | case8 arg args s notJson notOut ih =>
    obtain ⟨json, outputs, kept, rest⟩ := ih scanned unseen
    refine ⟨json.trans ?_, outputs.trans ?_, kept.trans ?_, rest⟩
    · rw [asksJson, asksJson, hostUses_word notOut notJson]
      simp
    · rw [hostOutputs, hostOutputs, hostUses_word notOut notJson]
      rfl
    · rw [hostWords, hostWords, hostUses_word notOut notJson, List.append_assoc]
      rfl

theorem docsHostIntent_ok : docsHostIntent host args = .ok intent ↔
    intent.json = asksJson args ∧ onlyOutput host (hostOutputs args) = .ok intent.output := by
  unfold docsHostIntent
  rw [docsIntentScan_uses, Except.map_ok]
  constructor
  · rintro ⟨output, only, rfl⟩
    exact ⟨Bool.false_or _, only⟩
  · rintro ⟨json, only⟩
    exact ⟨intent.output, only, by rw [← json, Bool.false_or]⟩

/-- The other scanners find what the option loop does, where `expr` hands
its words on as they are. -/
theorem docsHostScan_agrees {s : DocsScan} (scanned : docsHostScan args .start = .ok s) :
    (docsHostIntent host args = .ok ⟨s.json, s.output⟩ ↔
      ∀ path, hostOutputs args = [path] → host.exprOf path = some path) ∧
    (docsGuiCommand host args = .ok (s.kept.headD []) ↔ ∀ word ∈ (hostWords args).head?, host.exprOf word =
      some word) := by
  obtain ⟨json, outputs, kept, rest⟩ := docsHostScan_uses scanned (fun _ => rfl)
  refine ⟨?_, ?_⟩
  · rw [docsHostIntent_ok, and_iff_right (json.trans (Bool.false_or _)), ← show s.outputs =
      hostOutputs args from outputs]
    cases seen : s.outputSeen with
    | false =>
      have empty : s.outputs = [] := if_neg (by rw [seen]; exact Bool.false_ne_true)
      rw [empty, rest seen]
      exact iff_of_true rfl fun path bad => by cases bad
    | true =>
      have single : s.outputs = [s.output] := if_pos seen
      rw [single, onlyOutput, exprResult_ok]
      exact ⟨fun left path same => by cases same; exact left, fun all => all _ rfl⟩
  · rw [docsGuiCommand, docsGuiKept_uses, kept, show DocsScan.start.kept = [] from rfl, List.nil_append]
    cases hostWords args with
    | nil => exact iff_of_true rfl fun word bad => by cases bad
    | cons word words =>
      rw [exprResult_ok]
      exact ⟨fun left w same => by cases same; exact left, fun all => all word rfl⟩

theorem key_quoted {key : Bytes} (plain : docsJCharacters key = key.flatMap jsonEscape) :
    Quoted key (docsJString key) := by
  rw [docsJString, plain]
  exact jsonQuote_quoted key

/-- A document with one more member behind `ok`. -/
theorem document_json (ok : Bool) {key encoded : Bytes} (plain : docsJCharacters key = key.flatMap jsonEscape)
    (other : key ≠ ascii "ok")
    (value : Encoded encoded) : JsonObject ok (docsJObject [(ascii "ok", docsJBool ok), (key, encoded)]) := by
  obtain ⟨t, value⟩ := value
  refine ⟨[(key, t)], docsJObject_value (.cons ⟨key_quoted rfl, rfl⟩ (.cons ⟨key_quoted plain, value⟩ .nil)), ?_⟩
  rw [List.map_singleton, List.mem_singleton]
  exact other.symm

theorem docsSuccess_json (result : DocsResult) : JsonObject true (docsSuccess result) :=
  document_json true rfl (by decide) (docsJsonResult_encoded result)

theorem docsFailure_json (err : TclError) : JsonObject false (docsFailure err) := by
  refine document_json false rfl (by decide) (docsJObject_encoded ?_)
  simpa only [List.forall_mem_cons, docsJString_encoded, true_and] using noPair_encoded

theorem startsFailure_docsFailure (err : TclError) : startsFailure (docsFailure err) = true := rfl

/-- An error of `DocsFail`, with the beginning of its message. -/
def DocsTold (err : TclError) : Prop := ∃ code rest, err = docsFail code (ascii "docs: " ++ rest)

theorem docsFail_told {code : String} {message : Bytes} (front : (ascii "docs: ").isPrefixOf message = true) :
    DocsTold (docsFail code message) := by
  obtain ⟨rest, rfl⟩ := List.isPrefixOf_iff_prefix.mp front
  exact ⟨code, rest, rfl⟩

theorem DocsTold.error_eq {err : TclError} (told : DocsTold err) : docsHostError err = err := by
  obtain ⟨code, rest, rfl⟩ := told
  exact if_pos rfl

theorem DocsTold.not_failure {err : TclError} (told : DocsTold err) : startsFailure err.message = false := by
  obtain ⟨code, rest, rfl⟩ := told
  rfl

theorem DocsTold.not_json {err : TclError} (told : DocsTold err) (ok : Bool) : ¬ JsonObject ok err.message := by
  obtain ⟨code, rest, rfl⟩ := told
  rintro ⟨members, ⟨body, same, -⟩, -⟩
  exact absurd (List.cons.inj same).1 (by decide)

theorem docsPublishText_told {destination : Chars} {err : TclError}
    (failed : docsPublishText host destination = some err) : DocsTold err := by
  unfold docsPublishText at failed
  split_ifs at failed
  · obtain rfl := Option.some.inj failed
    exact docsFail_told rfl
  · obtain ⟨refusal, -, rfl⟩ := Option.map_eq_some_iff.mp failed
    exact ⟨refusal.code, refusal.message, rfl⟩

theorem docsHostScan_told {s : DocsScan} {err : TclError} (failed : docsHostScan args s = .error err) :
    DocsTold err := by
  fun_induction docsHostScan args s with
  | case1 => cases failed
  | case2 =>
    obtain rfl := Except.error.inj failed
    exact docsFail_told rfl
  | case3 args s fresh ih => exact ih failed
  | case4 =>
    obtain rfl := Except.error.inj failed
    exact docsFail_told rfl
  | case5 =>
    obtain rfl := Except.error.inj failed
    exact docsFail_told rfl
  | case6 =>
    obtain rfl := Except.error.inj failed
    exact docsFail_told rfl
  | case7 s output args fresh good other ih => exact ih failed
  | case8 arg args s notJson notOut ih => exact ih failed

theorem docsHostCommand_told {kept : List Chars} {err : TclError} (failed : docsHostCommand kept = .error err) :
    DocsTold err := by
  cases kept with
  | nil => cases failed
  | cons word args =>
    rw [docsHostCommand] at failed
    cases known : docsSubcommand word with
    | some subcommand => rw [known] at failed; cases failed
    | none =>
      rw [known] at failed
      obtain rfl := Except.error.inj failed
      exact docsFail_told rfl

theorem docsHostPlan_told {err : TclError} (failed : docsHostPlan args = .error err) : DocsTold err := by
  rcases Except.bind_error failed with scan | ⟨s, -, failed⟩
  · exact docsHostScan_told scan
  · rcases Except.bind_error failed with command | ⟨call, -, bad⟩
    · exact docsHostCommand_told command
    · cases bad

theorem docsHostError_code (err : TclError) :
    (docsHostError err).errorcode.take 2 = [ascii "MACHTELD", ascii "DOCS"] := by
  unfold docsHostError
  split_ifs with known
  · exact known
  · rfl

theorem docsHostError_again (message : Bytes) (err : TclError) :
    docsHostError ⟨message, (docsHostError err).errorcode⟩ = ⟨message, (docsHostError err).errorcode⟩ :=
  if_pos (docsHostError_code err)

theorem DocsJsonOutcome.of_error {err : TclError} {attempts : List DocsAttempt} (once : attempts.length ≤ 1)
    (document : JsonObject false err.message) (failed : ∀ attempt ∈ attempts, attempt.failed = none →
      JsonObject false attempt.text) :
    DocsJsonOutcome ⟨.error err, attempts⟩ := by
  refine ⟨once, ?_, ?_⟩
  · intro text bad
    cases bad
  · intro err' same
    obtain rfl := Except.error.inj same
    exact ⟨document, failed⟩

theorem DocsJsonOutcome.of_ok {text : Bytes} {attempts : List DocsAttempt} (once : attempts.length ≤ 1)
    (success : (attempts = [] ∧ JsonObject true text) ∨
      (text = [] ∧ ∃ path doc, attempts = [⟨path, doc, none⟩] ∧ JsonObject true doc)) :
    DocsJsonOutcome ⟨.ok text, attempts⟩ := by
  refine ⟨once, ?_, ?_⟩
  · intro text' same
    obtain rfl := Except.ok.inj same
    exact success
  · intro err bad
    cases bad

/-- An error of `DocsHostCore` that is a document, or is told as one. -/
theorem docsHostRaised_json {intent : DocsIntent} (json : intent.json = true) {raised : DocsRaised}
    {attempts : List DocsAttempt}
    (kept : docsHostError raised.err = raised.err)
    (document : JsonObject false raised.err.message ∧ startsFailure raised.err.message = true ∨
      startsFailure raised.err.message = false)
    (once : attempts.length ≤ 1) (marked : intent.output ≠ [] → raised.attempted = true)
    (failed : ∀ attempt ∈ attempts, attempt.failed = none → JsonObject false attempt.text) :
    DocsJsonOutcome (docsHostRaised host intent raised attempts) := by
  have skip : ¬ (intent.output ≠ [] ∧ raised.attempted = false) := by
    rintro ⟨output, bad⟩
    rw [marked output] at bad
    cases bad
  unfold docsHostRaised
  simp only [kept, json, Bool.true_and, if_neg skip]
  refine .of_error once ?_ failed
  rcases document with ⟨object, starts⟩ | plain
  · rw [starts]
    exact object
  · rw [plain]
    exact docsFailure_json _

/-- The publication of a document by `DocsHostCore`. -/
theorem docsHostPublish_failed {intent : DocsIntent} (json : intent.json = true) {output : Chars} {rendered : Bytes}
    {done : Except DocsRaised Bytes} {err : TclError} (failed : docsPublishText host output = some err) :
    ∃ raised attempts, docsHostPublish host output rendered done = ⟨.error raised, attempts⟩ ∧
      DocsJsonOutcome (docsHostRaised host intent raised attempts) := by
  have told := docsPublishText_told failed
  refine ⟨⟨err, true⟩, [⟨output, rendered, some err⟩], ?_, ?_⟩
  · rw [docsHostPublish, failed]
  · refine docsHostRaised_json json told.error_eq (.inr told.not_failure) (Nat.le_refl _) (fun _ => rfl) ?_
    intro attempt member bad
    obtain rfl := List.mem_singleton.mp member
    cases bad

/-- A subcommand that failed, with `--json`. -/
theorem docsHostFailed_json {s : DocsScan} (json : s.json = true) (err : TclError) : ∃ raised attempts,
    docsHostFailed host s err = ⟨.error raised, attempts⟩ ∧
      DocsJsonOutcome (docsHostRaised host ⟨s.json, s.output⟩ raised attempts) := by
  have document := docsFailure_json (docsHostError err)
  have starts := startsFailure_docsFailure (docsHostError err)
  have again := docsHostError_again (docsFailure (docsHostError err)) err
  unfold docsHostFailed
  rw [if_pos json]
  by_cases output : s.output = []
  · rw [if_pos output]
    refine ⟨_, _, rfl, docsHostRaised_json json again (.inl ⟨document, starts⟩) (Nat.zero_le _)
      (fun bad => absurd output bad) ?_⟩
    exact fun attempt bad => absurd bad List.not_mem_nil
  · rw [if_neg output]
    cases published : docsPublishText host s.output with
    | some refusal => exact docsHostPublish_failed json published
    | none =>
      rw [docsHostPublish, published]
      refine ⟨_, _, rfl, docsHostRaised_json json again (.inl ⟨document, starts⟩) (Nat.le_refl _) (fun _ => rfl) ?_⟩
      intro attempt member _
      obtain rfl := List.mem_singleton.mp member
      exact document

theorem docsHostWith_returned {text : Bytes} {attempts : List DocsAttempt}
    (core : docsHostCore host args = ⟨.ok text, attempts⟩) :
    docsHostWith host args intent = ⟨.ok text, attempts⟩ := by
  rw [docsHostWith, core]

theorem docsHostWith_core {raised : DocsRaised} {attempts : List DocsAttempt}
    (core : docsHostCore host args = ⟨.error raised, attempts⟩) :
    docsHostWith host args intent = docsHostRaised host intent raised attempts := by
  rw [docsHostWith, core]

/-- A subcommand that succeeded, with `--json`. -/
theorem docsHostDone_json {s : DocsScan} {result : DocsResult} (json : s.json = true)
    (core : docsHostCore host args = docsHostDone host s result) :
    DocsJsonOutcome (docsHostWith host args ⟨s.json, s.output⟩) := by
  unfold docsHostDone at core
  rw [if_pos json] at core
  by_cases output : s.output = []
  · rw [if_pos output] at core
    rw [docsHostWith_returned core]
    exact .of_ok (Nat.zero_le _) (.inl ⟨rfl, docsSuccess_json result⟩)
  · rw [if_neg output] at core
    cases published : docsPublishText host s.output with
    | some refusal =>
      obtain ⟨raised, attempts, failed, outcome⟩ := @docsHostPublish_failed host ⟨s.json, s.output⟩ json s.output
        (docsSuccess result)
        (.ok []) refusal published
      rw [docsHostWith_core (core.trans failed)]
      exact outcome
    | none =>
      rw [docsHostPublish, published] at core
      rw [docsHostWith_returned core]
      exact .of_ok (Nat.le_refl _) (.inr ⟨rfl, s.output, docsSuccess result, rfl, docsSuccess_json result⟩)

/-- A call that is refused before it runs a subcommand. -/
theorem docsHostWith_refused {err : TclError} (refused : docsHostPlan args = .error err) :
    docsHostWith host args intent = docsHostRaised host intent ⟨err, false⟩ [] := by
  refine docsHostWith_core ?_
  rw [docsHostCore, refused]

/-- The output of an intent is what `expr` leaves of the one value of
`--output`. -/
theorem onlyOutput_some {output : Chars} (only : onlyOutput host (hostOutputs args) = .ok output)
    (some' : output ≠ []) :
    ∃ path, hostOutputs args = [path] ∧ host.exprOf path = some output := by
  unfold onlyOutput at only
  split at only
  · rename_i path single
    exact ⟨path, single, exprResult_ok.mp only⟩
  · exact absurd (Except.ok.inj only).symm some'

theorem docsHostWith_outcome (kept : DocsWordsKept host args) (asked : asksJson args = true)
    (read : docsHostIntent host args = .ok intent) : DocsJsonOutcome (docsHostWith host args intent) := by
  obtain ⟨json, only⟩ := docsHostIntent_ok.mp read
  rw [asked] at json
  cases plan : docsHostPlan args with
  | error err =>
    have told := docsHostPlan_told plan
    rw [docsHostWith_refused plan]
    by_cases output : intent.output = []
    · refine docsHostRaised_json json told.error_eq (.inr told.not_failure) (Nat.zero_le _)
        (fun bad => absurd output bad) ?_
      exact fun attempt bad => absurd bad List.not_mem_nil
    · obtain ⟨path, single, left⟩ := onlyOutput_some only output
      obtain ⟨left', read', published⟩ := kept.published asked path single
      obtain rfl := Option.some.inj (left.symm.trans read')
      unfold docsHostRaised
      simp only [told.error_eq, told.not_failure, json, ne_eq, output, not_false_eq_true, and_self, if_true,
        published ⟨err, plan⟩ output, Bool.not_false, Bool.and_self]
      refine .of_error (Nat.le_refl _) (docsFailure_json err) ?_
      intro attempt member _
      obtain rfl := List.mem_singleton.mp member
      exact docsFailure_json err
  | ok plan' =>
    obtain ⟨s, scanned, later⟩ := Except.bind_ok.mp plan
    obtain ⟨call, -, same⟩ := Except.bind_ok.mp later
    obtain rfl := Except.ok.inj same
    obtain rfl := Except.ok.inj (read.symm.trans ((docsHostScan_agrees scanned).1.mpr (kept.output ⟨s, scanned⟩)))
    cases run : host.commands.run call.2 call.1 with
    | error err =>
      obtain ⟨raised, attempts, failed, outcome⟩ := @docsHostFailed_json host s json err
      have core : docsHostCore host args = ⟨.error raised, attempts⟩ := by
        rw [docsHostCore, plan]
        simp only [run]
        exact failed
      rw [docsHostWith_core core]
      exact outcome
    | ok result =>
      have core : docsHostCore host args = docsHostDone host s result := by
        rw [docsHostCore, plan]
        simp only [run]
      exact docsHostDone_json json core

/-- The one output of a call with `--json` is read. -/
theorem DocsWordsKept.intent_read (kept : DocsWordsKept host args) (json : asksJson args = true) :
    ∃ intent, docsHostIntent host args = .ok intent := by
  have only : ∃ output, onlyOutput host (hostOutputs args) = .ok output := by
    unfold onlyOutput
    split
    · rename_i path single
      obtain ⟨left, read, -⟩ := kept.published json path single
      exact ⟨left, exprResult_ok.mpr read⟩
    · exact ⟨[], rfl⟩
  obtain ⟨output, only⟩ := only
  exact ⟨⟨asksJson args, output⟩, docsHostIntent_ok.mpr ⟨rfl, only⟩⟩

theorem docsHost_outcome (kept : DocsWordsKept host args) (json : asksJson args = true) :
    DocsJsonOutcome (docsHost host args) := by
  obtain ⟨intent, read⟩ := kept.intent_read json
  rw [docsHost, read]
  exact docsHostWith_outcome kept json read

/-- The GUI tools end with a document as well. -/
theorem docsHostGui_outcome (kept : DocsWordsKept host args) (scanned : ∃ s, docsHostScan args .start = .ok s)
    (json : asksJson args = true) : DocsJsonOutcome (docsHostGui host args) := by
  obtain ⟨s, took⟩ := scanned
  have agrees := @docsHostScan_agrees host args s took
  have asked : s.json = true := (docsHostScan_uses took fun _ => rfl).1.trans ((Bool.false_or _).trans json)
  rw [docsHostGui, agrees.1.mpr (kept.output ⟨s, took⟩), agrees.2.mpr (kept.word ⟨s, took⟩)]
  change DocsJsonOutcome (docsGuiWith host args ⟨s.json, s.output⟩ (s.kept.headD []))
  unfold docsGuiWith
  rw [if_pos asked]
  split_ifs
  · exact .of_error (Nat.zero_le _) (docsFailure_json docsGuiRefusal)
      (fun attempt bad => absurd bad List.not_mem_nil)
  · exact docsHost_outcome kept json

theorem exprDomainError_plain : ¬ JsonObject false exprDomainError.message := by
  rintro ⟨members, ⟨body, same, -⟩, -⟩
  exact absurd (List.cons.inj same).1 (by decide)

/-- With `--json` the one output is read, and published where the call is
refused: otherwise the error is told as plain text. -/
theorem DocsHostAgrees.published (agrees : DocsHostAgrees host args) (json : asksJson args = true) {path : Chars}
    (single : hostOutputs args = [path]) : ∃ left, host.exprOf path = some left ∧
      ((∃ err, docsHostPlan args = .error err) → left ≠ [] → docsPublishText host left = none) := by
  have outcome := agrees.outcome json
  cases left : host.exprOf path with
  | none =>
    have failed : docsHostIntent host args = .error exprDomainError := by
      rw [docsHostIntent, docsIntentScan_uses, List.nil_append, single, onlyOutput, left]
      rfl
    rw [docsHost, failed] at outcome
    exact absurd (outcome.failure _ rfl).1 exprDomainError_plain
  | some left' =>
    refine ⟨left', rfl, fun refused output => ?_⟩
    obtain ⟨err, refused⟩ := refused
    have read : docsHostIntent host args = .ok ⟨asksJson args, left'⟩ :=
      docsHostIntent_ok.mpr ⟨rfl, by rw [single, onlyOutput, left]; rfl⟩
    by_contra failed
    obtain ⟨publish, failed⟩ := Option.ne_none_iff_exists'.mp failed
    have raised : (docsHost host args).result = .error publish := by
      rw [docsHost, read]
      dsimp only
      rw [docsHostWith_refused refused, docsHostRaised]
      simp only [ne_eq, output, not_false_eq_true, and_self, if_true, failed]
    exact (docsPublishText_told failed).not_json false (outcome.failure publish raised).1

/-- A host that can publish nothing. -/
def unwritableHost : DocsHost where
  commands :=
    { status := fun _ => .error docsBadOutput
      schema := fun _ => .error docsBadOutput
      verify := fun _ => .error docsBadOutput
      list := fun _ => .error docsBadOutput
      get := fun _ => .error docsBadOutput
      outline := fun _ => .error docsBadOutput
      search := fun _ => .error docsBadOutput
      extract := fun _ => .error docsBadOutput }
  shown _ := []
  refuses _ := some ⟨"notfound", ascii "--output parent does not exist"⟩
  exprOf := plainExpr

def unknownArgs : List Chars := [chars "--json", chars "nope", chars "--output", chars "x"]

/-- An output that reads as a number is spelled anew by `DocsHostIntent`
only. -/
example : docsHostIntent unwritableHost [chars "status", chars "--output", chars "007"] = .ok ⟨false, chars "7"⟩ ∧
    (docsHostScan [chars "status", chars "--output", chars "007"] .start).map DocsScan.output = .ok (chars "007") :=
  ⟨rfl, rfl⟩

end Machteld
