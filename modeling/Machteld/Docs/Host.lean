import Machteld.Docs.Json

namespace Machteld

/-- The subcommands that `DocsHostCommand` knows. -/
inductive DocsSubcommand
  | status
  | schema
  | verify
  | list
  | get
  | outline
  | search
  | extract

def docsSubcommand (word : Chars) : Option DocsSubcommand :=
  if word = chars "status" then some .status
  else if word = chars "schema" then some .schema
  else if word = chars "verify" then some .verify
  else if word = chars "list" then some .list
  else if word = chars "get" then some .get
  else if word = chars "outline" then some .outline
  else if word = chars "search" then some .search
  else if word = chars "extract" then some .extract
  else none

/-- What the subcommands of `docs` do with their arguments. -/
structure DocsCommands where
  status : List Chars → Except TclError DocsStatusFacts
  schema : List Chars → Except TclError DocsSchemaFacts
  verify : List Chars → Except TclError DocsVerifyFacts
  list : List Chars → Except TclError (DocsPage DocSummary)
  get : List Chars → Except TclError DocsText
  outline : List Chars → Except TclError DocsOutlineFacts
  search : List Chars → Except TclError (DocsPage DocsMatch)
  extract : List Chars → Except TclError DocsExtractFacts

def DocsCommands.run (commands : DocsCommands) (args : List Chars) : DocsSubcommand → Except TclError DocsResult
  | .status => (commands.status args).map .status
  | .schema => (commands.schema args).map .schema
  | .verify => (commands.verify args).map .verify
  | .list => (commands.list args).map .list
  | .get => (commands.get args).map .get
  | .outline => (commands.outline args).map .outline
  | .search => (commands.search args).map .search
  | .extract => (commands.extract args).map .extract

/-- Why a file cannot be published: the code of `DocsFail`, and its message
behind `docs: `. -/
structure PublishRefusal where
  code : String
  message : Bytes

/-- What the host works with: the subcommands, the string of a result that
is shown as it is, whether a file can be published at a path, and what
`expr` leaves of a word that it hands on, none of a NaN. -/
structure DocsHost where
  commands : DocsCommands
  shown : DocsResult → Bytes
  refuses : Chars → Option PublishRefusal
  exprOf : Chars → Option Chars

def docsBadOutput : TclError := docsFail "badvalue" (ascii "docs: --output must be a nonempty Windows path")

/-- `DocsPublishText`; none where the text is published. -/
def docsPublishText (host : DocsHost) (destination : Chars) : Option TclError :=
  if destination = [] ∨ 32767 < destination.length then some docsBadOutput
  else (host.refuses destination).map fun refusal => docsFail refusal.code (ascii "docs: " ++ refusal.message)

/-- What the option loop of `DocsHostCore` has found. -/
structure DocsScan where
  json : Bool
  output : Chars
  outputSeen : Bool
  kept : List Chars

def DocsScan.start : DocsScan := ⟨false, [], false, []⟩

/-- The option loop of `DocsHostCore`. -/
def docsHostScan : List Chars → DocsScan → Except TclError DocsScan
  | [], s => .ok s
  | arg :: args, s =>
    if arg = chars "--json" then
      if s.json then .error (docsFail "usage" (ascii "docs: repeated --json option")) else docsHostScan args
        { s with json := true }
    else if arg = chars "--output" then
      match args with
      | [] => .error (docsFail "usage" (ascii "docs: --output needs one value"))
      | output :: args =>
        if s.outputSeen then .error (docsFail "usage" (ascii "docs: --output needs one value"))
        else if output = [] ∨ 32767 < output.length then .error docsBadOutput
        else docsHostScan args { s with output := output, outputSeen := true }
    else docsHostScan args { s with kept := s.kept ++ [arg] }

def hostOptions : List Chars :=
  [chars "--scope", chars "--type", chars "--offset", chars "--limit", chars "--section",
    chars "--format", chars "--all"]

/-- `DocsHostTranslate` -/
def docsHostTranslate (args : List Chars) : List Chars :=
  args.map fun arg => if hostOptions.contains arg then arg.drop 1 else arg

/-- `DocsHostCommand` -/
def docsHostCommand : List Chars → Except TclError (DocsSubcommand × List Chars)
  | [] => .ok (.get, [chars "machteld/agent", chars "-all", chars "1"])
  | word :: args =>
    match docsSubcommand word with
    | some subcommand => .ok (subcommand, docsHostTranslate args)
    | none => .error (docsFail "usage" (ascii "docs: unknown subcommand \"" ++ (tclText word ++ ascii "\"")))

/-- What `DocsHostCore` does before it runs a subcommand. -/
def docsHostPlan (args : List Chars) : Except TclError (DocsScan × (DocsSubcommand × List Chars)) := do
  let s ← docsHostScan args .start
  let call ← docsHostCommand s.kept
  return (s, call)

def trimNewlines (s : Bytes) : Bytes := (s.reverse.dropWhile (· == lf)).reverse

def pageLines {α : Type} (summary : α → DocSummary) (page : DocsPage α) : Bytes :=
  trimNewlines (page.items.flatMap (fun item =>
    tclText (summary item).id ++ (tab :: tclText (summary item).title ++
      (tab :: tclText (summary item).summary ++ [lf]))) ++
      if page.truncated then ascii "-- more at offset " ++ (page.next.elim [] decimal ++ ascii " --\n") else [])

/-- `DocsHostText` -/
def docsHostText (host : DocsHost) : DocsResult → Bytes
  | .get text => tclText text.page.items ++
      if text.page.truncated then ascii "\n\n-- truncated; continue with --offset " ++
        (text.page.next.elim [] decimal ++ ascii " --") else []
  | .list page => pageLines id page
  | .search page => pageLines DocsMatch.summary page
  | .outline facts => trimNewlines (tclText facts.id ++ (ascii " -- " ++ (tclText facts.title ++ (lf ::
      facts.sections.flatMap fun p => ascii "  " ++ (tclText p.1 ++ (tab :: tclText p.2 ++ [lf]))))))
  | result => host.shown result

/-- A call of `DocsPublishText`, with the error where it fails. -/
structure DocsAttempt where
  path : Chars
  text : Bytes
  failed : Option TclError

/-- An error that `DocsHostCore` raises, with its mark. -/
structure DocsRaised where
  err : TclError
  attempted : Bool

/-- How `DocsHostCore` or `DocsHost` ends, and what was published. -/
structure DocsOutcome (ε : Type) where
  result : Except ε Bytes
  attempts : List DocsAttempt

/-- An error gets a code of `docs` where it has none. -/
def docsHostError (err : TclError) : TclError :=
  if err.errorcode.take 2 = [ascii "MACHTELD", ascii "DOCS"] then err
  else ⟨ascii "docs: " ++ err.message, [ascii "MACHTELD", ascii "DOCS", ascii "oserror"]⟩

/-- The failure document. -/
def docsFailure (err : TclError) : Bytes :=
  docsJObject [(ascii "ok", ascii "false"),
    (ascii "error", docsJObject [(ascii "domain", docsJString (ascii "DOCS")),
      (ascii "code", docsJString (err.errorcode.getD 2 [])), (ascii "message", docsJString err.message)])]

/-- The success document. -/
def docsSuccess (result : DocsResult) : Bytes :=
  docsJObject [(ascii "ok", ascii "true"), (ascii "result", docsJsonResult result)]

/-- A publication by `DocsHostCore`, and how it goes on behind it. -/
def docsHostPublish (host : DocsHost) (output : Chars) (rendered : Bytes) (done : Except DocsRaised Bytes) :
    DocsOutcome DocsRaised :=
  match docsPublishText host output with
  | some err => ⟨.error ⟨err, true⟩, [⟨output, rendered, some err⟩]⟩
  | none => ⟨done, [⟨output, rendered, none⟩]⟩

/-- `DocsHostCore` behind a subcommand that failed. -/
def docsHostFailed (host : DocsHost) (s : DocsScan) (err : TclError) : DocsOutcome DocsRaised :=
  let rendered := if s.json then docsFailure (docsHostError err) else (docsHostError err).message
  let raised : TclError := ⟨rendered, (docsHostError err).errorcode⟩
  if s.output = [] then ⟨.error ⟨raised, false⟩, []⟩ else docsHostPublish host s.output rendered
    (.error ⟨raised, true⟩)

/-- `DocsHostCore` behind a subcommand that succeeded. -/
def docsHostDone (host : DocsHost) (s : DocsScan) (result : DocsResult) : DocsOutcome DocsRaised :=
  let rendered := if s.json then docsSuccess result else docsHostText host result
  if s.output = [] then ⟨.ok rendered, []⟩ else docsHostPublish host s.output rendered (.ok [])

/-- `DocsHostCore` -/
def docsHostCore (host : DocsHost) (args : List Chars) : DocsOutcome DocsRaised :=
  match docsHostPlan args with
  | .error err => ⟨.error ⟨err, false⟩, []⟩
  | .ok plan =>
    match host.commands.run plan.2.2 plan.2.1 with
    | .error err => docsHostFailed host plan.1 err
    | .ok result => docsHostDone host plan.1 result

/-- What `DocsHostIntent` returns. -/
structure DocsIntent where
  json : Bool
  output : Chars

/-- The loop of `DocsHostIntent`, with the outputs so far. -/
def docsIntentScan : List Chars → Bool → List Chars → Bool × List Chars
  | [], json, outputs => (json, outputs)
  | arg :: args, json, outputs =>
    if arg = chars "--output" then
      match args with
      | [] => (json, outputs ++ [[]])
      | output :: args => docsIntentScan args json (outputs ++ [output])
    else if arg = chars "--json" then docsIntentScan args true outputs
    else docsIntentScan args json outputs

/-- The one output, which the ternary of `expr` hands on. -/
def onlyOutput (host : DocsHost) : List Chars → Except TclError Chars
  | [output] => exprResult (host.exprOf output)
  | _ => .ok []

/-- `DocsHostIntent` -/
def docsHostIntent (host : DocsHost) (args : List Chars) : Except TclError DocsIntent :=
  let scanned := docsIntentScan args false []
  (onlyOutput host scanned.2).map fun output => ⟨scanned.1, output⟩

/-- The test of `DocsHost` for a failure document. -/
def startsFailure (text : Bytes) : Bool := (ascii "\x7b\"ok\":false,").isPrefixOf text

/-- `DocsHost` behind an error of `DocsHostCore`. -/
def docsHostRaised (host : DocsHost) (intent : DocsIntent) (raised : DocsRaised) (attempts : List DocsAttempt) :
    DocsOutcome TclError :=
  let err := docsHostError raised.err
  let result := if intent.json && !startsFailure err.message then docsFailure err else err.message
  if intent.output ≠ [] ∧ raised.attempted = false then
    match docsPublishText host intent.output with
    | some publish => ⟨.error publish, attempts ++ [⟨intent.output, result, some publish⟩]⟩
    | none => ⟨.error ⟨result, err.errorcode⟩, attempts ++ [⟨intent.output, result, none⟩]⟩
  else ⟨.error ⟨result, err.errorcode⟩, attempts⟩

/-- `DocsHost`, behind its intent. -/
def docsHostWith (host : DocsHost) (args : List Chars) (intent : DocsIntent) : DocsOutcome TclError :=
  let core := docsHostCore host args
  match core.result with
  | .ok text => ⟨.ok text, core.attempts⟩
  | .error raised => docsHostRaised host intent raised core.attempts

/-- `DocsHost` -/
def docsHost (host : DocsHost) (args : List Chars) : DocsOutcome TclError :=
  match docsHostIntent host args with
  | .error err => ⟨.error err, []⟩
  | .ok intent => docsHostWith host args intent

/-- The loop of `DocsGuiCommand`: the words that are kept. -/
def docsGuiKept : List Chars → List Chars
  | [] => []
  | arg :: args =>
    if arg = chars "--output" then
      match args with
      | [] => []
      | _ :: args => docsGuiKept args
    else if arg = chars "--json" then docsGuiKept args
    else arg :: docsGuiKept args

/-- `DocsGuiCommand`; the ternary of `expr` hands on the first word. -/
def docsGuiCommand (host : DocsHost) (args : List Chars) : Except TclError Chars :=
  match docsGuiKept args with
  | word :: _ => exprResult (host.exprOf word)
  | [] => .ok []

def docsGuiRefusal : TclError :=
  docsFail "usage" (ascii "docs: GUI tools require --output FILE for documentation queries")

/-- `DocsHostGui`, behind its intent and command. -/
def docsGuiWith (host : DocsHost) (args : List Chars) (intent : DocsIntent) (command : Chars) :
    DocsOutcome TclError :=
  if intent.output = [] ∧ command ≠ chars "extract" then
    if intent.json then ⟨.error ⟨docsFailure docsGuiRefusal, docsGuiRefusal.errorcode⟩, []⟩
    else ⟨.error docsGuiRefusal, []⟩
  else docsHost host args

/-- `DocsHostGui` -/
def docsHostGui (host : DocsHost) (args : List Chars) : DocsOutcome TclError :=
  let read := (docsHostIntent host args).bind fun intent => (docsGuiCommand host args).map fun command =>
    (intent, command)
  match read with
  | .error err => ⟨.error err, []⟩
  | .ok (intent, command) => docsGuiWith host args intent command

end Machteld
