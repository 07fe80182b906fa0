import Machteld.Except
import Machteld.TclReads
import Machteld.Units.Parse

namespace Machteld

/-- The start of a name that is an option's. -/
def dashes : Bytes := ascii "--"

inductive CliKind
  | option
  | positional
deriving DecidableEq

/-- An entry of a spec that `CliNorm` went through; the key and the type are
`_key` and `_type` of its attributes, as `expr` leaves them. -/
structure CliEntry where
  name : Bytes
  kind : CliKind
  attrs : List (Bytes × Bytes)
  key : Bytes
  type : Bytes
deriving DecidableEq

/-- The key that an entry declares: its name, without the dashes of an
option. -/
def CliEntry.declared (e : CliEntry) : Bytes := if e.kind = .option then e.name.drop 2 else e.name

def cliAttrs : List Bytes := ["type", "default", "min", "max", "choices", "help", "required"].map ascii

def cliTypes : List Bytes := ["flag", "int", "string"].map ascii

/-- `Fail CLI` behind a test. -/
def cliRefuse (bad : Bool) (code : String) (message : Bytes) : Except TclError Unit :=
  if bad then .error (tclFail "CLI" code message) else .ok ()

/-- The value of an attribute. -/
def CliEntry.attr (e : CliEntry) (name : String) : Option Bytes := dictGet (ascii name) e.attrs

def isFlag (e : CliEntry) : Bool := e.type == ascii "flag"

def isInt (e : CliEntry) : Bool := e.type == ascii "int"

/-- The test of a value against one end of the range. -/
def cliBound (e : CliEntry) (bound : String) (outside : Bytes → Bool) (code : String) (words v : Bytes) :
    Except TclError Unit :=
  match e.attr bound with
  | none => .ok ()
  | some end' => cliRefuse (outside end') code (e.name ++ (words ++ (end' ++ (ascii ", got " ++ v))))

/-- The `switch` of `CliCheck` over the type. -/
def cliTyped (tcl : TclReads) (e : CliEntry) (v : Bytes) (code : String) : Except TclError Unit :=
  if isFlag e then cliRefuse (tcl.boolean v).isNone code (e.name ++ (ascii " needs a boolean, got " ++ quoted v))
  else if isInt e then do
    cliRefuse (tcl.integer v).isNone code (e.name ++ (ascii " needs a whole number, got " ++ quoted v))
    cliBound e "min" (fun low => tcl.less v low) code (ascii " must be at least ") v
    cliBound e "max" (fun high => tcl.less high v) code (ascii " must be at most ") v
  else .ok ()

def cliChosen (tcl : TclReads) (e : CliEntry) (v : Bytes) (code : String) : Except TclError Unit :=
  match e.attr "choices" with
  | none => .ok ()
  | some ch => do
    let choices ← tcl.listOf ch
    cliRefuse (!choices.contains v) code
      (e.name ++ (ascii " must be one of " ++ ((ascii ", ").intercalate choices ++ (ascii ", got " ++ quoted v))))

/-- `CliCheck` -/
def cliCheck (tcl : TclReads) (e : CliEntry) (v : Bytes) (code : String) : Except TclError Bytes := do
  cliTyped tcl e v code
  cliChosen tcl e v code
  return v

def cliDict (tcl : TclReads) (name attrs : Bytes) : Except TclError (List (Bytes × Bytes)) :=
  match tcl.dictOf attrs with
  | some d => .ok d
  | none =>
    .error (tclFail "CLI" "badvalue" (ascii "cli: attributes for " ++ (quoted name ++ ascii " must be a dict")))

/-- The test of the attribute names. -/
def cliKnown (name : Bytes) (attrs : List (Bytes × Bytes)) : Except TclError Unit :=
  match attrs.find? fun attr => !cliAttrs.contains attr.1 with
  | none => .ok ()
  | some attr =>
    .error (tclFail "CLI" "badvalue" (ascii "cli: unknown attribute " ++ (quoted attr.1 ++ (ascii " for " ++
      (quoted name ++ ascii " (known: type default min max choices help required)")))))

/-- The test that an end of the range is a whole number. -/
def cliWhole (tcl : TclReads) (e : CliEntry) (bound : String) : Except TclError Unit :=
  cliRefuse ((e.attr bound).any fun end' => (tcl.integer end').isNone) "badvalue"
    (ascii "cli: " ++ (ascii bound ++ (ascii " for " ++ (quoted e.name ++ ascii " must be a whole number"))))

/-- The tests of the range that an entry declares. -/
def cliRange (tcl : TclReads) (e : CliEntry) : Except TclError Unit := do
  cliRefuse (!isInt e && ((e.attr "min").isSome || (e.attr "max").isSome)) "badvalue"
    (ascii "cli: min and max for " ++ (quoted e.name ++ ascii " require type int"))
  cliWhole tcl e "min"
  cliWhole tcl e "max"
  cliRefuse ((e.attr "min").any fun low => (e.attr "max").any fun high => tcl.less high low) "badvalue"
    (ascii "cli: min for " ++ (quoted e.name ++ ascii " cannot exceed max"))

def cliCheckAll (tcl : TclReads) (e : CliEntry) : List Bytes → Except TclError Unit
  | [] => .ok ()
  | v :: vs => do
    let _ ← cliCheck tcl e v "badvalue"
    cliCheckAll tcl e vs

/-- The tests of the choices that an entry declares. -/
def cliChoices (tcl : TclReads) (e : CliEntry) : Except TclError Unit :=
  match e.attr "choices" with
  | none => .ok ()
  | some ch =>
    match tcl.listOf ch with
    | .error _ =>
      .error (tclFail "CLI" "badvalue" (ascii "cli: choices for " ++ (quoted e.name ++ ascii " must be a list")))
    | .ok choices => do
      cliRefuse (isFlag e) "badvalue" (ascii "cli: " ++
        (quoted e.name ++ ascii " is a flag and cannot declare choices"))
      cliCheckAll tcl e choices

def cliDefaultCheck (tcl : TclReads) (e : CliEntry) : Except TclError Unit :=
  match e.attr "default" with
  | none => .ok ()
  | some v => cliCheckAll tcl e [v]

/-- The `type` of an entry; the ternary of `expr` hands it on. -/
def cliType (tcl : TclReads) (attrs : List (Bytes × Bytes)) : Except TclError Bytes :=
  match dictGet (ascii "type") attrs with
  | some type => tcl.expr type
  | none => .ok (ascii "string")

/-- One turn of the loop of `CliNorm`. -/
def cliEntry (tcl : TclReads) (seen : List Bytes) (name attrs : Bytes) : Except TclError CliEntry := do
  let attrs ← cliDict tcl name attrs
  cliKnown name attrs
  let type ← cliType tcl attrs
  cliRefuse (!cliTypes.contains type) "badvalue" (ascii "cli: unknown type " ++ (quoted type ++ (ascii " for " ++
    (quoted name ++ ascii " (known: flag int string)"))))
  let kind := if dashes.isPrefixOf name then CliKind.option else .positional
  cliRefuse (name == ascii "--help") "badvalue"
    (ascii "cli: --help is provided by the parser and cannot be redeclared")
  cliRefuse (kind == .positional && type == ascii "flag") "badvalue"
    (ascii "cli: " ++ (quoted name ++ ascii " is positional and cannot be a flag"))
  let key ← tcl.expr (if kind = .option then name.drop 2 else name)
  cliRefuse (key == []) "badvalue" (ascii "cli: \"--\" is not an option name")
  cliRefuse (seen.contains key) "badvalue" (ascii "cli: " ++ (quoted name ++
    (ascii " collides with another entry on the key " ++ quoted key)))
  let e : CliEntry := ⟨name, kind, attrs, key, type⟩
  cliRefuse ((e.attr "required").any fun v => (tcl.boolean v).isNone) "badvalue"
    (ascii "cli: required for " ++ (quoted name ++ ascii " must be a boolean"))
  cliRange tcl e
  cliChoices tcl e
  cliDefaultCheck tcl e
  return e

def cliEntries (tcl : TclReads) : List Bytes → List (Bytes × Bytes) → Except TclError (List CliEntry)
  | _, [] => .ok []
  | seen, (name, attrs) :: spec => do
    let e ← cliEntry tcl seen name attrs
    let es ← cliEntries tcl (e.key :: seen) spec
    return e :: es

/-- `CliNorm` -/
def cliNorm (tcl : TclReads) (spec : Bytes) : Except TclError (List CliEntry) :=
  match tcl.dictOf spec with
  | none => .error (tclFail "CLI" "badvalue" (ascii "cli: the spec must be a dict of name -> attributes"))
  | some d => do
    let words ← tcl.listOf spec
    cliRefuse (words.length != 2 * d.length) "badvalue"
      (ascii "cli: the spec names something twice (a dict keeps only the last)")
    cliEntries tcl [] d

end Machteld
