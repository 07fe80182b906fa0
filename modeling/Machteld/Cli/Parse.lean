import Machteld.Cli.Fits

namespace Machteld

abbrev CliDict := List (Bytes × Bytes)

/-- `CliDefault` -/
def cliDefault (e : CliEntry) : Bytes := (e.attr "default").getD (if isFlag e then ascii "0" else [])

def cliRequired (tcl : TclReads) (e : CliEntry) : Bool := (e.attr "required").bind tcl.boolean == some true

def cliPositionals (norm : List CliEntry) : List CliEntry := norm.filter fun e => e.kind == .positional

/-- The variables of the loop over the words. -/
structure CliScan where
  res : CliDict
  rest : List Bytes
  endopts : Bool
  supplied : List Bytes

def cliUsageError (message : Bytes) : TclError := tclFail "CLI" "usage" message

def cliFound (norm : List CliEntry) (a : Bytes) : Option CliEntry :=
  norm.find? fun e => e.kind == .option && e.name == a

/-- The loop over the words. -/
def cliScan (tcl : TclReads) (norm : List CliEntry) : List Bytes → CliScan → Except TclError CliScan
  | [], s => .ok s
  | a :: argv, s =>
    if s.endopts || !dashes.isPrefixOf a then cliScan tcl norm argv { s with rest := s.rest ++ [a] }
    else if a = dashes then cliScan tcl norm argv { s with endopts := true }
    else if a = ascii "--help" then cliScan tcl norm argv { s with res := dictPut (ascii "help") (ascii "1") s.res }
    else
      match cliFound norm a with
      | none => .error (cliUsageError (ascii "unknown option " ++ quoted a))
      | some e =>
        if isFlag e then
          cliScan tcl norm argv { s with res := dictPut e.key (ascii "1") s.res, supplied := s.supplied ++ [e.key] }
        else
          match argv with
          | [] => .error (cliUsageError (e.name ++ ascii " needs a value"))
          | nxt :: argv =>
            if dashes.isPrefixOf nxt && nxt != dashes then .error (cliUsageError (e.name ++ ascii " needs a value"))
            else do
              let v ← cliCheck tcl e nxt "usage"
              cliScan tcl norm argv { s with res := dictPut e.key v s.res, supplied := s.supplied ++ [e.key] }

/-- The loop over the positionals: the result, and the words that are left.
-/
def cliAssign (tcl : TclReads) (wantsHelp : Bool) :
    List CliEntry → List Bytes → CliDict → Except TclError (CliDict × List Bytes)
  | [], rest, res => .ok (res, rest)
  | e :: es, [], res => do
    cliRefuse (!wantsHelp && cliRequired tcl e) "usage"
      (ascii "missing required argument <" ++ (e.name ++ ascii ">"))
    cliAssign tcl wantsHelp es [] res
  | e :: es, w :: rest, res => do
    let v ← cliCheck tcl e w "usage"
    cliAssign tcl wantsHelp es rest (dictPut e.key v res)

/-- A required option that was not supplied and has no default. -/
def cliMissing (tcl : TclReads) (supplied : List Bytes) (e : CliEntry) : Bool :=
  e.kind == .option && cliRequired tcl e && !supplied.contains e.key && (e.attr "default").isNone

/-- The result before the words are gone through. -/
def cliStart (norm : List CliEntry) : CliDict :=
  dictPut (ascii "help") (ascii "0") (dictPuts (norm.map fun e => (e.key, cliDefault e)) [])

/-- What `CliParse` does behind the loop over the words. -/
def cliFinish (tcl : TclReads) (norm : List CliEntry) (s : CliScan) : Except TclError CliDict := do
  let wantsHelp := dictGet (ascii "help") s.res == some (ascii "1")
  let (res, rest) ← cliAssign tcl wantsHelp (cliPositionals norm) s.rest s.res
  match rest with
  | w :: _ => .error (cliUsageError (ascii "unexpected argument " ++ quoted w))
  | [] =>
    if wantsHelp then .ok res
    else
      match norm.find? (cliMissing tcl s.supplied) with
      | some e => .error (cliUsageError (ascii "missing required option " ++ e.name))
      | none => .ok res

/-- `CliParse` -/
def cliParse (tcl : TclReads) (argv : List Bytes) (norm : List CliEntry) : Except TclError CliDict := do
  let s ← cliScan tcl norm argv ⟨cliStart norm, [], false, []⟩
  cliFinish tcl norm s

end Machteld
