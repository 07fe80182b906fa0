import Machteld.Json.Decode

namespace Machteld

/-- How the call of a handler completes: normally, or with a nonzero code.
An error always has an `-errorcode` among its options. -/
inductive Completion
  | ok (result : Obj)
  | raised (code : Int) (result : Obj) (errorcode : Option Obj) (nonzero : code ≠ 0)
      (coded : code = 1 → errorcode ≠ none)

/-- A procedure `worker on` has defined: its parameters with their defaults,
and what a call with a list of arguments comes to. -/
structure Handler where
  params : List (Bytes × Option Obj)
  run : List Obj → Completion

/-- `info default` -/
def infoDefault (handler : Handler) (aname : Bytes) : Option Obj := (dictGet aname handler.params).join

/-- The arguments of the call by name, or the name that is missing. -/
def bindParams (req : List (Bytes × Obj)) (handler : Handler) : List Bytes → Except Bytes (List Obj)
  | [] => .ok []
  | aname :: anames =>
    match dictGet aname req with
    | some value => (bindParams req handler anames).map fun argv => value :: argv
    | none =>
      if aname = ascii "args" then bindParams req handler anames
      else
        match infoDefault handler aname with
        | some dflt => (bindParams req handler anames).map fun argv => dflt :: argv
        | none => .error aname

/-- `dict create id $id ok 0 code $code msg $msg` -/
def failureReply (id code : Obj) (msg : Bytes) : List (Bytes × Obj) :=
  [(ascii "id", id), (ascii "ok", .str (ascii "0")), (ascii "code", code), (ascii "msg", .str msg)]

def successReply (id res : Obj) : List (Bytes × Obj) :=
  [(ascii "id", id), (ascii "ok", .str (ascii "1")), (ascii "result", res)]

/-- `dict get $opts -errorcode` where there is none. -/
def noErrorcode : TclError :=
  ⟨ascii "key \"-errorcode\" not known in dictionary",
    [ascii "TCL", ascii "LOOKUP", ascii "DICT", ascii "-errorcode"]⟩

/-- The reply to a completed call. -/
def workerOutcome (id : Obj) : Completion → Except TclError (List (Bytes × Obj))
  | .ok res => .ok (successReply id res)
  | .raised _ res (some code) _ _ =>
    .ok [(ascii "id", id), (ascii "ok", .str (ascii "0")), (ascii "code", code), (ascii "msg", res)]
  | .raised _ _ none _ _ => .error noErrorcode

section

variable (yy : Yyjson) (tcl : Tcl) (ops : List (Bytes × Handler))

/-- The handler `op` names, bound and run. -/
def workerCall (req : List (Bytes × Obj)) (id op : Obj) : Except TclError (List (Bytes × Obj)) :=
  let op := getString yy tcl op
  match dictGet op ops with
  | none =>
    .ok (failureReply id (.str (ascii "MACHTELD WORKER notfound"))
      (ascii "no handler for \"" ++ (op ++ ascii "\"")))
  | some handler =>
    match bindParams req handler (handler.params.map Prod.fst) with
    | .error aname =>
      .ok (failureReply id (.str (ascii "MACHTELD WORKER usage"))
        (op ++ (ascii " needs \"" ++ (aname ++ ascii "\""))))
    | .ok argv => workerOutcome id (handler.run argv)

/-- `[expr {[dict exists $req key] ? [dict get $req key] : dflt}]` -/
def exprGet (key : Bytes) (dflt : Obj) (req : List (Bytes × Obj)) : Except TclError Obj :=
  match dictGet key req with
  | some value => tcl.exprOf value
  | none => .ok dflt

def parseReply (msg : String) : List (Bytes × Obj) :=
  failureReply (.str (ascii "-1")) (.str (ascii "MACHTELD WORKER parse")) (ascii msg)

def workerDispatch (line : Bytes) : Except TclError (List (Bytes × Obj)) :=
  match jsonDecode yy tcl line with
  | .error _ => .ok (parseReply "request is not valid JSON")
  | .ok req =>
    match jsonEncode yy tcl [.str (ascii "-plain"), req] with
    | .error _ => .ok (parseReply "request must be a JSON object")
    | .ok encoded =>
      if encoded.head? = some 0x7B then
        (dictEntries tcl req).bind fun entries =>
          (exprGet tcl (ascii "id") (.str (ascii "-1")) entries).bind fun id =>
            (exprGet tcl (ascii "op") (.str []) entries).bind fun op => workerCall yy tcl ops entries id op
      else .ok (parseReply "request must be a JSON object")

/-- An `-errorcode` as the list Tcl keeps it. -/
def errorcodeObj (e : TclError) : Obj := .list (e.errorcode.map Obj.str)

/-- The words of `json encode -plain -dict $reply`. -/
def replyWords (reply : List (Bytes × Obj)) : List Obj :=
  [.str (ascii "-plain"), .str (ascii "-dict"), .dict reply]

def unencodable (reason : Bytes) : Bytes := ascii "reply is not encodable as plain JSON: " ++ reason

/-- The first half of `WorkerAnswer`: what `WorkerDispatch` raises becomes a
reply with id -1. -/
def caughtReply : Except TclError (List (Bytes × Obj)) → Except TclError (List (Bytes × Obj))
  | .ok reply => .ok reply
  | .error e => (tcl.exprOf (errorcodeObj e)).map fun code => failureReply (.str (ascii "-1")) code e.message

/-- The second half: a reply that does not encode is answered all the same.
-/
def encodeReply (reply : List (Bytes × Obj)) : Except TclError Bytes :=
  match jsonEncode yy tcl (replyWords reply) with
  | .ok encoded => .ok encoded
  | .error e =>
    (exprGet tcl (ascii "id") (.str (ascii "-1")) reply).bind fun id =>
      jsonEncode yy tcl
        (replyWords (failureReply id (.str (ascii "MACHTELD WORKER failed")) (unencodable e.message)))

/-- The line `WorkerAnswer` hands to `puts`; an error is one it raises. -/
def workerAnswer (line : Bytes) : Except TclError Bytes :=
  (caughtReply tcl (workerDispatch yy tcl ops line)).bind (encodeReply yy tcl)

end

end Machteld
