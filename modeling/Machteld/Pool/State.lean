import Machteld.Decimal
import Machteld.Json.Line

namespace Machteld

/-- A token of `child start`. -/
abbrev Child := Nat

/-- A request with the id the pool gave it. -/
structure PoolItem where
  id : Nat
  request : List (Bytes × Obj)
  numbered : dictGet (ascii "id") request = some (.str (decimal id))

/-- A reply with the two members every reply has. -/
structure PoolReply where
  reply : List (Bytes × Obj)
  id : Obj
  ok : Obj
  hasId : dictGet (ascii "id") reply = some id
  hasOk : dictGet (ascii "ok") reply = some ok

/-- The dict of one pool. The last four fields are not in it: the next token
of `child start`, the worker whose lines `PoolReadable` is reading, the
requests that were written, and the ids that were put back. -/
structure Pool where
  width : Nat
  maxtries : Nat
  positive : 1 ≤ maxtries
  pending : List PoolItem
  results : List PoolReply
  inflight : List (Child × PoolItem)
  workers : List Child
  nextid : Nat
  dead : Nat
  requeued : Nat
  errbuf : List Char
  fatal : Bytes
  done : Bool
  submitted : Nat
  submittedOnce : Bool
  tries : List (Nat × Nat)
  children : Child
  control : Option Child
  sent : List (Child × PoolItem)
  putBack : List Nat

def poolFail (code : String) (message : Bytes) : TclError :=
  ⟨message, [ascii "MACHTELD", ascii "POOL", ascii code]⟩

def poolErrcap : Nat := 65536

/-- `string range ... end-65535 end` -/
def errTail (buf : List Char) : List Char := (buf.reverse.take poolErrcap).reverse

/-- The pool with a new worker, or the error where `child start` has failed
with a message. -/
def poolSpawn (s : Pool) : Option Bytes → Except TclError (Pool × Child)
  | some c => .error (poolFail "launch" (ascii "pool: cannot start a worker: " ++ c))
  | none => .ok ({ s with workers := s.workers ++ [s.children], children := s.children + 1 }, s.children)

def poolSpawns : List (Option Bytes) → Pool → Except TclError Pool
  | [], s => .ok s
  | spawn :: spawns, s => (poolSpawn s spawn).bind fun (s, _) => poolSpawns spawns s

/-- `PoolCreate` behind its options, from the next token and how the
launches end. -/
def poolCreate (maxtries : Nat) (positive : 1 ≤ maxtries) (children : Child) (spawns : List (Option Bytes)) :
    Except TclError Pool :=
  poolSpawns spawns
    { width := spawns.length, maxtries := maxtries, positive := positive, pending := [],
      results := [], inflight := [],
      workers := [], nextid := 0, dead := 0, requeued := 0, errbuf := [], fatal := [], done := true, submitted := 0,
      submittedOnce := false, tries := [], children := children, control := none, sent := [], putBack := [] }

def poolCheckDone (s : Pool) : Pool :=
  if s.pending.isEmpty ∧ s.inflight.isEmpty then { s with done := true } else s

def poisonReply (id tries : Nat) : PoolReply where
  reply := [(ascii "id", .str (decimal id)), (ascii "ok", .str (ascii "0")),
    (ascii "code", .str (ascii "MACHTELD POOL poison")),
    (ascii "msg", .str (ascii "killed " ++ (decimal tries ++ ascii " workers; giving up")))]
  id := .str (decimal id)
  ok := .str (ascii "0")
  hasId := rfl
  hasOk := rfl

def poolRequeue (s : Pool) (c : Child) (infl : List (Child × PoolItem)) : Pool :=
  match dictGet c infl with
  | none => s
  | some item =>
    let tries := (dictGet item.id s.tries).getD 0 + 1
    let s := { s with tries := dictPut item.id tries s.tries }
    if tries < s.maxtries then
      { s with pending := item :: s.pending, requeued := s.requeued + 1, putBack := s.putBack ++ [item.id] }
    else { s with results := s.results ++ [poisonReply item.id tries] }

/-- The first half of `PoolDied`: the worker is gone and its item goes back.
-/
def poolLost (s : Pool) (c : Child) : Pool :=
  let infl := s.inflight
  let s := { s with workers := s.workers.filter (· ≠ c), dead := s.dead + 1, inflight := dictRemove c infl }
  poolRequeue s c infl

/-- The second half: a replacement, where items wait. -/
def poolReplace (feed : Pool → Child → Pool) (spawn : Option Bytes) (s : Pool) : Pool :=
  if s.pending.isEmpty then s
  else
    match poolSpawn s spawn with
    | .error e => { s with fatal := e.message, done := true }
    | .ok (s, new) => feed s new

/-- `PoolDied`; `feed` is what feeding the replacement does. -/
def poolDied (feed : Pool → Child → Pool) (spawn : Option Bytes) (s : Pool) (c : Child) : Pool :=
  if c ∈ s.workers then poolCheckDone (poolReplace feed spawn (poolLost s c)) else s

/-- The first pending item is on its way to a worker. -/
def poolTake (s : Pool) (c : Child) (item : PoolItem) (pending : List PoolItem) : Pool :=
  { s with pending := pending, inflight := dictPut c item s.inflight }

/-- `PoolFeed`. Each element of the list is a write that fails, with how the
launch of the replacement ends; where the list ends, the write goes through.
-/
def poolFeed : List (Option Bytes) → Pool → Child → Pool
  | [], s, c =>
    if (dictGet c s.inflight).isSome then s
    else
      match s.pending with
      | [] => poolCheckDone s
      | item :: pending =>
        let s := poolTake s c item pending
        { s with sent := s.sent ++ [(c, item)] }
  | spawn :: failures, s, c =>
    if (dictGet c s.inflight).isSome then s
    else
      match s.pending with
      | [] => poolCheckDone s
      | item :: pending => poolDied (poolFeed failures) spawn (poolTake s c item pending) c

/-- One outcome of `gets`, with what `eof` says where no line is complete.
-/
inductive Gets
  | raised
  | line (s : Bytes)
  | dry (eof : Bool)

/-- A protocol error goes to the tail of stderr. -/
def poolProtocol (s : Pool) (what : String) : Pool :=
  { s with errbuf := errTail (s.errbuf ++ ("protocol error: worker " ++ (what ++ "\n")).toList) }

def poolStderr (s : Pool) (chunk : List Char) : Pool := { s with errbuf := errTail (s.errbuf ++ chunk) }

/-- `PoolReadable` up to its loop; `info` tells whether `child info` knows
the worker and its stdout. -/
def poolReadable (s : Pool) (c : Child) (info : Bool) (spawn : Option Bytes) (failures : List (Option Bytes)) :
    Pool :=
  if info then { s with control := some c } else poolDied (poolFeed failures) spawn s c

section

variable (yy : Yyjson) (tcl : Tcl)

def replyOf (entries : List (Bytes × Obj)) : Option PoolReply :=
  match hasId : dictGet (ascii "id") entries, hasOk : dictGet (ascii "ok") entries with
  | some id, some ok => some ⟨entries, id, ok, hasId, hasOk⟩
  | _, _ => none

/-- The reply a line holds, or nothing for a malformed one. -/
def readReply (line : Bytes) : Option PoolReply :=
  match jsonDecode yy tcl line with
  | .error _ => none
  | .ok rep =>
    match jsonEncode yy tcl [.str (ascii "-plain"), rep] with
    | .error _ => none
    | .ok encoded =>
      if encoded.head? = some 0x7B then
        match dictEntries tcl rep with
        | .error _ => none
        | .ok entries => replyOf entries
      else none

/-- The reply is taken and its worker is free. -/
def poolReceive (s : Pool) (c : Child) (rep : PoolReply) : Pool :=
  { s with results := s.results ++ [rep], inflight := dictRemove c s.inflight }

/-- One turn of the loop of `PoolReadable`. -/
def poolTurn (s : Pool) (c : Child) (spawn : Option Bytes) (failures : List (Option Bytes)) : Gets → Pool
  | .raised =>
    poolDied (poolFeed failures) spawn { poolProtocol s "wrote a reply that is not UTF-8" with control := none } c
  | .dry eof =>
    let s := { s with control := none }
    if eof then poolDied (poolFeed failures) spawn s c else poolCheckDone s
  | .line [] => s
  | .line (a :: line) =>
    match readReply yy tcl (a :: line) with
    | none => poolDied (poolFeed failures) spawn { poolProtocol s "wrote a malformed reply" with control := none } c
    | some rep =>
      match dictGet c s.inflight with
      | none =>
        poolDied (poolFeed failures) spawn { poolProtocol s "replied with an unexpected id" with control := none } c
      | some item =>
        if getString yy tcl rep.id = decimal item.id then
          poolFeed failures (poolReceive s c rep) c
        else
          poolDied (poolFeed failures) spawn { poolProtocol s
            "replied with an unexpected id" with control := none } c

/-- What `PoolSubmit` asks of an item. -/
def poolAdmit (it : Obj) : Except TclError (List (Bytes × Obj)) :=
  match dictEntries tcl it with
  | .error _ => .error (poolFail "badvalue" (ascii "pool submit: each item must be a dict"))
  | .ok entries =>
    if (dictGet (ascii "op") entries).isNone then
      .error (poolFail "badvalue" (ascii "pool submit: each item needs an op"))
    else
      match jsonEncode yy tcl [.str (ascii "-plain"), .dict entries] with
      | .error _ => .error (poolFail "badvalue"
          (ascii "pool submit: each item must encode as plain JSON; typed json values are refused"))
      | .ok _ => .ok entries

/-- `dict set it id $next` -/
def numberItem (id : Nat) (entries : List (Bytes × Obj)) : PoolItem where
  id := id
  request := dictPut (ascii "id") (.str (decimal id)) entries
  numbered := by rw [dictGet_dictPut, if_pos rfl]

def poolItems : Nat → List Obj → Except TclError (List PoolItem)
  | _, [] => .ok []
  | next, it :: items =>
    (poolAdmit yy tcl it).bind fun entries =>
      (poolItems (next + 1) items).map fun pend => numberItem next entries :: pend

/-- The batch is there. -/
def poolAccept (s : Pool) (pend : List PoolItem) : Pool :=
  let next := s.nextid + pend.length
  { s with pending := s.pending ++ pend, nextid := next, submitted := next, submittedOnce := true, done := false }

/-- `PoolSubmit`; `failures` tells how the writes to each worker go. -/
def poolSubmit (s : Pool) (items : Obj) (failures : Child → List (Option Bytes)) : Except TclError Pool :=
  if s.submittedOnce then
    .error (poolFail "usage" (ascii "pool submit: a pool accepts exactly one batch; create another pool"))
  else
    (listElements tcl items).bind fun its =>
      (poolItems yy tcl s.nextid its).map fun pend =>
        s.workers.foldl (fun s c => poolFeed (failures c) s c) (poolAccept s pend)

/-- The last part of `PoolWait`: the replies in the order of submission. -/
def poolReplies (s : Pool) : List PoolReply :=
  let byid := s.results.foldl (fun byid r => dictPut (getString yy tcl r.id) r byid) []
  (List.range s.submitted).filterMap fun k => dictGet (decimal k) byid

/-- How the `vwait` of `PoolWait` ends: the state when the batch was done or
when the timer fired. -/
inductive Woken
  | done (s : Pool)
  | timeout (s : Pool)

def poolWait (s : Pool) (woken : Woken) : Except TclError (List PoolReply) :=
  if s.fatal ≠ [] then .error (poolFail "launch" s.fatal)
  else if s.done then .ok (poolReplies yy tcl s)
  else
    match woken with
    | .timeout s =>
      .error (poolFail "timeout"
        (ascii "pool timed out with " ++ (decimal s.inflight.length ++ ascii " item(s) in flight")))
    | .done s => if s.fatal ≠ [] then .error (poolFail "launch" s.fatal) else .ok (poolReplies yy tcl s)

/-- What can happen to a pool. -/
inductive PoolEvent
  | submit (items : Obj) (failures : Child → List (Option Bytes))
  | readable (c : Child) (info : Bool) (spawn : Option Bytes) (failures : List (Option Bytes))
  | gets (got : Gets) (spawn : Option Bytes) (failures : List (Option Bytes))
  | stderr (chunk : List Char)

/-- Handlers run one after another: while `PoolReadable` reads, nothing but
its next `gets` happens. -/
def poolStep (s : Pool) : PoolEvent → Option Pool
  | .submit items failures =>
    if s.control.isSome then none
    else
      match poolSubmit yy tcl s items failures with
      | .error _ => some s
      | .ok s => some s
  | .readable c info spawn failures =>
    if s.control.isSome then none else some (poolReadable s c info spawn failures)
  | .gets got spawn failures => s.control.map fun c => poolTurn yy tcl s c spawn failures got
  | .stderr chunk => if s.control.isSome then none else some (poolStderr s chunk)

def poolRun (s : Pool) : List PoolEvent → Option Pool
  | [] => some s
  | e :: events => (poolStep yy tcl s e).bind fun s => poolRun s events

end

end Machteld
