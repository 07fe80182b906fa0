import Machteld.Pool.State
import Machteld.Units.Parse
import Machteld.Worker.Dispatch

namespace Machteld

/-- What `expr` and `string is` make of a value: the operator `!`, and the
integer a word spells. -/
structure TclOps where
  notOf : Obj → Except TclError Bool
  integerOf : Bytes → Option Int

/-- The options of `pool create`; those of `child start` stay words. -/
structure PoolOptions where
  width : Nat
  maxtries : Nat
  positive : 1 ≤ maxtries
  launch : List Bytes

/-- Where no option is given. -/
def poolDefaults : PoolOptions := ⟨4, 3, Nat.succ_le_succ (Nat.zero_le 2), []⟩

def launchOptions : List Bytes :=
  [ascii "-arg0", ascii "-cpu", ascii "-dir", ascii "-env", ascii "-mem", ascii "-timeout"]

/-- A word that is no option ends the options. -/
def isOption (a : Bytes) : Bool := a.head? == some 0x2D

section

variable (yy : Yyjson) (tcl : Tcl) (ops : TclOps)

/-- The loop of `PoolCreate` over its options, with the words behind them.
-/
def poolOptions : List Bytes → PoolOptions → Except TclError (PoolOptions × List Bytes)
  | [], o => .ok (o, [])
  | a :: rest, o =>
    if a = ascii "--" then .ok (o, rest)
    else if !isOption a then .ok (o, a :: rest)
    else
      match rest with
      | [] => .error (poolFail "usage" (ascii "pool create: option needs a value"))
      | v :: rest =>
        if a = ascii "-width" then
          match (ops.integerOf v).filter fun n => decide (1 ≤ n ∧ n ≤ 256) with
          | none => .error (poolFail "badvalue" (ascii "pool create: -width must be between 1 and 256"))
          | some n => poolOptions rest { o with width := n.toNat }
        else if a = ascii "-maxtries" then
          match ops.integerOf v with
          | none => .error (poolFail "badvalue" (ascii "pool create: -maxtries must be at least 1"))
          | some n =>
            if positive : 1 ≤ n.toNat then poolOptions rest { o with maxtries := n.toNat, positive := positive }
            else .error (poolFail "badvalue" (ascii "pool create: -maxtries must be at least 1"))
        else if a ∈ launchOptions then poolOptions rest { o with launch := o.launch ++ [a, v] }
        else .error (poolFail "usage" (ascii "pool create: unknown option " ++ quoted a))

/-- `PoolCreate`, from the next token and how each launch ends. -/
def poolCreateWords (children : Child) (launches : Nat → Option Bytes) (argl : List Bytes) : Except TclError Pool :=
  (poolOptions ops argl poolDefaults).bind fun (o, cmd) =>
    if cmd = [] then .error (poolFail "usage" (ascii "pool create: no command given"))
    else poolCreate o.maxtries o.positive children ((List.range o.width).map launches)

structure PmapOptions where
  raw : Bool
  width : Bytes
  maxtries : Bytes
  timeout : Nat

def pmapFail (code : String) (message : Bytes) : TclError := tclFail "PMAP" code message

/-- The loop of `pmap` over its options, with the words behind them. -/
def pmapOptions : List Bytes → PmapOptions → Except TclError (PmapOptions × List Bytes)
  | [], o => .ok (o, [])
  | a :: rest, o =>
    if a = ascii "--" then .ok (o, rest)
    else if !isOption a then .ok (o, a :: rest)
    else if a = ascii "-raw" then pmapOptions rest { o with raw := true }
    else
      match rest with
      | [] => .error (pmapFail "usage" (ascii "pmap: option " ++ (quoted a ++ ascii " needs a value")))
      | v :: rest =>
        if a = ascii "-width" then pmapOptions rest { o with width := v }
        else if a = ascii "-maxtries" then pmapOptions rest { o with maxtries := v }
        else if a = ascii "-timeout" then
          (dur2ms "PMAP" v).bind fun ms => pmapOptions rest { o with timeout := ms }
        else .error (pmapFail "usage" (ascii "pmap: unknown option " ++ quoted a))

/-- What the world does to one call: how launches end, how the first writes
to each worker go, what happens while the pool waits and whether the timer
fires. -/
structure PmapWorld where
  children : Child
  launches : Nat → Option Bytes
  failures : Child → List (Option Bytes)
  events : List PoolEvent
  timedOut : Bool

/-- How the `vwait` ends: with the timer, or where the pool is done. -/
def pmapWoken (world : PmapWorld) (s : Pool) : Option Woken :=
  (poolRun yy tcl s world.events).bind fun s =>
    if world.timedOut then some (.timeout s) else if s.done then some (.done s) else none

def Woken.pool : Woken → Pool
  | .done s => s
  | .timeout s => s

/-- The words of `pool create` in `pmap`. -/
def pmapCreateWords (o : PmapOptions) (cmd : List Bytes) : List Bytes :=
  [ascii "-width", o.width, ascii "-maxtries", o.maxtries, ascii "--"] ++ cmd

/-- The body of the `catch`: the pool, where there is one, and the replies.
-/
def pmapBatch (world : PmapWorld) (o : PmapOptions) (cmd : List Bytes) (reqs : Obj) :
    Option (Option Pool × Except TclError (List PoolReply)) :=
  match poolCreateWords ops world.children world.launches (pmapCreateWords o cmd) with
  | .error e => some (none, .error e)
  | .ok s =>
    match poolSubmit yy tcl s reqs world.failures with
    | .error e => some (some s, .error e)
    | .ok s =>
      match dur2ms "POOL" (decimal o.timeout ++ ascii "ms") with
      | .error e => some (some s, .error e)
      | .ok _ =>
        if s.fatal ≠ [] ∨ s.done then some (some s, poolWait yy tcl s (.done s))
        else (pmapWoken yy tcl world s).map fun woken => (some woken.pool, poolWait yy tcl s woken)

/-- An error of the pool in the domain of `pmap`; another one stays as it
is. -/
def pmapRestate (e : TclError) : TclError :=
  if e.errorcode[0]? = some (ascii "MACHTELD") ∧ e.errorcode[1]? = some (ascii "POOL") then
    ⟨e.message, [ascii "MACHTELD", ascii "PMAP", e.errorcode[2]?.getD []]⟩
  else e

/-- `return -code error -errorcode $code $msg`: the code has to be a list.
-/
def returnError (code msg : Obj) : TclError :=
  match listElements tcl code with
  | .ok words => ⟨getString yy tcl msg, words.map (getString yy tcl)⟩
  | .error _ =>
    ⟨ascii "bad -errorcode value: expected a list but got " ++ quoted (getString yy tcl code),
      [ascii "TCL", ascii "RESULT", ascii "ILLEGAL_ERRORCODE"]⟩

/-- The error of a failed reply. -/
def pmapFailure (r : PoolReply) : TclError :=
  match exprGet tcl (ascii "msg") (.str (ascii "item failed")) r.reply with
  | .error e => e
  | .ok msg =>
    match exprGet tcl (ascii "code") (.str []) r.reply with
    | .error e => e
    | .ok code =>
      if getString yy tcl code = [] ∨ getString yy tcl code = ascii "NONE" then pmapFail "failed"
        (getString yy tcl msg)
      else returnError yy tcl code msg

/-- The last loop of `pmap`. -/
def pmapResults : List PoolReply → Except TclError (List Obj)
  | [] => .ok []
  | r :: replies =>
    match ops.notOf r.ok with
    | .error e => .error e
    | .ok true => .error (pmapFailure yy tcl r)
    | .ok false =>
      (exprGet tcl (ascii "result") (.str []) r.reply).bind fun value =>
        (pmapResults replies).map fun values => value :: values

/-- A token enters the registry. -/
def childStarted (registry : List Child) (c : Child) : List Child := registry ++ [c]

/-- `child close` -/
def childClosed (registry : List Child) (c : Child) : List Child := registry.filter (· ≠ c)

/-- The registry with the tokens of a pool: `PoolSpawn` starts each worker,
and `PoolDied` closes it. -/
def poolRegistry (registry : List Child) (s : Pool) : List Child := s.workers.foldl childStarted registry

/-- `PoolClose` -/
def poolClose (registry : List Child) (s : Pool) : List Child := s.workers.foldl childClosed registry

/-- The tokens `PoolCreate` starts, up to the first launch that fails. -/
def poolStarted : List (Option Bytes) → Child → List Child
  | none :: spawns, c => c :: poolStarted spawns (c + 1)
  | _, _ => []

/-- The registry behind `pmap` where there is no pool: `PoolCreate` has
closed what it started. -/
def pmapUncreated (world : PmapWorld) (o : PmapOptions) (cmd : List Bytes) (registry : List Child) : List Child :=
  match poolOptions ops (pmapCreateWords o cmd) poolDefaults with
  | .error _ => registry
  | .ok (o, _) =>
    let started := poolStarted ((List.range o.width).map world.launches) world.children
    started.foldl childClosed (started.foldl childStarted registry)

/-- What is left of a call of `pmap`. -/
structure PmapEnd where
  result : Except TclError (List Obj)
  registry : List Child

/-- The registry behind the `pool close` of `pmap`. -/
def pmapClose (world : PmapWorld) (o : PmapOptions) (cmd : List Bytes) (registry : List Child) :
    Option Pool → List Child
  | none => pmapUncreated ops world o cmd registry
  | some s => poolClose (poolRegistry registry s) s

/-- `pmap` behind its `catch`. -/
def pmapReplies (raw : Bool) : Except TclError (List PoolReply) → Except TclError (List Obj)
  | .error e => .error (pmapRestate e)
  | .ok replies =>
    if raw then .ok (replies.map fun r => .dict r.reply) else pmapResults yy tcl ops replies

/-- `pmap` behind its options. -/
def pmapCall (world : PmapWorld) (registry : List Child) (o : PmapOptions) (cmd : List Bytes) (reqs : Obj) :
    Option PmapEnd :=
  (pmapBatch yy tcl ops world o cmd reqs).map fun (p, replies) =>
    ⟨pmapReplies yy tcl ops o.raw replies, pmapClose ops world o cmd registry p⟩

def pmapDefaults : PmapOptions := ⟨false, ascii "4", ascii "3", 300000⟩

/-- `pmap`. Nothing where the world does not let the wait end. -/
def pmap (world : PmapWorld) (registry : List Child) : List Obj → Option PmapEnd
  | reqs :: a :: rest =>
    match pmapOptions ((a :: rest).map (getString yy tcl)) pmapDefaults with
    | .error e => some ⟨.error e, registry⟩
    | .ok (o, cmd) =>
      if cmd = [] then some ⟨.error (pmapFail "usage" (ascii "pmap: no command given")), registry⟩
      else
        match listElements tcl reqs with
        | .error e => some ⟨.error e, registry⟩
        | .ok [] => some ⟨.ok [], registry⟩
        | .ok _ => pmapCall yy tcl ops world registry o cmd reqs
  | _ =>
    some ⟨.error (pmapFail "usage"
      (ascii "usage: pmap requests ?-width n? ?-maxtries n? ?-timeout dur? ?-raw? -- command ?arg ...?")), registry⟩

end

end Machteld
