import Machteld.Json.Value
import Machteld.Run

namespace Machteld

/-- `reader_t`; `running` tells whether its thread is still at it. -/
structure ChildReader where
  buf : Bytes
  cap : Nat
  truncated : Bool
  error : Nat
  running : Bool

structure ChildWriter where
  error : Nat
  running : Bool

/-- Where the monitor thread stands, with its `direct_done` and
`query_failed` and the number of active processes. -/
inductive ChildMonitor
  | direct (directDone queryFailed : Bool)
  | active (directDone queryFailed : Bool)
  | check (directDone queryFailed : Bool) (active : Nat)
  | set
  | gone

/-- What `child_t` holds. The last field is not in it: `child kill` has
terminated the job and has not said so yet. -/
structure ChildT where
  token : Bytes
  pid : Nat
  channels : Option (Bytes × Bytes × Bytes)
  monitor : ChildMonitor
  monitorFailed : Bool
  deadline : Nat
  ro : ChildReader
  re : ChildReader
  wi : ChildWriter
  doneEv : Bool
  reaped : Bool
  killed : Bool
  timeout : Bool
  exitCode : Nat
  killing : Bool

def captureCap : Nat := 1024 * 1024

/-- A child that `child start` returned: with channels no thread reads or
writes; without, a writer runs where `-stdin` has bytes. -/
def childStart (token : Bytes) (pid : Nat) (channels : Option (Bytes × Bytes × Bytes)) (deadline : Nat)
    (stdin : Bool) :
    ChildT where
  token := token
  pid := pid
  channels := channels
  monitor := .direct false false
  monitorFailed := false
  deadline := deadline
  ro := ⟨[], if channels.isNone then captureCap else 0, false, 0, channels.isNone⟩
  re := ⟨[], if channels.isNone then captureCap else 0, false, 0, channels.isNone⟩
  wi := ⟨0, stdin⟩
  doneEv := false
  reaped := false
  killed := false
  timeout := false
  exitCode := 0
  killing := false

/-- How a `ReadFile` of a reader thread ends. -/
inductive ReaderGot
  | data (tmp : Bytes)
  | ended
  | failed (error : Nat)

def errorBrokenPipe : Nat := 109

def errorPipeNotConnected : Nat := 233

def readerStep (r : ChildReader) : ReaderGot → ChildReader
  | .data tmp =>
    if tmp = [] then { r with running := false }
    else if r.buf.length < r.cap then
      let take := min tmp.length (r.cap - r.buf.length)
      { r with buf := r.buf ++ tmp.take take, truncated := r.truncated || decide (take < tmp.length) }
    else { r with truncated := true }
  | .ended => { r with running := false }
  | .failed error =>
    { r with
      error := if error ≠ errorBrokenPipe ∧ error ≠ errorPipeNotConnected then error else r.error
      running := false }

/-- What `WaitForSingleObject` says of the process, with the exit code where
`GetExitCodeProcess` has it. -/
inductive DirectWait
  | object (code : Option Nat)
  | timeout
  | failed

/-- What `WaitForSingleObject` says of the completion event, with whether a
thread could be joined. -/
inductive ReapWait
  | object (joinFailed : Bool)
  | timeout
  | failed

inductive ChildStatus
  | running
  | timeout
  | killed
  | ok
  | error
deriving DecidableEq

structure ChildDict where
  exit : Option Nat
  status : ChildStatus
  out : Bytes
  err : Bytes
  pid : Nat
  truncated : List Bytes

structure ChildInfo where
  token : Bytes
  pid : Nat
  running : Bool
  exit : Option Nat
  channels : Option (Bytes × Bytes × Bytes)

inductive ChildAnswer
  | wait (outcome : Except TclError ChildDict)
  | kill (outcome : Except TclError Unit)
  | info (dict : ChildInfo)

/-- What happens next: in the monitor, in a thread that reads or writes, or
in a command, whose kill has two steps. -/
inductive ChildOp
  | direct (answer : DirectWait)
  | active (answer : Option Nat)
  | check (now : Nat) (terminated : Bool)
  | set
  | out (got : ReaderGot)
  | err (got : ReaderGot)
  | input (error : Nat)
  | wait (answer : ReapWait)
  | terminate (terminated : Bool)
  | killed
  | info

def childError (code : String) (message : Bytes) : TclError :=
  ⟨message, [ascii "MACHTELD", ascii "CHILD", ascii code]⟩

/-- `child_dict_ex` -/
def childDict (c : ChildT) (alive : Bool) : ChildDict where
  exit := if alive then none else some c.exitCode
  status :=
    if alive then .running
    else if c.timeout then .timeout
    else if c.killed then .killed
    else if c.exitCode = 0 then .ok
    else .error
  out := c.ro.buf
  err := c.re.buf
  pid := c.pid
  truncated :=
    (if c.ro.truncated then [ascii "out"] else []) ++ (if c.re.truncated then [ascii "err"] else [])

/-- `io_error` of `child_reap`. -/
def childIoError (c : ChildT) (joinFailed : Bool) : Option Bytes :=
  if joinFailed then some (ascii "joining child I/O thread failed")
  else if c.monitorFailed then some (ascii "child monitor failed")
  else if c.ro.error ≠ 0 ∨ c.re.error ≠ 0 then some (ascii "reading child output failed")
  else if c.wi.error ≠ 0 ∧ c.killed = false then some (ascii "writing child input failed")
  else none

/-- `child wait` -/
def childWait (c : ChildT) (answer : ReapWait) : Option (ChildT × Except TclError ChildDict) :=
  if c.reaped then some (c, .ok (childDict c false))
  else
    match answer with
    | .timeout => if c.doneEv then none else some (c, .ok (childDict c true))
    | .failed => some (c, .error (childError "oserror" (ascii "waiting for child completion failed")))
    | .object joinFailed =>
      if c.doneEv then
        match childIoError c joinFailed with
        | some message => some ({ c with reaped := true }, .error (childError "oserror" message))
        | none => some ({ c with reaped := true }, .ok (childDict c false))
      else none

/-- `child info` -/
def childInfo (c : ChildT) : ChildInfo where
  token := c.token
  pid := c.pid
  running := !c.reaped && !c.doneEv
  exit := if c.reaped then some c.exitCode else none
  channels := c.channels

/-- One step of the monitor. -/
def childMonitorStep (c : ChildT) : ChildMonitor → ChildOp → Option ChildT
  | .direct directDone queryFailed, .direct answer =>
    if directDone then some { c with monitor := .active directDone queryFailed }
    else
      match answer with
      | .object (some code) => some { c with exitCode := code, monitor := .active true queryFailed }
      | .object none => some { c with monitorFailed := true, monitor := .active false true }
      | .failed => some { c with monitorFailed := true, killed := true, monitor := .active true true }
      | .timeout => some { c with monitor := .active false queryFailed }
  | .active directDone queryFailed, .active answer =>
    if queryFailed then some { c with monitor := .check directDone queryFailed 0 }
    else
      match answer with
      | some active => some { c with monitor := .check directDone queryFailed active }
      | none => some { c with monitorFailed := true, killed := true, monitor := .check directDone true 0 }
  | .check directDone queryFailed active, .check now terminated =>
    let ioDone := !c.wi.running && (c.channels.isSome || (!c.ro.running && !c.re.running))
    if directDone && ioDone && (queryFailed || active == 0) then some { c with monitor := .set }
    else if c.deadline ≠ 0 ∧ c.deadline ≤ now then
      if terminated then
        some { c with timeout := true, killed := true, deadline := 0, monitor := .direct directDone queryFailed }
      else
        some { c with
          timeout := true, killed := true, monitorFailed := true, deadline := 0, monitor :=
            .direct directDone true }
    else some { c with monitor := .direct directDone queryFailed }
  | .set, .set => some { c with doneEv := true, monitor := .gone }
  | _, _ => none

/-- Commands run one after another; the threads run beside them. -/
def childStep (c : ChildT) : ChildOp → Option (ChildT × List ChildAnswer)
  | .out got => if c.ro.running then some ({ c with ro := readerStep c.ro got }, []) else none
  | .err got => if c.re.running then some ({ c with re := readerStep c.re got }, []) else none
  | .input error => if c.wi.running then some ({ c with wi := ⟨error, false⟩ }, []) else none
  | .wait answer =>
    if c.killing then none else (childWait c answer).map fun (c, outcome) => (c, [.wait outcome])
  | .terminate terminated =>
    if c.killing then none
    else if c.reaped then some (c, [.kill (.ok ())])
    else if terminated then some ({ c with killing := true }, [])
    else some (c, [.kill (.error (childError "oserror" (ascii "cannot terminate child job")))])
  | .killed => if c.killing then some ({ c with killed := true, killing := false }, [.kill (.ok ())]) else none
  | .info => if c.killing then none else some (c, [.info (childInfo c)])
  | op => (childMonitorStep c c.monitor op).map fun c => (c, [])

def childRun (c : ChildT) (ops : List ChildOp) : Option (ChildT × List ChildAnswer) := runSteps childStep c ops

end Machteld
