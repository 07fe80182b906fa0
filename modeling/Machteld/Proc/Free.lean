import Machteld.Bytes

namespace Machteld

/-- What a teardown calls. -/
inductive FreeCall
  | createThread
  | terminateJob
  | closeJob
  | freeJob
  | waitDone
  | joinThread
  | waitDrain
  | cancelSynchronousIo
  | setStop
  | waitThread
  | cancelIo
  | closeInput
  | closePseudoConsole
  | closeOutput
  | closeError
  | closeProc
  | closeThread
  | closeDir
  | closeEvent
  | deleteLock
  | freeBuffers
  | free
  deriving DecidableEq

/-- What `WaitForSingleObject` says. -/
inductive WaitAnswer
  | object
  | timeout
  | failed
  deriving DecidableEq

/-- What a wait without a limit does: it says that the object is set, fails,
or does not return. -/
inductive EndlessWait
  | object
  | failed
  | never
  deriving DecidableEq

/-- A call on a handle that may be missing. -/
def onHandle (held : Bool) (call : FreeCall) : List FreeCall := if held then [call] else []

/-- What `child_free` reads of a `child_t`: the handles it holds. -/
structure ChildHandles where
  token : Bytes
  reaped : Bool
  job : Bool
  proc : Bool
  outR : Bool
  errR : Bool
  inW : Bool
  doneEv : Bool
  threads : Nat
  deriving DecidableEq

structure ChildAnswers where
  terminated : Bool
  completed : EndlessWait
  joined : Nat → EndlessWait

/-- What `pty_free` reads of a `pty_t`. -/
structure PtyHandles where
  token : Bytes
  hpc : Bool
  job : Bool
  proc : Bool
  inW : Bool
  outR : Bool
  deriving DecidableEq

structure PtyAnswers where
  thread : Bool
  terminated : Bool
  first : WaitAnswer
  second : WaitAnswer

/-- What `watch_free` reads of a `watch_t`. -/
structure WatchHandles where
  token : Bytes
  dir : Bool
  thread : Bool
  stopEv : Bool
  dataEv : Bool
  readyEv : Bool
  deriving DecidableEq

structure WatchAnswers where
  first : WaitAnswer
  second : WaitAnswer

/-- How a teardown leaves: its code, the list of what is open, its calls. -/
structure Freed (α : Type) where
  code : Int
  left : List α
  calls : List FreeCall

def terminateCalls (job terminated : Bool) : List FreeCall :=
  if job then .terminateJob :: onHandle (!terminated) .closeJob else []

/-- The calls of a teardown, and whether the last of them returns. -/
structure Waited where
  returns : Bool
  calls : List FreeCall

/-- The joins of the threads from number `i` on: they end with one that does
not return. -/
def childJoins (joined : Nat → EndlessWait) : Nat → Nat → Waited
  | _, 0 => ⟨true, []⟩
  | i, left + 1 =>
    if joined i = .never then ⟨false, [.joinThread]⟩
    else
      let rest := childJoins joined (i + 1) left
      ⟨rest.returns, .joinThread :: .closeThread :: rest.calls⟩

/-- What `child_reap` closes behind the joins. -/
def childReapCalls (c : ChildHandles) : List FreeCall :=
  onHandle c.proc .closeProc ++ onHandle c.outR .closeOutput ++ onHandle c.errR .closeError ++
    onHandle c.doneEv .closeEvent

/-- `child_free`, of a child that is in the list no more. -/
def childFree (a : ChildAnswers) (c : ChildHandles) : Waited :=
  if c.reaped then
    ⟨true, .freeBuffers :: (onHandle c.inW .closeInput ++ onHandle c.doneEv .closeEvent ++
      onHandle c.job .freeJob ++ [.free])⟩
  else
    let waiting := terminateCalls c.job a.terminated ++ [.waitDone]
    match a.completed with
    | .never => ⟨false, waiting⟩
    | .failed => ⟨true, waiting⟩
    | .object =>
      let joins := childJoins a.joined 0 c.threads
      if joins.returns then
        ⟨true, waiting ++ joins.calls ++ childReapCalls c ++
          .freeBuffers :: (onHandle c.inW .closeInput ++ onHandle c.job .freeJob ++ [.free])⟩
      else ⟨false, waiting ++ joins.calls⟩

/-- The waits for the thread that drains the output. -/
def drainCalls (a : PtyAnswers) : List FreeCall :=
  if a.first = .object then [.waitDrain, .closeThread] else [.waitDrain, .cancelSynchronousIo,
    .waitDrain, .closeThread]

def drained (a : PtyAnswers) : Bool := a.first = .object || a.second = .object

/-- `pty_free` -/
def ptyFree (a : PtyAnswers) (p : PtyHandles) (ptys : List PtyHandles) : Freed PtyHandles :=
  if p.outR && !a.thread then ⟨-1, ptys, [.createThread]⟩
  else
    let closing := onHandle p.outR .createThread ++ terminateCalls p.job a.terminated ++
      onHandle p.inW .closeInput ++
      onHandle p.hpc .closePseudoConsole ++ if p.outR then drainCalls a else []
    if p.outR && !drained a then ⟨-1, ptys.erase p, closing⟩
    else
      ⟨if p.job && !a.terminated then -1 else 0, ptys.erase p,
        closing ++ onHandle p.outR .closeOutput ++ onHandle p.proc .closeProc ++ onHandle p.job .freeJob ++
          [.freeBuffers, .free]⟩

/-- The waits for the watch thread; the directory is closed between them. -/
def watchWaitCalls (a : WatchAnswers) (w : WatchHandles) : List FreeCall :=
  if a.first = .timeout then [.waitThread, .cancelIo] ++ onHandle w.dir .closeDir ++
    [.waitThread] else [.waitThread]

def watchLeft (a : WatchAnswers) : Bool := a.first = .object || a.first = .timeout && a.second = .object

/-- `watch_free` -/
def watchFree (a : WatchAnswers) (w : WatchHandles) (watches : List WatchHandles) : Freed WatchHandles :=
  let stopping := onHandle w.stopEv .setStop ++ if w.thread then watchWaitCalls a w else []
  if w.thread && !watchLeft a then ⟨-1, watches.erase w, stopping⟩
  else
    let dir := w.dir && !(w.thread && a.first = .timeout)
    ⟨0, watches.erase w, stopping ++ onHandle w.thread .closeThread ++ onHandle dir .closeDir ++
      onHandle w.stopEv .closeEvent ++
      onHandle w.dataEv .closeEvent ++ onHandle w.readyEv .closeEvent ++ [.deleteLock, .freeBuffers, .free]⟩

end Machteld
