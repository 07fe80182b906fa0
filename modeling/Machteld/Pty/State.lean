import Machteld.Json.Value
import Machteld.Prog

namespace Machteld

def ptyIoChunk : Nat := 8192

def ptySendQueueLimit : Nat := 8 * 1024 * 1024

def llongMax : Nat := 0x7FFFFFFFFFFFFFFF

def errorNoData : Nat := 232

def errorArithmeticOverflow : Nat := 534

/-- What `WaitForSingleObject` says of the writer thread. -/
inductive ThreadWait
  | object
  | timeout
  | failed (error : Nat)

/-- The system calls of the pty commands. -/
inductive PtyCall
  | peekNamedPipe
  | malloc
  | readFile (want : Nat)
  | duplicateHandle
  | createThread
  | waitThread (ms : Nat)
  | cancelSynchronousIo
  | exitCodeThread
  | writerError
  | tickCount
  | sleep (ms : Nat)
  | jobActive

abbrev PtyCall.Answer : PtyCall → Type
  | .peekNamedPipe => Except Nat Nat
  | .malloc => Bool
  | .readFile _ => Except Nat Bytes
  | .duplicateHandle => Bool
  | .createThread => Bool
  | .waitThread _ => ThreadWait
  | .cancelSynchronousIo => Unit
  | .exitCodeThread => Option Nat
  | .writerError => Nat
  | .tickCount => Nat
  | .sleep _ => Unit
  | .jobActive => Except Bytes Nat

abbrev PtyProg := Prog PtyCall PtyCall.Answer

/-- What `pty_t` holds that its commands read or write. -/
structure Pty where
  token : Bytes
  pid : Nat
  queued : List Bytes
  queuedBytes : Nat

namespace Pty

def peekNamedPipe : PtyProg (Except Nat Nat) := Prog.ask PtyCall.peekNamedPipe

def malloc : PtyProg Bool := Prog.ask PtyCall.malloc

def readFile (want : Nat) : PtyProg (Except Nat Bytes) := Prog.ask (PtyCall.readFile want)

def duplicateHandle : PtyProg Bool := Prog.ask PtyCall.duplicateHandle

def createThread : PtyProg Bool := Prog.ask PtyCall.createThread

def waitThread (ms : Nat) : PtyProg ThreadWait := Prog.ask (PtyCall.waitThread ms)

def cancelSynchronousIo : PtyProg Unit := Prog.ask PtyCall.cancelSynchronousIo

def exitCodeThread : PtyProg (Option Nat) := Prog.ask PtyCall.exitCodeThread

def writerError : PtyProg Nat := Prog.ask PtyCall.writerError

def getTickCount : PtyProg Nat := Prog.ask PtyCall.tickCount

def sleepMs (ms : Nat) : PtyProg Unit := Prog.ask (PtyCall.sleep ms)

def jobActive : PtyProg (Except Bytes Nat) := Prog.ask PtyCall.jobActive

end Pty

open Pty

inductive PtyOutput
  | error (error : Nat)
  | empty
  | captured
  | limit

/-- The errors that say the output has ended. -/
def ptyEnded (error : Nat) : Bool := error == 109 || error == 233 || error == errorNoData

/-- `pty_output_capture` -/
def ptyOutputCapture (p : Pty) : PtyProg (Pty × PtyOutput) := do
  match ← peekNamedPipe with
  | .error e => return (p, if ptyEnded e then .empty else .error e)
  | .ok available =>
    if available = 0 then return (p, .empty)
    else if ptySendQueueLimit ≤ p.queuedBytes then return (p, .limit)
    else
      let room := ptySendQueueLimit - p.queuedBytes
      let want := min (min available ptyIoChunk) room
      if sizeMax - want < p.queuedBytes then return (p, .error errorArithmeticOverflow)
      else
        match ← malloc with
        | false => return (p, .error errorNotEnoughMemory)
        | true =>
          match ← readFile want with
          | .error e => return (p, if ptyEnded e then .empty else .error e)
          | .ok chunk =>
            if chunk = [] then return (p, .empty)
            else
              return ({ p with queued := p.queued ++ [chunk], queuedBytes := p.queuedBytes +
                chunk.length }, .captured)

/-- `pty_output_result` -/
def ptyOutputResult (p : Pty) : Option (Pty × Bytes) :=
  match p.queued with
  | [] => none
  | chunk :: queued => some ({ p with queued := queued, queuedBytes := p.queuedBytes - chunk.length }, chunk)

def ptyError (code : String) (message : Bytes) : TclError :=
  ⟨message, [ascii "MACHTELD", ascii "PTY", ascii code]⟩

/-- One turn of the loop of `pty send`; it ends with `send_error` and
`send_limit`. -/
def ptySendTurn (p : Pty) : PtyProg (Pty ⊕ Pty × Nat × Bool) := do
  match ← waitThread 0 with
  | .object => return .inr (p, 0, false)
  | .failed e => return .inr (p, e, false)
  | .timeout =>
    match ← ptyOutputCapture p with
    | (p, .error e) => return .inr (p, e, false)
    | (p, .limit) =>
      match ← waitThread 0 with
      | .object => return .inr (p, 0, false)
      | .failed e => return .inr (p, e, false)
      | .timeout => return .inr (p, 0, true)
    | (p, .empty) =>
      match ← waitThread 10 with
      | .object => return .inr (p, 0, false)
      | .failed e => return .inr (p, e, false)
      | .timeout => return .inl p
    | (p, .captured) => return .inl p

/-- One turn of the loop that stops the writer thread. -/
def ptyCancelTurn (_ : Unit) : PtyProg (Unit ⊕ Unit) := do
  cancelSynchronousIo
  match ← waitThread 50 with
  | .object => return .inr ()
  | .timeout => return .inl ()
  | .failed _ =>
    match ← exitCodeThread with
    | some code =>
      if code ≠ stillActive then return .inr ()
      else
        sleepMs 50
        return .inl ()
    | none =>
      sleepMs 50
      return .inl ()

/-- How `pty send` answers. -/
def ptySendResult (sendError : Nat) (sendLimit : Bool) (writerError : Nat) : Except TclError Unit :=
  if sendLimit then .error (ptyError "limit" (ascii "retained pty output reached the 8 MiB send limit"))
  else if sendError ≠ 0 then .error (ptyError "oserror" (ascii "capture output during pty write failed"))
  else if writerError ≠ 0 then .error (ptyError "oserror" (ascii "write to pty failed"))
  else .ok ()

/-- `pty send` -/
def ptySend (p : Pty) (bytes : Bytes) : PtyProg (Pty × Except TclError Unit) := do
  if bytes = [] then return (p, .ok ())
  else
    match ← duplicateHandle with
    | false => return (p, .error (ptyError "oserror" (ascii "duplicate pty input handle failed")))
    | true =>
      match ← createThread with
      | false => return (p, .error (ptyError "oserror" (ascii "start pty input writer failed")))
      | true =>
        let (p, sendError, sendLimit) ← Prog.iterate ptySendTurn p
        if sendError ≠ 0 ∨ sendLimit then Prog.iterate ptyCancelTurn ()
        let failure ← writerError
        return (p, ptySendResult sendError sendLimit failure)

/-- One turn of the loop of `pty read`. -/
def ptyReadTurn (deadline : Nat) (_ : Unit) : PtyProg (Unit ⊕ Bytes) := do
  match ← peekNamedPipe with
  | .error _ => return .inr []
  | .ok available =>
    if 0 < available then
      match ← readFile (min available 8192) with
      | .error _ => return .inr []
      | .ok got => return .inr got
    else
      let now ← getTickCount
      if deadline ≤ now then return .inr []
      else
        sleepMs 10
        return .inl ()

/-- `pty read` -/
def ptyRead (p : Pty) (timeoutMs : Nat) : PtyProg (Pty × Bytes) :=
  match ptyOutputResult p with
  | some result => return result
  | none => do
    let now ← getTickCount
    let got ← Prog.iterate (ptyReadTurn (now + timeoutMs)) ()
    return (p, got)

structure PtyInfo where
  token : Bytes
  pid : Nat
  running : Bool
  pending : Nat

/-- `pty info` -/
def ptyInfo (p : Pty) : PtyProg (Except TclError PtyInfo) := do
  match ← jobActive with
  | .error message => return .error (ptyError "oserror" message)
  | .ok active =>
    let avail ← peekNamedPipe
    let total := p.queuedBytes + avail.toOption.getD 0
    return .ok
      { token := p.token, pid := p.pid, running := decide (0 < active),
        pending := if llongMax < total then llongMax else total }

inductive PtyCmd
  | send (bytes : Bytes)
  | read (timeoutMs : Nat)
  | info

inductive PtyReply
  | send (result : Except TclError Unit)
  | read (bytes : Bytes)
  | info (result : Except TclError PtyInfo)

def ptyCommand (p : Pty) : PtyCmd → PtyProg (Pty × PtyReply)
  | .send bytes => do
    let (p, result) ← ptySend p bytes
    return (p, .send result)
  | .read timeoutMs => do
    let (p, bytes) ← ptyRead p timeoutMs
    return (p, .read bytes)
  | .info => do
    let result ← ptyInfo p
    return (p, .info result)

/-- The commands of a script on one pty, one after another. -/
def ptySession (p : Pty) : List PtyCmd → PtyProg (Pty × List PtyReply)
  | [] => return (p, [])
  | cmd :: cmds => do
    let (p, reply) ← ptyCommand p cmd
    let (p, replies) ← ptySession p cmds
    return (p, reply :: replies)

/-- The output pipe, with all the child has written to it. -/
structure PtyWorld where
  pipe : Bytes
  written : Bytes
  broken : Option Nat

/-- What the pipe gives at the moment. -/
def PtyWorld.available (w : PtyWorld) : Nat := if w.broken.isSome then 0 else w.pipe.length

/-- The child writes, or the pipe changes its state. -/
inductive PtyMove
  | write (bytes : Bytes)
  | state (broken : Option Nat)

/-- A choice proposes the answers. A read takes any prefix of what is there,
or fails and takes nothing; a pipe holds less than 4 GiB. -/
def ptyHost : Host PtyCall PtyCall.Answer where
  World := PtyWorld
  Choice := (c : PtyCall) → c.Answer
  act c choice w :=
    match c with
    | .peekNamedPipe =>
      match w.broken with
      | some e => some (.error e, w)
      | none => some (.ok w.pipe.length, w)
    | .readFile want =>
      match choice (.readFile want) with
      | .error e => some (.error e, w)
      | .ok got =>
        if w.broken = none ∧ got.length ≤ want ∧ got.isPrefixOf w.pipe then
          some (.ok got, { w with pipe := w.pipe.drop got.length })
        else none
    | c => some (choice c, w)
  Move := PtyMove
  move m w :=
    match m with
    | .write bytes =>
      if w.pipe.length + bytes.length < 0x100000000 then
        some { w with pipe := w.pipe ++ bytes, written := w.written ++ bytes }
      else none
    | .state broken => some { w with broken := broken }

end Machteld
