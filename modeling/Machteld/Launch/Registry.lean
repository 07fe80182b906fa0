import Machteld.Decimal
import Machteld.Launch.Reap

namespace Machteld

/-- A child of the registry; it was the so-manieth to be started. -/
structure ChildEntry where
  number : Nat
  address : Nat
  c : ChildRecord

/-- The children of a `proc_ctx`, and how many have been started, with those
that `child_free` had to leave to their threads, of which the source keeps
no list. -/
structure ProcChildren where
  root : Nat
  counter : Nat
  children : List ChildEntry
  left : List ChildEntry

def ChildEntry.token (e : ChildEntry) : Bytes := handleToken "child" e.number

def registryFind (r : ProcChildren) (token : Bytes) : Option ChildEntry :=
  r.children.find? fun e => e.token == token

def registryRemove (r : ProcChildren) (e : ChildEntry) : ProcChildren :=
  { r with children := r.children.eraseP fun e' => e'.address == e.address }

/-- What a command changes in a `child_t` of the registry. -/
def registryStore (r : ProcChildren) (e : ChildEntry) (c : ChildRecord) : ProcChildren :=
  { r with children := r.children.map fun e' => if e'.address = e.address then { e' with c := c } else e' }

/-- The options of the channels are set until one cannot be. -/
def setChannelOptions : List (Nat × String × String) → LaunchM Bool
  | [] => return true
  | (ch, option, value) :: options => do
    match ← LaunchCall.ask (.setChannelOption ch option value) with
    | false => return false
    | true => setChannelOptions options

/-- A child whose ends of the pipes are channels now. -/
def ChildRecord.piped (c : ChildRecord) (ci co ce : Nat) : ChildRecord :=
  { c with
    inW := none
    outR := none
    errR := none
    chIn := some ci
    chOut := some co
    chErr := some ce }

/-- `child_channels`: a handle that has become a channel is the channel's.
-/
def childChannels (c : ChildRecord) : LaunchM (Bool × ChildRecord) := do
  match ← LaunchCall.ask (.makeFileChannel (c.inW.getD 0)) with
  | none => return (false, c)
  | some ci =>
    match ← LaunchCall.ask (.makeFileChannel (c.outR.getD 0)) with
    | none => do
      LaunchCall.ask (.unregisterChannel ci)
      return (false, { c with inW := none })
    | some co =>
      match ← LaunchCall.ask (.makeFileChannel (c.errR.getD 0)) with
      | none => do
        LaunchCall.ask (.unregisterChannel ci)
        LaunchCall.ask (.unregisterChannel co)
        return (false, { c with inW := none, outR := none })
      | some ce =>
        match ← setChannelOptions [(ci, "-translation", "binary"), (co, "-translation", "binary"),
          (ce, "-translation", "binary"),
          (ci, "-buffering", "line")] with
        | false => do
          LaunchCall.ask (.unregisterChannel ci)
          LaunchCall.ask (.unregisterChannel co)
          LaunchCall.ask (.unregisterChannel ce)
          return (false, { c with inW := none, outR := none, errR := none })
        | true => return (true, c.piped ci co ce)

/-- Channels that a script has not closed are closed. -/
def closeChannels : List (Option Nat) → LaunchM Unit
  | [] => pure ()
  | none :: names => closeChannels names
  | some ch :: names => do
    match ← LaunchCall.ask (.getChannel ch) with
    | false => closeChannels names
    | true => do
      LaunchCall.ask (.unregisterChannel ch)
      closeChannels names

def childChannelsFree (c : ChildRecord) : LaunchM ChildRecord :=
  if c.channels then do
    closeChannels [c.chIn, c.chOut, c.chErr]
    return { c with chIn := none, chOut := none, chErr := none }
  else return c

/-- What is said of a child: its token, its `pid`, whether it is running,
and, where it was started with channels, their names. -/
structure ChildSaid where
  token : Bytes
  pid : Nat
  running : Bool
  exited : Bool
  channels : Option (Option Nat × Option Nat × Option Nat)

inductive ChildReply
  | token (token : Bytes)
  | tokens (tokens : List Bytes)
  | running
  | done
  | ok
  | info (info : ChildSaid)
  | error (code message : String)

/-- A `child` command with a subcommand, its options read; the environment
is what `launch_env` has made of them. -/
inductive ChildCommand
  | start (o : ChildOpts) (words : List Bytes) (env : Except (String × String) (Option (List UInt16)))
    (flags : ThreadFlags)
  | list
  | wait (token : Bytes) (ms : Option Nat) (flags : ThreadFlags)
  | kill (token : Bytes)
  | info (token : Bytes)
  | close (token : Bytes) (flags : ThreadFlags)

abbrev ChildResult := ChildReply × ProcChildren

/-- A child that is freed, or has to be left. -/
def childRelease (r : ProcChildren) (e : ChildEntry) (flags : ThreadFlags) : LaunchM ProcChildren := do
  match ← freeChild e.address e.c flags with
  | none => return r
  | some c => return { r with left := { e with c := c } :: r.left }

/-- A child that was started becomes one of the registry, with its channels
where it was started for them. -/
def childTrack (r : ProcChildren) (channels : Bool) (address : Nat) (c : ChildRecord) (flags : ThreadFlags) :
    LaunchM ChildResult :=
  let e : ChildEntry := ⟨r.counter + 1, address, c⟩
  let r : ProcChildren := { r with counter := r.counter + 1, children := e :: r.children }
  if channels then do
    match ← childChannels c with
    | (true, c) => return (.token e.token, registryStore r e c)
    | (false, c) => do
      let r ← childRelease (registryRemove r e) { e with c := c } flags
      return (.error "oserror" "cannot configure child channels", r)
  else return (.token e.token, r)

def startChild (r : ProcChildren) (o : ChildOpts) (words : List Bytes)
    (env : Except (String × String) (Option (List UInt16))) (flags : ThreadFlags) : LaunchM ChildResult :=
  if o.channels && o.stdin.isSome then
    return (.error "usage" "-channels cannot be combined with -stdin: write to the stdin channel instead", r)
  else if words = [] then return (.error "usage" "child start ?-opt val ...? ?--? command ?arg ...?", r)
  else do
    match ← LaunchCall.ask .malloc with
    | none => return (.error "oserror" "out of memory", r)
    | some cargv =>
      if words.any fun word => decide (0 ∈ word) then do
        LaunchCall.ask (.free cargv)
        return (.error "badvalue" "command arguments may not contain NUL", r)
      else
        match env with
        | .error e => do
          LaunchCall.ask (.free cargv)
          return (.error e.1 e.2, r)
        | .ok env => do
          match ← childLaunch { o with env := env, inherit := false } r.root words false with
          | .error e => do
            LaunchCall.ask (.free cargv)
            return (.error e.1 (e.2.getD ""), r)
          | .ok (address, c) => do
            LaunchCall.ask (.free cargv)
            childTrack r o.channels address c flags

def waitChild (r : ProcChildren) (e : ChildEntry) (ms : Option Nat) (flags : ThreadFlags) : LaunchM ChildResult :=
  do
  let reaped ← childReap e.c ms flags
  match reaped.1 with
  | .running => return (.running, registryStore r e reaped.2)
  | .failed err => return (.error "oserror" err, registryStore r e reaped.2)
  | .done => return (.done, registryStore r e reaped.2)

def killChild (r : ProcChildren) (e : ChildEntry) : LaunchM ChildResult :=
  if e.c.reaped then return (.ok, r)
  else do
    match ← LaunchCall.ask (.jobTerminate (e.c.job.getD 0)) with
    | false => return (.error "oserror" "cannot terminate child job", r)
    | true => return (.ok, r)

def infoChild (r : ProcChildren) (e : ChildEntry) : LaunchM ChildResult := do
  let channels := if e.c.channels then some (e.c.chIn, e.c.chOut, e.c.chErr) else none
  if e.c.reaped then return (.info ⟨e.token, e.c.pid, false, true, channels⟩, r)
  else
    let waited ← LaunchCall.ask (.waitEvent (e.c.doneEv.getD 0) (some 0))
    return (.info ⟨e.token, e.c.pid, decide (waited = .timeout), false, channels⟩, r)

def closeChild (r : ProcChildren) (e : ChildEntry) (flags : ThreadFlags) : LaunchM ChildResult := do
  let c ← childChannelsFree e.c
  let r ← childRelease (registryRemove r e) { e with c := c } flags
  return (.ok, r)

def withChild (r : ProcChildren) (token : Bytes) (command : ChildEntry → LaunchM ChildResult) :
    LaunchM ChildResult :=
  match registryFind r token with
  | none => return (.error "nohandle" "no such child", r)
  | some e => command e

/-- `ChildCmd` -/
def childCommand (r : ProcChildren) : ChildCommand → LaunchM ChildResult
  | .start o words env flags => startChild r o words env flags
  | .list => return (.tokens (r.children.map ChildEntry.token), r)
  | .wait token ms flags => withChild r token fun e => waitChild r e ms flags
  | .kill token => withChild r token fun e => killChild r e
  | .info token => withChild r token fun e => infoChild r e
  | .close token flags => withChild r token fun e => closeChild r e flags

/-- One command after the other. -/
def childSession (r : ProcChildren) : List ChildCommand → LaunchM (List ChildReply × ProcChildren)
  | [] => return ([], r)
  | command :: commands => do
    let answer ← childCommand r command
    let rest ← childSession answer.2 commands
    return (answer.1 :: rest.1, rest.2)

/-- The loop of `proc_cleanup` over the children. -/
def childrenFree (flags : ThreadFlags) (r : ProcChildren) : List ChildEntry → LaunchM ProcChildren
  | [] => return r
  | e :: children => do
    let r ← childRelease { r with children := children } e flags
    childrenFree flags r children

end Machteld
