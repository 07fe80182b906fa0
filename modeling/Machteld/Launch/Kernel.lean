import Machteld.Cmdline.Launch
import Machteld.Ledger
import Machteld.WideText

namespace Machteld

/-- What a process has to give back. -/
inductive Asset
  | handle (h : Nat)
  | block (b : Nat)
  | attributes (b : Nat)
  | job (j : Nat)
  | console (c : Nat)
  deriving DecidableEq

/-- The attribute list of a launch, in its block: the jobs with the buffer
that holds them, the handles that are inherited, the pseudoconsole. -/
structure Attributes where
  block : Nat
  jobs : Option (Nat × List Nat)
  handles : Option (List Nat)
  console : Option Nat

/-- What `CreateProcessW` is given. -/
structure CreateCall where
  application : Nat × Bytes
  commandLine : Nat × Bytes
  dir : Option (Nat × Bytes)
  env : Option (List UInt16)
  inherits : Bool
  stdio : Option WjStdio
  breakaway : Bool
  attributes : Attributes

structure ProcessInfo where
  handle : Nat
  thread : Nat
  pid : Nat

/-- The threads that are started beside the interpreter's. -/
inductive ThreadBody
  | reader (child buf read : Nat)
  | writer (child buf write : Nat)
  | monitor (child job proc done : Nat) (threads : List Nat)
  | drain (read : Nat)

structure JobLimits where
  processMemory : Nat
  processCpu : Nat

inductive StdHandle
  | input
  | output
  | error

/-- The calls of the launchers. -/
inductive LaunchCall
  | malloc
  | free (b : Nat)
  | resolveExe (prog : Bytes)
  | comspecPath
  | makeCmdline (argv : List Bytes)
  | makeBatchCmdline (script : Bytes) (args : List Bytes)
  | toWide (text : Bytes)
  | getStdHandle (which : StdHandle)
  | openNul
  | createPipe
  | duplicateHandle (h : Nat)
  | closeHandle (h : Nat)
  | attributeSize (count : Nat)
  | initAttributes (block count : Nat)
  | updateJobs (al : Attributes) (buffer : Nat) (jobs : List Nat)
  | updateHandles (al : Attributes) (handles : List Nat)
  | updateConsole (al : Attributes) (console : Nat)
  | deleteAttributes (block : Nat)
  | createProcess (call : CreateCall)
  | isProcessInJob (proc : Nat)
  | resumeThread (thread : Nat)
  | terminateProcess (proc : Nat)
  | waitProcess (proc : Nat)
  | jobNew
  | jobSetLimits (j : Nat) (limits : JobLimits)
  | jobHandle (j : Nat)
  | jobTerminate (j : Nat)
  | jobClose (j : Nat)
  | jobFree (j : Nat)
  | createThread (body : ThreadBody)
  | join (thread : Nat)
  | createEvent
  | waitEvent (event : Nat) (ms : Option Nat)
  | tickCount
  | createConsole (inR outW : Nat)
  | closeConsole (c : Nat)
  | makeFileChannel (h : Nat)
  | setChannelOption (ch : Nat) (option value : String)
  | getChannel (ch : Nat)
  | unregisterChannel (ch : Nat)

inductive WaitResult
  | object
  | timeout
  | failed
  deriving DecidableEq

@[reducible] def LaunchCall.Answer : LaunchCall → Type
  | malloc => Option Nat
  | free _ => Unit
  | resolveExe _ => Option (Nat × Bytes)
  | comspecPath => Except (Option String) (Nat × Bytes)
  | makeCmdline _ => Option Nat
  | makeBatchCmdline _ _ => Except String (Nat × Bytes)
  | toWide _ => Option Nat
  | getStdHandle _ => Option Nat
  | openNul => Option Nat
  | createPipe => Option (Nat × Nat)
  | duplicateHandle _ => Option Nat
  | closeHandle _ => Unit
  | attributeSize _ => Bool
  | initAttributes _ _ => Bool
  | updateJobs _ _ _ => Bool
  | updateHandles _ _ => Bool
  | updateConsole _ _ => Bool
  | deleteAttributes _ => Unit
  | createProcess _ => Except Nat ProcessInfo
  | isProcessInJob _ => Option Bool
  | resumeThread _ => Bool
  | terminateProcess _ => Bool
  | waitProcess _ => Bool
  | jobNew => Except String Nat
  | jobSetLimits _ _ => Option String
  | jobHandle _ => Option Nat
  | jobTerminate _ => Bool
  | jobClose _ => Unit
  | jobFree _ => Unit
  | createThread _ => Option Nat
  | join _ => Bool
  | createEvent => Option Nat
  | waitEvent _ _ => WaitResult
  | tickCount => Nat
  | createConsole _ _ => Option Nat
  | closeConsole _ => Unit
  | makeFileChannel _ => Option Nat
  | setChannelOption _ _ _ => Bool
  | getChannel _ => Bool
  | unregisterChannel _ => Unit

abbrev LaunchM := Prog LaunchCall LaunchCall.Answer

/-- A process as it was created; the jobs are those it was born into. -/
structure Birth where
  number : Nat
  info : ProcessInfo
  application : Bytes
  commandLine : Bytes
  dir : Option Bytes
  env : Option (List UInt16)
  jobs : List Nat
  enclosed : Bool
  inherited : List Nat
  stdio : Option WjStdio
  console : Option Nat

/-- The process that a call creates. -/
def CreateCall.birth (call : CreateCall) (number : Nat) (info : ProcessInfo) (jobs : List Nat)
    (enclosed : Bool) : Birth where
  number := number
  info := info
  application := call.application.2
  commandLine := call.commandLine.2
  dir := call.dir.map Prod.snd
  env := call.env
  jobs := jobs
  enclosed := enclosed || decide (jobs ≠ [])
  inherited := if call.inherits then call.attributes.handles.getD [] else []
  stdio := call.stdio
  console := call.attributes.console

/-- A job that kills its processes where its handle is closed; the handle
goes by the address of the `wj_job` that keeps it. -/
structure JobObject where
  number : Nat
  address : Nat

/-- The processes and the jobs there have been, the last first: which
processes have been allowed to run and which have ended, which jobs have
been closed and which have a monitor that may close them. -/
structure Kernel where
  births : List Birth
  ran : List Nat
  dead : List Nat
  jobs : List JobObject
  closed : List Nat
  watched : List Nat

def processOf (births : List Birth) (h : Nat) : Option Birth := births.find? fun b => b.info.handle == h

def threadOf (births : List Birth) (h : Nat) : Option Birth := births.find? fun b => b.info.thread == h

def jobAt (jobs : List JobObject) (j : Nat) : Option JobObject := jobs.find? fun job => job.address == j

/-- The processes that were born into a job. -/
def membersOf (births : List Birth) (number : Nat) : List Nat :=
  (births.filter fun b => decide (number ∈ b.jobs)).map Birth.number

/-- The numbers of the jobs that handles stand for. -/
def jobNumbers (jobs : List JobObject) : List Nat → Option (List Nat)
  | [] => some []
  | h :: handles => (jobAt jobs h).bind fun job => (jobNumbers jobs handles).map (job.number :: ·)

namespace Kernel

/-- The handle of a job is closed, where it is open. -/
def close (w : Kernel) (number : Nat) : Kernel :=
  { w with closed := number :: w.closed, dead := membersOf w.births number ++ w.dead }

/-- `CreateProcessW` puts the process into its jobs before it can run. -/
def create (w : Kernel) (call : CreateCall) (info : ProcessInfo) (enclosed : Bool) : Option Kernel :=
  (jobNumbers w.jobs ((call.attributes.jobs.map Prod.snd).getD [])).bind fun jobs =>
    if ∃ number ∈ jobs, number ∈ w.closed then none
    else some { w with
      births := call.birth w.births.length info jobs enclosed :: w.births
      ran := if call.breakaway then w.ran else w.births.length :: w.ran }

end Kernel

/-- How the calls end: their answers, and whether a process is kept in a job
around this one. -/
structure LaunchChoice where
  answer : (c : LaunchCall) → c.Answer
  enclosed : Bool

/-- What a call does to the processes and the jobs; none where it cannot end
like this. -/
def launchEffect (enclosed : Bool) (w : Kernel) : (c : LaunchCall) → c.Answer → Option Kernel
  | .makeBatchCmdline script args, answer =>
    match answer, wjMakeBatchCmdline script args with
    | .ok _, .error _ => none
    | .error err, .error err' => if err = "out of memory" ∨ err = err' then some w else none
    | .error err, .ok _ => if err = "out of memory" then some w else none
    | .ok made, .ok line => if made.2 = line then some w else none
  | .toWide text, answer => if answer.isSome && (mtUtf8ToWide true text).isNone then none else some w
  | .createProcess call, answer =>
    match answer with
    | .error _ => some w
    | .ok info => w.create call info enclosed
  | .isProcessInJob proc, answer =>
    match answer with
    | none => some w
    | some inJob => if (processOf w.births proc).any fun b => b.enclosed == inJob then some w else none
  | .resumeThread thread, answer =>
    if answer then (threadOf w.births thread).map fun b => { w with ran := b.number :: w.ran } else some w
  | .terminateProcess proc, answer =>
    if answer then (processOf w.births proc).map fun b => { w with dead := b.number :: w.dead } else some w
  | .waitProcess proc, answer =>
    if answer then (processOf w.births proc).bind fun b => if b.number ∈ w.dead then some w else none else some w
  | .jobNew, answer =>
    match answer with
    | .error _ => some w
    | .ok j => some { w with jobs := ⟨w.jobs.length, j⟩ :: w.jobs }
  | .jobHandle j, answer =>
    (jobAt w.jobs j).bind fun job =>
      if answer = (if job.number ∈ w.closed then none else some j) then some w else none
  | .jobTerminate j, answer =>
    if answer then (jobAt w.jobs j).bind fun job =>
      if job.number ∈ w.closed then none else some { w with dead := membersOf w.births job.number ++ w.dead }
    else some w
  | .jobClose j, _ => (jobAt w.jobs j).map fun job => w.close job.number
  | .jobFree j, _ => (jobAt w.jobs j).map fun job => w.close job.number
  | .createThread (.monitor _ job _ _ _), answer =>
    match answer with
    | none => some w
    | some _ => (jobAt w.jobs job).map fun job => { w with watched := job.number :: w.watched }
  | _, _ => some w

/-- What others do: a process ends, or a monitor closes its job. -/
inductive KernelMove
  | exits (number : Nat)
  | closes (number : Nat)

def kernelMove : KernelMove → Kernel → Option Kernel
  | .exits number, w => if number < w.births.length then some { w with dead := number :: w.dead } else none
  | .closes number, w => if number ∈ w.watched then some (w.close number) else none

def launchHost : Host LaunchCall LaunchCall.Answer where
  World := Kernel
  Choice := LaunchChoice
  act c choice w := (launchEffect choice.enclosed w c (choice.answer c)).map fun v => (choice.answer c, v)
  Move := KernelMove
  move := kernelMove

/-- What a thread takes over, and what it works with. -/
def ThreadBody.own : ThreadBody → Multiset Asset
  | reader _ _ _ => 0
  | writer _ _ write => {.handle write}
  | monitor _ _ _ _ _ => 0
  | drain _ => 0

def ThreadBody.uses : ThreadBody → Multiset Asset
  | reader child buf read => {.block child} + {.block buf} + {.handle read}
  | writer child buf _ => {.block child} + {.block buf}
  | monitor child job proc done threads =>
    {.block child} + {.job job} + {.handle proc} + {.handle done} + (threads.map Asset.handle : List Asset)
  | drain read => {.handle read}

def ThreadBody.task (body : ThreadBody) (thread : Nat) : Task Asset := ⟨.handle thread, body.own, body.uses⟩

def CreateCall.needs (call : CreateCall) : Multiset Asset :=
  {.block call.application.1} + {.block call.commandLine.1} + (call.dir.elim 0 fun dir => {.block dir.1}) +
    ({.block call.attributes.block} + {.attributes call.attributes.block}) +
    (call.attributes.jobs.elim 0 fun jobs => {.block jobs.1}) +
    (((call.attributes.handles.getD []).map Asset.handle : List Asset) : Multiset Asset) +
    call.attributes.console.elim 0 fun console => {.console console}

/-- What the calls take, use and give back. -/
def launchDeal : (c : LaunchCall) → c.Answer → Deal Asset
  | .malloc, answer => { takes := answer.elim 0 fun b => {.block b} }
  | .free b, _ => { gives := {.block b} }
  | .resolveExe _, answer => { takes := answer.elim 0 fun exe => {.block exe.1} }
  | .comspecPath, answer => { takes := answer.toOption.elim 0 fun comspec => {.block comspec.1} }
  | .makeCmdline _, answer => { takes := answer.elim 0 fun b => {.block b} }
  | .makeBatchCmdline _ _, answer => { takes := answer.toOption.elim 0 fun made => {.block made.1} }
  | .toWide _, answer => { takes := answer.elim 0 fun b => {.block b} }
  | .getStdHandle _, _ => {}
  | .openNul, answer => { takes := answer.elim 0 fun h => {.handle h} }
  | .createPipe, answer => { takes := answer.elim 0 fun ends => {.handle ends.1} + {.handle ends.2} }
  | .duplicateHandle _, answer => { takes := answer.elim 0 fun h => {.handle h} }
  | .closeHandle h, _ => { gives := {.handle h} }
  | .attributeSize _, _ => {}
  | .initAttributes block _, answer =>
    { needs := {.block block}, takes := if answer then {.attributes block} else 0 }
  | .updateJobs al buffer _, _ => { needs := {.block al.block} + {.attributes al.block} + {.block buffer} }
  | .updateHandles al _, _ => { needs := {.block al.block} + {.attributes al.block} }
  | .updateConsole al console, _ => { needs := {.block al.block} + {.attributes al.block} + {.console console} }
  | .deleteAttributes block, _ => { needs := {.block block}, gives := {.attributes block} }
  | .createProcess call, answer =>
    { needs := call.needs, takes := answer.toOption.elim 0 fun info => {.handle info.handle} +
      {.handle info.thread} }
  | .isProcessInJob proc, _ => { needs := {.handle proc} }
  | .resumeThread thread, _ => { needs := {.handle thread} }
  | .terminateProcess proc, _ => { needs := {.handle proc} }
  | .waitProcess proc, answer => { needs := {.handle proc}, loses := !answer }
  | .jobNew, answer => { takes := answer.toOption.elim 0 fun j => {.job j} }
  | .jobSetLimits j _, _ => { needs := {.job j} }
  | .jobHandle j, _ => { needs := {.job j} }
  | .jobTerminate j, _ => { needs := {.job j} }
  | .jobClose j, _ => { needs := {.job j} }
  | .jobFree j, _ => { gives := {.job j} }
  | .createThread body, answer =>
    match answer with
    | none => {}
    | some h => { takes := {.handle h}, starts := some (body.task h) }
  | .join thread, answer =>
    { needs := {.handle thread}, joins := if answer then some (.handle thread) else none, loses := !answer }
  | .createEvent, answer => { takes := answer.elim 0 fun h => {.handle h} }
  | .waitEvent event _, _ => { needs := {.handle event} }
  | .tickCount, _ => {}
  | .createConsole inR outW, answer =>
    { needs := {.handle inR} + {.handle outW}, takes := answer.elim 0 fun c => {.console c} }
  | .closeConsole c, _ => { gives := {.console c} }
  | .makeFileChannel h, answer => { needs := {.handle h}, gives := if answer.isSome then {.handle h} else 0 }
  | .setChannelOption _ _ _, _ => {}
  | .getChannel _, _ => {}
  | .unregisterChannel _, _ => {}

/-- What is known of the processes and the jobs: all but which of the
processes have ended, and which of the other jobs are still open. -/
structure Lore where
  births : List Birth
  ran : List Nat
  dead : List Nat
  jobs : List JobObject
  held : List Nat

structure Kernel.Knows (lore : Lore) (w : Kernel) : Prop where
  births : w.births = lore.births
  ran : w.ran = lore.ran
  dead : ∀ n ∈ lore.dead, n ∈ w.dead
  jobs : w.jobs = lore.jobs
  held : ∀ n ∈ lore.held, n ∉ w.closed ∧ n ∉ w.watched
  numbered : ∀ job ∈ lore.jobs, job.number < lore.jobs.length
  older : ∀ n, n ∈ w.closed ∨ n ∈ w.watched → n < lore.jobs.length

namespace Lore

/-- A process has been created. -/
def create (lore : Lore) (b : Birth) (suspended : Bool) : Lore :=
  { lore with births := b :: lore.births, ran := if suspended then lore.ran else b.number :: lore.ran }

/-- A process has been let run. -/
def resume (lore : Lore) (number : Nat) : Lore := { lore with ran := number :: lore.ran }

/-- Processes have ended. -/
def end' (lore : Lore) (numbers : List Nat) : Lore := { lore with dead := numbers ++ lore.dead }

/-- A job has been created. -/
def jobNew (lore : Lore) (j : Nat) : Lore :=
  { lore with jobs := ⟨lore.jobs.length, j⟩ :: lore.jobs, held := lore.jobs.length :: lore.held }

/-- A job is no longer this program's alone. -/
def share (lore : Lore) (number : Nat) : Lore := { lore with held := lore.held.filter fun n => decide (n ≠ number) }

/-- What may be known behind `wj_job_new`. -/
def AfterJobNew (lore : Lore) : Except String Nat → Lore → Prop
  | .error _, later => later = lore
  | .ok j, later => later = lore.jobNew j

/-- What may be known behind `CreateProcessW`. -/
def AfterCreate (lore : Lore) (call : CreateCall) : Except Nat ProcessInfo → Lore → Prop
  | .error _, later => later = lore
  | .ok info, later => ∃ enclosed ns, jobNumbers lore.jobs ((call.attributes.jobs.map Prod.snd).getD []) = some ns ∧
      later = lore.create (call.birth lore.births.length info ns enclosed) call.breakaway

end Lore

namespace Kernel.Knows

variable {lore : Lore} {w v : Kernel}

/-- What a record says stays true whatever other programs, threads and
monitors do meanwhile. -/
theorem stable (lore : Lore) : launchHost.Stable (Kernel.Knows lore) := by
  rintro (number | number) w v knows moves
  · obtain ⟨-, same⟩ := Option.ite_none_right_eq_some.mp moves
    obtain rfl := Option.some.inj same
    exact ⟨knows.births, knows.ran, fun n known => List.mem_cons_of_mem _ (knows.dead n known),
      knows.jobs, knows.held,
      knows.numbered, knows.older⟩
  · obtain ⟨watched, same⟩ := Option.ite_none_right_eq_some.mp moves
    obtain rfl := Option.some.inj same
    refine ⟨knows.births, knows.ran, fun n known => List.mem_append_right _ (knows.dead n known), knows.jobs,
      fun n known => ?_,
      knows.numbered, fun n known => ?_⟩
    · refine ⟨fun inside => ?_, (knows.held n known).2⟩
      rcases List.mem_cons.mp inside with rfl | before
      · exact (knows.held n known).2 watched
      · exact (knows.held n known).1 before
    · rcases known with inside | before
      · rcases List.mem_cons.mp inside with rfl | before
        · exact knows.older n (.inr watched)
        · exact knows.older n (.inl before)
      · exact knows.older n (.inr before)

theorem create (knows : w.Knows lore) {call : CreateCall} {info : ProcessInfo} {enclosed : Bool}
    (created : w.create call info enclosed = some v) :
    ∃ ns, jobNumbers lore.jobs ((call.attributes.jobs.map Prod.snd).getD []) = some ns ∧
      v.Knows (lore.create (call.birth lore.births.length info ns enclosed) call.breakaway) := by
  obtain ⟨ns, found, made⟩ := Option.bind_eq_some_iff.mp created
  obtain ⟨-, same⟩ := Option.ite_none_left_eq_some.mp made
  obtain rfl := Option.some.inj same
  refine ⟨ns, by rw [← knows.jobs]; exact found, ?_, ?_, knows.dead, knows.jobs, knows.held, knows.numbered,
    knows.older⟩
  · rw [Lore.create, knows.births]
  · rw [Lore.create, knows.births, knows.ran]
    rfl

theorem resume (knows : w.Knows lore) (number : Nat) :
    Kernel.Knows (lore.resume number) { w with ran := number :: w.ran } :=
  ⟨knows.births, congrArg _ knows.ran, knows.dead, knows.jobs, knows.held, knows.numbered, knows.older⟩

theorem end' (knows : w.Knows lore) (numbers : List Nat) :
    Kernel.Knows (lore.end' numbers) { w with dead := numbers ++ w.dead } := by
  refine ⟨knows.births, knows.ran, fun n known => ?_, knows.jobs, knows.held, knows.numbered, knows.older⟩
  rcases List.mem_append.mp known with new | old
  · exact List.mem_append_left _ new
  · exact List.mem_append_right _ (knows.dead n old)

theorem jobNew (knows : w.Knows lore) (j : Nat) :
    Kernel.Knows (lore.jobNew j) { w with jobs := ⟨w.jobs.length, j⟩ :: w.jobs } := by
  refine ⟨knows.births, knows.ran, knows.dead,
    by rw [Lore.jobNew, knows.jobs], fun n known => ?_, fun job member => ?_,
    fun n known => Nat.lt_succ_of_lt (knows.older n known)⟩
  · rcases List.mem_cons.mp known with rfl | before
    · exact ⟨fun inside => Nat.lt_irrefl _ (knows.older _ (.inl inside)),
        fun inside => Nat.lt_irrefl _ (knows.older _ (.inr inside))⟩
    · exact knows.held n before
  · rcases List.mem_cons.mp member with rfl | before
    · exact Nat.lt_succ_self _
    · exact Nat.lt_succ_of_lt (knows.numbered job before)

theorem jobAt (knows : w.Knows lore) {j : Nat} {job : JobObject} (found : jobAt w.jobs j = some job) :
    Machteld.jobAt lore.jobs j = some job ∧ job.number < lore.jobs.length := by
  rw [knows.jobs] at found
  exact ⟨found, knows.numbered job (List.mem_of_find?_eq_some found)⟩

theorem share (knows : w.Knows lore) {number : Nat} (older : number < lore.jobs.length) :
    Kernel.Knows (lore.share number) { w with watched := number :: w.watched } := by
  refine ⟨knows.births, knows.ran, knows.dead, knows.jobs, fun n known => ?_, knows.numbered, fun n known => ?_⟩
  · obtain ⟨before, other⟩ := List.mem_filter.mp known
    refine ⟨(knows.held n before).1, fun inside => ?_⟩
    rcases List.mem_cons.mp inside with rfl | watched
    · exact absurd rfl (of_decide_eq_true other)
    · exact (knows.held n before).2 watched
  · rcases known with inside | inside
    · exact knows.older n (.inl inside)
    · rcases List.mem_cons.mp inside with rfl | before
      · exact older
      · exact knows.older n (.inr before)

theorem close (knows : w.Knows lore) {number : Nat} (older : number < lore.jobs.length) :
    (w.close number).Knows ((lore.end' (membersOf lore.births number)).share number) := by
  have ended := knows.end' (membersOf lore.births number)
  refine ⟨knows.births, knows.ran, fun n known => ?_, knows.jobs, fun n known => ?_, knows.numbered,
    fun n known => ?_⟩
  · rw [Kernel.close, knows.births]
    exact ended.dead n known
  · obtain ⟨before, other⟩ := List.mem_filter.mp known
    refine ⟨fun inside => ?_, (knows.held n before).2⟩
    rcases List.mem_cons.mp inside with rfl | closed
    · exact absurd rfl (of_decide_eq_true other)
    · exact (knows.held n before).1 closed
  · rcases known with inside | inside
    · rcases List.mem_cons.mp inside with rfl | before
      · exact older
      · exact knows.older n (.inl before)
    · exact knows.older n (.inr inside)

end Kernel.Knows

end Machteld
