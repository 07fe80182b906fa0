import Machteld.Cmdline.ProgramWord
import Machteld.Launch.Launched

namespace Machteld

/-- What `child_launch` reads of `run_opts`; the bytes of `-stdin` are those
of the value. -/
structure ChildOpts where
  timeoutMs : Option Nat
  mem : Nat
  cpu100ns : Nat
  dir : Option Bytes
  stdin : Option Bytes
  env : Option (List UInt16)
  channels : Bool
  inherit : Bool
  arg0 : Option Bytes

/-- What a `child_t` keeps; its address is not in it. -/
structure ChildRecord where
  job : Option Nat := none
  proc : Option Nat := none
  pid : Nat := 0
  outR : Option Nat := none
  errR : Option Nat := none
  tOut : Option Nat := none
  tErr : Option Nat := none
  roBuf : Option Nat := none
  reBuf : Option Nat := none
  tIn : Option Nat := none
  wiBuf : Option Nat := none
  wiLen : Nat := 0
  wiWrite : Option Nat := none
  doneEv : Option Nat := none
  monitor : Option Nat := none
  inW : Option Nat := none
  stream : Bool := false
  channels : Bool := false
  inherit : Bool := false
  inheritIn : Option Nat := none
  inheritOut : Option Nat := none
  inheritErr : Option Nat := none
  deadline : Nat := 0
  reaped : Bool := false
  chIn : Option Nat := none
  chOut : Option Nat := none
  chErr : Option Nat := none

/-- What `child_launch` gives back where it fails, beside the program and
the `child_t` themselves. -/
structure ChildLocals where
  outW : Option Nat := none
  errW : Option Nat := none
  nul : Option Nat := none
  stdinR : Option Nat := none
  stdinW : Option Nat := none
  c : ChildRecord := {}

abbrev ChildRoutine := LaunchRoutine ChildLocals

/-- The null device, where it is needed. -/
def childNul (needed : Bool) : ChildRoutine Unit := do
  if needed then
    match ← LaunchCall.step .openNul with
    | none => throw (some "open NUL failed")
    | some nul => modify fun s => { s with nul := some nul }
  else return ()

/-- The handles of this process, and the null device for those that are
missing. -/
def childInherit : ChildRoutine Unit := do
  let si ← LaunchCall.step (.getStdHandle .input)
  let so ← LaunchCall.step (.getStdHandle .output)
  let se ← LaunchCall.step (.getStdHandle .error)
  childNul (si.isNone || so.isNone || se.isNone)
  modify fun s => { s with c := { s.c with
    inheritIn := si.or s.nul, inheritOut := so.or s.nul, inheritErr := se.or s.nul } }

/-- The pipes for the output, and for the input a pipe or the null device.
-/
def childPipes (o : ChildOpts) : ChildRoutine Unit := do
  match ← LaunchCall.step .createPipe with
  | none => throw (some "CreatePipe failed")
  | some out =>
    modify fun s => { s with outW := some out.2, c := { s.c with outR := some out.1 } }
    match ← LaunchCall.step .createPipe with
    | none => throw (some "CreatePipe failed")
    | some err =>
      modify fun s => { s with errW := some err.2, c := { s.c with errR := some err.1 } }
      if o.stdin.isSome || o.channels then
        match ← LaunchCall.step .createPipe with
        | none => throw (some "CreatePipe(stdin) failed")
        | some stdin => modify fun s => { s with stdinR := some stdin.1, stdinW := some stdin.2 }
      else childNul true

def childStreams (o : ChildOpts) : ChildRoutine Unit := if o.inherit then childInherit else childPipes o

/-- A job of the child's own, with its limits. -/
def childJob (o : ChildOpts) : ChildRoutine Nat := do
  match ← LaunchCall.step .jobNew with
  | .error err => throw (some err)
  | .ok j =>
    modify fun s => { s with c := { s.c with job := some j } }
    if o.mem ≠ 0 ∨ o.cpu100ns ≠ 0 then
      match ← LaunchCall.step (.jobSetLimits j ⟨o.mem, o.cpu100ns⟩) with
      | some err => throw (some err)
      | none => return j
    else return j

def argvCopied : Option Nat → ChildRoutine (Option Nat)
  | none => throw (some "out of memory")
  | some b => return some b

/-- `argv_with_arg0`: the block of the copy, where one is made. -/
def argvCopy (o : ChildOpts) : ChildRoutine (Option Nat) := do
  match o.arg0 with
  | none => return none
  | some _ => argvCopied (← LaunchCall.step .malloc)

def childStdio (o : ChildOpts) (s : ChildLocals) : WjStdio :=
  if o.inherit then ⟨s.c.inheritIn, s.c.inheritOut, s.c.inheritErr⟩
  else ⟨if o.stdin.isSome || o.channels then s.stdinR else s.nul, s.outW, s.errW⟩

/-- When the child has to be done. -/
def childDeadline : Option Nat → ChildRoutine Unit
  | none => return ()
  | some ms => do
    let now ← LaunchCall.step .tickCount
    modify fun s => { s with c := { s.c with deadline := now + ms } }

def childLaunched (o : ChildOpts) : Except (Option String) ProcessInfo → ChildRoutine Unit
  | .error err => throw err
  | .ok info => do
    modify fun s => { s with c := { s.c with pid := info.pid, proc := some info.handle } }
    childDeadline o.timeoutMs

/-- The process, born into the root job and then the child's own. -/
def childProcess (o : ChildOpts) (root : Nat) (exe : Bytes) (cargv : List Bytes) (stream : Bool) (j : Nat) :
    ChildRoutine Unit := do
  let rootHandle ← LaunchCall.step (.jobHandle root)
  let handle ← LaunchCall.step (.jobHandle j)
  modify fun s => { s with c := { s.c with inherit := o.inherit, channels := o.channels, stream := stream } }
  let largv ← argvCopy o
  let s ← get
  let launched ← Routine.within
    (wjLaunchProcess ⟨exe, argvWithArg0 o.arg0 cargv, o.dir, some [rootHandle, handle], 2⟩
      (some (childStdio o s)) false o.env)
  Routine.within (freeBlock largv)
  childLaunched o launched

def closeHeld : Option Nat → LaunchM Unit
  | none => pure ()
  | some h => LaunchCall.ask (.closeHandle h)

/-- The child holds its own copies now. -/
def closeEnds : ChildRoutine Unit := do
  let s ← get
  Routine.within (closeHeld s.outW)
  modify fun s => { s with outW := none }
  Routine.within (closeHeld s.errW)
  modify fun s => { s with errW := none }
  Routine.within (closeHeld s.nul)
  modify fun s => { s with nul := none }
  Routine.within (closeHeld s.stdinR)
  modify fun s => { s with stdinR := none }

/-- The threads that read the output into its buffers; the address is that
of the `child_t`. -/
def childReaderThreads (address ro re : Nat) : ChildRoutine Unit := do
  let s ← get
  match ← LaunchCall.step (.createThread (.reader address ro (s.c.outR.getD 0))) with
  | none => throw (some "cannot start stdout reader thread")
  | some t =>
    modify fun s => { s with c := { s.c with tOut := some t } }
    match ← LaunchCall.step (.createThread (.reader address re (s.c.errR.getD 0))) with
    | none => throw (some "cannot start stderr reader thread")
    | some t => modify fun s => { s with c := { s.c with tErr := some t } }

/-- The buffers for the output and, where it is not streamed, the threads
that read it. -/
def childReaders (o : ChildOpts) (address : Nat) (stream : Bool) : ChildRoutine Unit := do
  if o.channels || o.inherit then pure ()
  else
    let ro ← LaunchCall.step .malloc
    modify fun s => { s with c := { s.c with roBuf := ro } }
    let re ← LaunchCall.step .malloc
    modify fun s => { s with c := { s.c with reBuf := re } }
    match ro, re with
    | some ro, some re => if stream then pure () else childReaderThreads address ro re
    | _, _ => throw (some "out of memory")

/-- The thread that writes the input. -/
def childWriter (address b : Nat) : ChildRoutine Unit := do
  let s ← get
  match ← LaunchCall.step (.createThread (.writer address b (s.c.wiWrite.getD 0))) with
  | none => throw (some "cannot start stdin writer thread")
  | some t => modify fun s => { s with c := { s.c with tIn := some t } }

/-- The input: the end of the pipe is kept, or given to a thread that
writes, or closed where there is nothing to write. -/
def childInput (o : ChildOpts) (address : Nat) : ChildRoutine Unit := do
  if o.channels then modify fun s => { s with stdinW := none, c := { s.c with inW := s.stdinW } }
  else
    match o.stdin with
    | none => pure ()
    | some bytes =>
      if 0 < bytes.length then
        match ← LaunchCall.step .malloc with
        | none => throw (some "out of memory")
        | some b =>
          modify fun s => { s with c := { s.c with wiBuf := some b, wiLen := bytes.length } }
          modify fun s => { s with stdinW := none, c := { s.c with wiWrite := s.stdinW } }
          childWriter address b
      else
        let s ← get
        Routine.within (closeHeld s.stdinW)
        modify fun s => { s with stdinW := none }

/-- The event of the end, and the monitor that sets it. -/
def childMonitor (address : Nat) : ChildRoutine Unit := do
  match ← LaunchCall.step .createEvent with
  | none => throw (some "cannot create child completion event")
  | some ev =>
    modify fun s => { s with c := { s.c with doneEv := some ev } }
    let s ← get
    let threads := s.c.tIn.toList ++ (s.c.tOut.toList ++ s.c.tErr.toList)
    match ← LaunchCall.step (.createThread (.monitor address (s.c.job.getD 0) (s.c.proc.getD 0) ev threads)) with
    | none => throw (some "cannot start child monitor thread")
    | some t => modify fun s => { s with c := { s.c with monitor := some t } }

def childBody (o : ChildOpts) (root address : Nat) (exe : Bytes) (cargv : List Bytes) (stream : Bool) :
    ChildRoutine Unit := do
  childStreams o
  let j ← childJob o
  childProcess o root exe cargv stream j
  closeEnds
  childReaders o address stream
  childInput o address
  childMonitor address

/-- A thread is waited for, and its handle is closed. -/
def joinThread : Option Nat → LaunchM Bool
  | none => return true
  | some t => do
    let joined ← LaunchCall.ask (.join t)
    LaunchCall.ask (.closeHandle t)
    return joined

def freeJob : Option Nat → LaunchM Unit
  | none => pure ()
  | some j => LaunchCall.ask (.jobFree j)

/-- A process that was created is killed with its job. -/
def terminateChild : Option Nat → Option Nat → LaunchM Unit
  | some _, some j => do
    let _ ← LaunchCall.ask (.jobTerminate j)
  | _, _ => pure ()

/-- What stands behind `fail:`, but for the program and the `child_t`. -/
def childFail (s : ChildLocals) : LaunchM Unit := do
  terminateChild s.c.proc s.c.job
  closeHeld s.outW
  closeHeld s.errW
  closeHeld s.nul
  closeHeld s.stdinR
  closeHeld s.stdinW
  closeHeld s.c.inW
  closeHeld (if s.c.tIn.isNone then s.c.wiWrite else none)
  let _ ← joinThread s.c.tIn
  let _ ← joinThread s.c.tOut
  let _ ← joinThread s.c.tErr
  let _ ← joinThread s.c.monitor
  closeHeld s.c.proc
  closeHeld s.c.doneEv
  closeHeld s.c.outR
  closeHeld s.c.errR
  freeJob s.c.job
  freeBlock s.c.wiBuf
  freeBlock s.c.roBuf
  freeBlock s.c.reBuf

/-- `child_launch`, with the address of the `child_t`; an error comes with
its code. -/
def childLaunch (o : ChildOpts) (root : Nat) (cargv : List Bytes) (stream : Bool) :
    LaunchM (Except (String × Option String) (Nat × ChildRecord)) := do
  match ← LaunchCall.ask (.resolveExe (cargv.headD [])) with
  | none => return .error ("notfound", some "command not found on PATH")
  | some exe =>
    match ← LaunchCall.ask .malloc with
    | none => do
      LaunchCall.ask (.free exe.1)
      return .error ("launch", some "out of memory")
    | some address => do
      match ← childBody o root address exe.2 cargv stream {} with
      | (.ok _, s) => do
        LaunchCall.ask (.free exe.1)
        return .ok (address, s.c)
      | (.error err, s) => do
        childFail s
        LaunchCall.ask (.free exe.1)
        LaunchCall.ask (.free address)
        return .error ("launch", err)

def heldHandle (h : Option Nat) : Multiset Asset := h.elim 0 fun h => {.handle h}

def heldJob (j : Option Nat) : Multiset Asset := j.elim 0 fun j => {.job j}

/-- The end of the input that no thread has taken over. -/
def ChildRecord.writeEnd (c : ChildRecord) : Option Nat := if c.tIn.isNone then c.wiWrite else none

/-- What a child keeps when its threads are done. -/
def ChildRecord.kept (c : ChildRecord) : Multiset Asset :=
  heldHandle c.proc + (heldHandle c.doneEv + (heldHandle c.outR + (heldHandle c.errR + (heldJob c.job +
    (heldBlock c.wiBuf + (heldBlock c.roBuf + heldBlock c.reBuf))))))

/-- What the handles of the threads stand for. -/
def ChildRecord.threads (c : ChildRecord) : Multiset Asset :=
  heldHandle c.tIn + (heldHandle c.tOut + (heldHandle c.tErr + heldHandle c.monitor))

/-- What a child holds is what its record says. -/
def ChildLocals.owned (s : ChildLocals) : Multiset Asset :=
  heldHandle s.outW + (heldHandle s.errW + (heldHandle s.nul + (heldHandle s.stdinR + (heldHandle s.stdinW +
    (heldHandle s.c.inW + (heldHandle s.c.writeEnd + (s.c.threads + s.c.kept)))))))

def ChildRecord.writer (c : ChildRecord) (address : Nat) : List (Task Asset) :=
  (c.tIn.map (ThreadBody.writer address (c.wiBuf.getD 0) (c.wiWrite.getD 0)).task).toList

def ChildRecord.reader (c : ChildRecord) (address : Nat) : List (Task Asset) :=
  (c.tOut.map (ThreadBody.reader address (c.roBuf.getD 0) (c.outR.getD 0)).task).toList

def ChildRecord.errReader (c : ChildRecord) (address : Nat) : List (Task Asset) :=
  (c.tErr.map (ThreadBody.reader address (c.reBuf.getD 0) (c.errR.getD 0)).task).toList

def ChildRecord.observer (c : ChildRecord) (address : Nat) : List (Task Asset) :=
  (c.monitor.map (ThreadBody.monitor address (c.job.getD 0) (c.proc.getD 0) (c.doneEv.getD 0)
    (c.tIn.toList ++ (c.tOut.toList ++ c.tErr.toList))).task).toList

/-- The threads that may run for a child. -/
def ChildRecord.tasks (c : ChildRecord) (address : Nat) : List (Task Asset) :=
  c.observer address ++ (c.writer address ++ (c.reader address ++ c.errReader address))

/-- A thread runs with what it was given. -/
structure ChildRecord.Sound (c : ChildRecord) : Prop where
  writer : c.tIn.isSome = true → c.wiBuf.isSome = true
  reader : c.tOut.isSome = true → c.roBuf.isSome = true ∧ c.outR.isSome = true
  errReader : c.tErr.isSome = true → c.reBuf.isSome = true ∧ c.errR.isSome = true

/-- A job has been closed, and with it the processes that were born into it.
-/
structure Lore.Closes (lore : Lore) (j : Option Nat) (lore' : Lore) : Prop where
  births : lore'.births = lore.births
  ran : lore'.ran = lore.ran
  jobs : lore'.jobs = lore.jobs
  dead : ∀ n ∈ lore.dead, n ∈ lore'.dead
  none' : j = none → lore'.held = lore.held
  some' : ∀ a, j = some a → ∃ job, jobAt lore.jobs a = some job ∧
    (∀ b ∈ lore.births, job.number ∈ b.jobs → b.number ∈ lore'.dead) ∧
      ∀ n ∈ lore.held, n ≠ job.number → n ∈ lore'.held

section

variable {x : LaunchWorld} {F : Multiset Asset} {ts : List (Task Asset)} {lore : Lore} {s : ChildLocals}

theorem closeHeld_runs {h : Option Nat} (has : Has (heldHandle h + F) ts lore x) (kept : Kept ts F) :
    Runs (closeHeld h) (fun _ y => Has F ts lore y) x := by
  cases h with
  | none => exact Safely.done (has.swap (zero_add F)) (Kernel.Knows.stable lore) fun _ later => later
  | some h =>
    exact Runs.closeHandle (f := pure) has kept fun y later =>
      Safely.done later (Kernel.Knows.stable lore) fun _ later => later

/-- A thread that was waited for is gone, with its handle. -/
theorem joinThread_runs {t : Option Nat} {tasks : List (Task Asset)}
    (named : ∀ task ∈ tasks, t.map Asset.handle = some task.name)
    (has : Has (heldHandle t + F) (tasks ++ ts) lore x)
    (kept : Kept ts F) : Runs (joinThread t) (fun _ y => Has F ts lore y) x := by
  cases t with
  | none =>
    have empty : tasks = [] := List.eq_nil_iff_forall_not_mem.mpr fun task member => by cases named task member
    subst empty
    exact Safely.done (has.swap (zero_add F)) (Kernel.Knows.stable lore) fun _ later => later
  | some t =>
    have mine : Asset.handle t ∈ heldHandle (some t) + F :=
      Multiset.mem_add.mpr (.inl (Multiset.mem_singleton_self _))
    refine Runs.join (u := ts) has mine (fun task member other => ?_)
      (fun task member => List.mem_append_right _ member)
      fun y has => ?_
    · rcases List.mem_append.mp member with joined | rest
      · exact absurd (Option.some.inj (named task joined)).symm other
      · exact rest
    · exact Runs.closeHandle has kept fun y later => Safely.done later (Kernel.Knows.stable lore)
        fun _ later => later

theorem terminateChild_runs {proc j : Option Nat} (has : Has F ts lore x) (mine : ∀ a, j = some a → .job a ∈ F) :
    Runs (terminateChild proc j) (fun _ y => ∃ numbers, Has F ts (lore.end' numbers) y) x := by
  match proc, j with
  | none, _ => exact Safely.done has (Kernel.Knows.stable lore) fun _ later => ⟨[], later⟩
  | some _, none => exact Safely.done has (Kernel.Knows.stable lore) fun _ later => ⟨[], later⟩
  | some _, some j =>
    exact Runs.jobTerminate has (mine j rfl) fun a numbers y _ later =>
      Safely.done later (Kernel.Knows.stable _) fun _ later => ⟨numbers, later⟩

theorem Lore.Closes.free {j : Nat} {job : JobObject} (found : jobAt lore.jobs j = some job) :
    lore.Closes (some j) ((lore.end' (membersOf lore.births job.number)).share job.number) := by
  refine ⟨rfl, rfl, rfl, fun n known => List.mem_append_right _ known, nofun, fun a same => ?_⟩
  obtain rfl := Option.some.inj same
  refine ⟨job, found, fun b member inside => ?_, fun n known other => List.mem_filter.mpr
    ⟨known, decide_eq_true other⟩⟩
  exact List.mem_append_left _ (List.mem_map_of_mem (List.mem_filter.mpr ⟨member, decide_eq_true inside⟩))

theorem Lore.Closes.ended {numbers : List Nat} {j : Option Nat} {lore' : Lore}
    (closes : (lore.end' numbers).Closes j lore') :
    lore.Closes j lore' :=
  ⟨closes.births, closes.ran, closes.jobs, fun n known =>
    closes.dead n (List.mem_append_right _ known), closes.none',
    closes.some'⟩

theorem freeJob_runs {j : Option Nat} (has : Has (heldJob j + F) ts lore x) (kept : Kept ts F) :
    Runs (freeJob j) (fun _ y => ∃ lore', Has F ts lore' y ∧ lore.Closes j lore') x := by
  cases j with
  | none =>
    refine Safely.done (has.swap (zero_add F)) (Kernel.Knows.stable lore) fun _ later => ⟨lore, later, ?_⟩
    exact ⟨rfl, rfl, rfl, fun _ known => known, fun _ => rfl, nofun⟩
  | some j =>
    exact Runs.jobFree (f := pure) has kept fun job y found later =>
      Safely.done later (Kernel.Knows.stable _) fun _ later => ⟨_, later, .free found⟩

theorem task_named {t : Option Nat} {body : ThreadBody} :
    ∀ task ∈ (t.map body.task).toList, t.map Asset.handle = some task.name := by
  intro task member
  obtain ⟨t', known, rfl⟩ := Option.map_eq_some_iff.mp (Option.mem_toList.mp member)
  rw [known]
  rfl

/-- What the threads that read and write work with is kept until they are
done. -/
theorem ChildRecord.Sound.keeps {c : ChildRecord} (sound : c.Sound) {address : Nat} (own : .block address ∈ F) :
    Kept (c.writer address ++ (c.reader address ++ c.errReader address)) (c.kept + F) := by
  have block : ∀ {b : Option Nat}, b.isSome = true → Asset.block (b.getD 0) ∈ heldBlock b := by
    intro b some'
    obtain ⟨n, rfl⟩ := Option.isSome_iff_exists.mp some'
    exact Multiset.mem_singleton_self _
  have handle : ∀ {h : Option Nat}, h.isSome = true → Asset.handle (h.getD 0) ∈ heldHandle h := by
    intro h some'
    obtain ⟨n, rfl⟩ := Option.isSome_iff_exists.mp some'
    exact Multiset.mem_singleton_self _
  intro task member r used
  rw [ChildRecord.kept]
  rcases List.mem_append.mp member with inW | rest
  · obtain ⟨t, known, rfl⟩ := Option.map_eq_some_iff.mp (Option.mem_toList.mp inW)
    have buf := block (sound.writer (by rw [known]; rfl))
    rcases Multiset.mem_add.mp used with here | here <;> rw [Multiset.mem_singleton.mp here]
    · simp only [Multiset.mem_add, own, or_true]
    · simp only [Multiset.mem_add, buf, true_or, or_true]
  rcases List.mem_append.mp rest with out | err
  · obtain ⟨t, known, rfl⟩ := Option.map_eq_some_iff.mp (Option.mem_toList.mp out)
    obtain ⟨some', read⟩ := sound.reader (by rw [known]; rfl)
    have buf := block some'
    have pipe := handle read
    rcases Multiset.mem_add.mp used with here | here
    · rcases Multiset.mem_add.mp here with here | here <;> rw [Multiset.mem_singleton.mp here]
      · simp only [Multiset.mem_add, own, or_true]
      · simp only [Multiset.mem_add, buf, true_or, or_true]
    · rw [Multiset.mem_singleton.mp here]
      simp only [Multiset.mem_add, pipe, true_or, or_true]
  · obtain ⟨t, known, rfl⟩ := Option.map_eq_some_iff.mp (Option.mem_toList.mp err)
    obtain ⟨some', read⟩ := sound.errReader (by rw [known]; rfl)
    have buf := block some'
    have pipe := handle read
    rcases Multiset.mem_add.mp used with here | here
    · rcases Multiset.mem_add.mp here with here | here <;> rw [Multiset.mem_singleton.mp here]
      · simp only [Multiset.mem_add, own, or_true]
      · simp only [Multiset.mem_add, buf, true_or, or_true]
    · rw [Multiset.mem_singleton.mp here]
      simp only [Multiset.mem_add, pipe, true_or, or_true]

theorem Kept.append {ts' : List (Task Asset)} (first : Kept ts F) (second : Kept ts' F) : Kept (ts ++ ts') F :=
  fun task member => (List.mem_append.mp member).elim (first task) (second task)

theorem Kept.of_append {ts' : List (Task Asset)} (both : Kept (ts ++ ts') F) : Kept ts' F :=
  fun task member => both task (List.mem_append_right _ member)

/-- Behind `fail:` nothing is left of a child, no thread of its runs, and
its job is closed. -/
theorem childFail_runs {address : Nat} (has : Has (s.owned + F) (s.c.tasks address ++ ts) lore x)
    (sound : s.c.Sound)
    (quiet : s.c.monitor = none) (kept : Kept ts F) (own : .block address ∈ F) :
    Runs (childFail s) (fun _ y => ∃ lore', Has F ts lore' y ∧ lore.Closes s.c.job lore') x := by
  have silent : s.c.observer address = [] := by rw [ChildRecord.observer, quiet]; rfl
  have reading : Kept (s.c.writer address ++ (s.c.reader address ++
    (s.c.errReader address ++ (s.c.observer address ++ ts))))
      (s.c.kept + F) := by
    have both := (sound.keeps own).append (kept.add s.c.kept)
    rwa [silent, List.nil_append, ← List.append_assoc (s.c.reader address), ← List.append_assoc]
  have tasks : s.c.tasks address ++ ts =
      s.c.writer address ++ (s.c.reader address ++ (s.c.errReader address ++ (s.c.observer address ++ ts))) := by
    rw [ChildRecord.tasks, silent, List.nil_append, List.nil_append, List.append_assoc, List.append_assoc]
  have job : ∀ a, s.c.job = some a → .job a ∈ s.owned + F := fun a known => by
    simp only [ChildLocals.owned, ChildRecord.kept, known, heldJob, Option.elim_some, Multiset.mem_add,
      Multiset.mem_singleton, true_or, or_true]
  rw [tasks] at has
  refine Safely.andThen (terminateChild_runs has job) fun _ y had => ?_
  obtain ⟨numbers, has⟩ := had
  simp only [ChildLocals.owned, ChildRecord.threads, add_assoc] at has
  have monitor := reading.add (heldHandle s.c.monitor)
  have tErr := monitor.add (heldHandle s.c.tErr)
  have tOut := tErr.add (heldHandle s.c.tOut)
  have tIn := tOut.add (heldHandle s.c.tIn)
  have writeEnd := tIn.add (heldHandle s.c.writeEnd)
  have inW := writeEnd.add (heldHandle s.c.inW)
  have stdinW := inW.add (heldHandle s.stdinW)
  have stdinR := stdinW.add (heldHandle s.stdinR)
  have nul := stdinR.add (heldHandle s.nul)
  have errW := nul.add (heldHandle s.errW)
  refine Safely.andThen (closeHeld_runs has errW) fun _ y has => ?_
  refine Safely.andThen (closeHeld_runs has nul) fun _ y has => ?_
  refine Safely.andThen (closeHeld_runs has stdinR) fun _ y has => ?_
  refine Safely.andThen (closeHeld_runs has stdinW) fun _ y has => ?_
  refine Safely.andThen (closeHeld_runs has inW) fun _ y has => ?_
  refine Safely.andThen (closeHeld_runs has writeEnd) fun _ y has => ?_
  refine Safely.andThen (closeHeld_runs has tIn) fun _ y has => ?_
  refine Safely.andThen (joinThread_runs task_named has tOut.of_append) fun _ y has => ?_
  refine Safely.andThen (joinThread_runs task_named has tErr.of_append.of_append) fun _ y has => ?_
  refine Safely.andThen (joinThread_runs task_named has monitor.of_append.of_append.of_append) fun _ y has => ?_
  refine Safely.andThen (joinThread_runs task_named has reading.of_append.of_append.of_append.of_append)
    fun _ y has => ?_
  rw [ChildRecord.kept] at has
  simp only [add_assoc] at has
  have roBuf := kept.add (heldBlock s.c.reBuf)
  have wiBuf := roBuf.add (heldBlock s.c.roBuf)
  have ended := wiBuf.add (heldBlock s.c.wiBuf)
  have errR := ended.add (heldJob s.c.job)
  have outR := errR.add (heldHandle s.c.errR)
  have doneEv := outR.add (heldHandle s.c.outR)
  have proc := doneEv.add (heldHandle s.c.doneEv)
  refine Safely.andThen (closeHeld_runs has proc) fun _ y has => ?_
  refine Safely.andThen (closeHeld_runs has doneEv) fun _ y has => ?_
  refine Safely.andThen (closeHeld_runs has outR) fun _ y has => ?_
  refine Safely.andThen (closeHeld_runs has errR) fun _ y has => ?_
  refine Safely.andThen (freeJob_runs has ended) fun _ y had => ?_
  obtain ⟨lore', has, closes⟩ := had
  refine Safely.andThen (freeBlock_runs has wiBuf) fun _ y has => ?_
  refine Safely.andThen (freeBlock_runs has roBuf) fun _ y has => ?_
  exact (freeBlock_runs has kept).mono fun _ y has => ⟨lore', has, closes.ended⟩

end

end Machteld
