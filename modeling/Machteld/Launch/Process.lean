import Machteld.Launch.Calls

namespace Machteld

/-- What a launcher gives back when it is done; the flag is `alInited`. -/
structure LaunchLocals where
  comspec : Option Nat := none
  cmdText : Option Nat := none
  wApp : Option Nat := none
  wCmd : Option Nat := none
  wDir : Option Nat := none
  jobs : Option Nat := none
  al : Option (Nat × Bool) := none
  inheritList : List Nat := []

abbrev LaunchT := LaunchRoutine LaunchLocals

def freeBlock : Option Nat → LaunchM Unit
  | none => pure ()
  | some b => LaunchCall.ask (.free b)

def closeHandles : List Nat → LaunchM Unit
  | [] => pure ()
  | h :: handles => do
    LaunchCall.ask (.closeHandle h)
    closeHandles handles

def freeList : Option (Nat × Bool) → LaunchM Unit
  | none => pure ()
  | some (al, false) => LaunchCall.ask (.free al)
  | some (al, true) => do
    LaunchCall.ask (.deleteAttributes al)
    LaunchCall.ask (.free al)

/-- What stands behind `done:` in both launchers. -/
def launchDone (s : LaunchLocals) : LaunchM Unit := do
  freeList s.al
  freeBlock s.jobs
  closeHandles s.inheritList
  freeBlock s.wApp
  freeBlock s.wCmd
  freeBlock s.wDir
  freeBlock s.cmdText
  freeBlock s.comspec

/-- The application and the command line. -/
def launchCommand (call : WjLaunch) : LaunchT (Bytes × Bytes) := do
  if wjIsBatchTarget call.exe then
    match ← LaunchCall.step .comspecPath with
    | .error err => throw err
    | .ok comspec =>
      modify fun s => { s with comspec := some comspec.1 }
      match ← LaunchCall.step (.makeBatchCmdline call.exe call.argv.tail) with
      | .error err => throw (some err)
      | .ok made =>
        modify fun s => { s with cmdText := some made.1 }
        return (comspec.2, made.2)
  else
    match ← LaunchCall.step (.makeCmdline call.argv) with
    | none => throw (some "out of memory")
    | some b =>
      modify fun s => { s with cmdText := some b }
      return (call.exe, wjMakeCmdline call.argv)

structure LaunchTexts where
  application : Nat × Bytes
  commandLine : Nat × Bytes
  dir : Option (Nat × Bytes)

/-- The wide texts. -/
def launchTexts (call : WjLaunch) (application commandLine : Bytes) : LaunchT LaunchTexts := do
  let wApp ← LaunchCall.step (.toWide application)
  modify fun s => { s with wApp := wApp }
  let wCmd ← LaunchCall.step (.toWide commandLine)
  modify fun s => { s with wCmd := wCmd }
  match wApp, wCmd with
  | some wApp, some wCmd =>
    if call.changesDir then
      match ← LaunchCall.step (.toWide (call.dir.getD [])) with
      | none => throw (some "bad working directory")
      | some wDir =>
        modify fun s => { s with wDir := some wDir }
        return ⟨(wApp, application), (wCmd, commandLine), some (wDir, call.dir.getD [])⟩
    else return ⟨(wApp, application), (wCmd, commandLine), none⟩
  | _, _ => throw (some "bad executable path or command line")

/-- A private copy of each of the handles, of equal ones the same; the pairs
are those so far. -/
def launchDups : List Nat → List (Nat × Nat) → LaunchT (List (Nat × Nat))
  | [], dups => return dups
  | orig :: origs, dups =>
    match dups.lookup orig with
    | some d => launchDups origs (dups ++ [(orig, d)])
    | none => do
      match ← LaunchCall.step (.duplicateHandle orig) with
      | none => throw (some "DuplicateHandle failed")
      | some d =>
        modify fun s => { s with inheritList := s.inheritList ++ [d] }
        launchDups origs (dups ++ [(orig, d)])

/-- The buffer with the jobs, where there are any. -/
def launchBuffer (njobs : Int) : LaunchT (Option Nat) := do
  if 0 < njobs then
    match ← LaunchCall.step .malloc with
    | none => throw (some "out of memory")
    | some b =>
      modify fun s => { s with jobs := some b }
      return some b
  else return none

/-- A list for some attributes. -/
def launchAttributes (count : Nat) (noMemory : String) : LaunchT Attributes := do
  match ← LaunchCall.step (.attributeSize count) with
  | false => throw (some "InitializeProcThreadAttributeList failed")
  | true =>
    match ← LaunchCall.step .malloc with
    | none => throw (some noMemory)
    | some b =>
      modify fun s => { s with al := some (b, false) }
      match ← LaunchCall.step (.initAttributes b count) with
      | false => throw (some "InitializeProcThreadAttributeList failed")
      | true =>
        modify fun s => { s with al := some (b, true) }
        return ⟨b, none, none, none⟩

def launchJobList (al : Attributes) (jobs : List Nat) : Option Nat → LaunchT Attributes
  | none => return al
  | some buffer => do
    match ← LaunchCall.step (.updateJobs al buffer jobs) with
    | false => throw (some "UpdateProcThreadAttribute(JOB_LIST) failed")
    | true => return { al with jobs := some (buffer, jobs) }

/-- Exactly the private copies are inherited. -/
def launchHandleList (al : Attributes) : LaunchT Attributes := do
  let handles := (← get).inheritList
  match ← LaunchCall.step (.updateHandles al handles) with
  | false => throw (some "UpdateProcThreadAttribute(HANDLE_LIST) failed")
  | true => return { al with handles := some handles }

def launchStdio : List (Nat × Nat) → Option WjStdio
  | [stdin, stdout, stderr] => some ⟨some stdin.2, some stdout.2, some stderr.2⟩
  | _ => none

def createFailed (error : Nat) : String := "CreateProcess failed (error " ++ (Nat.repr error ++ ")")

def launchCreated : Except Nat ProcessInfo → LaunchT ProcessInfo
  | .error error => throw (some (createFailed error))
  | .ok info => return info

def launchCreate (call : CreateCall) : LaunchT ProcessInfo := do
  launchCreated (← LaunchCall.step (.createProcess call))

/-- A process that may not run is ended, and its handles are closed. -/
def launchAbandon {α : Type} (info : ProcessInfo) (err : String) : LaunchT α := do
  let _ ← LaunchCall.step (.terminateProcess info.handle)
  let _ ← LaunchCall.step (.waitProcess info.handle)
  let _ ← LaunchCall.step (.closeHandle info.thread)
  let _ ← LaunchCall.step (.closeHandle info.handle)
  throw (some err)

/-- The process is seen to be in no job, and then let run. -/
def launchResume (info : ProcessInfo) : LaunchT Unit := do
  match ← LaunchCall.step (.isProcessInJob info.handle) with
  | some true => launchAbandon info "process did not break away from every enclosing job"
  | none => launchAbandon info "cannot verify process breakaway"
  | some false =>
    match ← LaunchCall.step (.resumeThread info.thread) with
    | false => launchAbandon info "ResumeThread failed"
    | true => return ()

/-- What is left of `wj_launch` once there is a process. -/
def launchFinish (wantBreakaway : Bool) (info : ProcessInfo) : LaunchT ProcessInfo := do
  if wantBreakaway then launchResume info
  let _ ← LaunchCall.step (.closeHandle info.thread)
  return info

/-- The job handles that a launcher puts into its buffer. -/
def WjLaunch.jobs (call : WjLaunch) : List Nat := ((call.jobHandles.getD []).take call.njobs.toNat).filterMap id

/-- What `wj_launch` does between its checks and `done:`. -/
def wjLaunchBody (call : WjLaunch) (origs : List Nat) (wantBreakaway : Bool) (env : Option (List UInt16)) :
    LaunchT ProcessInfo := do
  let command ← launchCommand call
  let texts ← launchTexts call command.1 command.2
  let dups ← launchDups origs []
  let buffer ← launchBuffer call.njobs
  let al ← launchAttributes (if 0 < call.njobs then 2 else 1) "InitializeProcThreadAttributeList failed"
  let al ← launchJobList al call.jobs buffer
  let al ← launchHandleList al
  let info ← launchCreate ⟨texts.application, texts.commandLine, texts.dir, env, true, launchStdio dups,
    wantBreakaway, al⟩
  launchFinish wantBreakaway info

def launchConsole (al : Attributes) (console : Nat) : LaunchT Attributes := do
  match ← LaunchCall.step (.updateConsole al console) with
  | false => throw (some "UpdateProcThreadAttribute(PSEUDOCONSOLE) failed")
  | true => return { al with console := some console }

/-- What `wj_launch_pty` does between its checks and `done:`. -/
def wjLaunchPtyBody (call : WjLaunch) (console : Nat) (env : Option (List UInt16)) : LaunchT ProcessInfo := do
  let command ← launchCommand call
  let texts ← launchTexts call command.1 command.2
  let buffer ← launchBuffer call.njobs
  let al ← launchAttributes 2 "out of memory"
  let al ← launchJobList al call.jobs buffer
  let al ← launchConsole al console
  let info ← launchCreate ⟨texts.application, texts.commandLine, texts.dir, env, false,
    some ⟨none, none, none⟩, false, al⟩
  launchFinish false info

/-- What the checks of `wj_launch` say. -/
def wjLaunchRefused (call : WjLaunch) (io : Option WjStdio) (wantBreakaway : Bool) : Option String :=
  if call.exe = [] then some "empty exe"
  else if call.argv = [] then some "empty argv"
  else if (io.all fun io => io.stdin.isNone || io.stdout.isNone || io.stderr.isNone) = true then
    some "all three stdio handles must be non-NULL"
  else if call.njobs < 0 ∨ (0 < call.njobs ∧ call.jobHandles = none) ∨ (call.njobs = 0 ∧ wantBreakaway = false) ∨
      (wantBreakaway = true ∧ call.njobs ≠ 0) then some "a supervised launch requires at least one job"
  else if call.jobMissing then some "job handle is NULL"
  else if call.changesDir ∧ pathIsAbsolute call.exe = false then some "exe must be an absolute path when dir is set"
  else none

def WjStdio.origs (io : WjStdio) : List Nat := [io.stdin, io.stdout, io.stderr].filterMap id

/-- `wj_launch` -/
def wjLaunchProcess (call : WjLaunch) (io : Option WjStdio) (wantBreakaway : Bool) (env : Option (List UInt16)) :
    LaunchM (Except (Option String) ProcessInfo) :=
  match wjLaunchRefused call io wantBreakaway with
  | some err => return .error (some err)
  | none => do
    let r ← wjLaunchBody call ((io.map WjStdio.origs).getD []) wantBreakaway env {}
    launchDone r.2
    return r.1

/-- What the checks of `wj_launch_pty` say. -/
def wjLaunchPtyRefused (call : WjLaunch) (pseudoconsole : Option Nat) : Option String :=
  if call.exe = [] then some "empty exe"
  else if call.argv = [] then some "empty argv"
  else if call.njobs ≤ 0 ∨ call.jobHandles = none then some "at least one job is required"
  else if call.jobMissing then some "job handle is NULL"
  else if pseudoconsole = none then some "pseudoconsole is required"
  else if call.changesDir ∧ pathIsAbsolute call.exe = false then some "exe must be an absolute path when dir is set"
  else none

/-- `wj_launch_pty` -/
def wjLaunchPtyProcess (call : WjLaunch) (pseudoconsole : Option Nat) (env : Option (List UInt16)) :
    LaunchM (Except (Option String) ProcessInfo) :=
  match wjLaunchPtyRefused call pseudoconsole with
  | some err => return .error (some err)
  | none => do
    let r ← wjLaunchPtyBody call (pseudoconsole.getD 0) env {}
    launchDone r.2
    return r.1

def heldBlock (b : Option Nat) : Multiset Asset := b.elim 0 fun b => {.block b}

def heldHandles (handles : List Nat) : Multiset Asset := (handles.map Asset.handle : List Asset)

def heldList (al : Option (Nat × Bool)) : Multiset Asset :=
  al.elim 0 fun al => if al.2 then {.attributes al.1} + {.block al.1} else {.block al.1}

/-- What a launcher holds is what its locals say. -/
def LaunchLocals.owned (s : LaunchLocals) : Multiset Asset :=
  heldList s.al + (heldBlock s.jobs + (heldHandles s.inheritList +
    (heldBlock s.wApp + (heldBlock s.wCmd + (heldBlock s.wDir +
    (heldBlock s.cmdText + heldBlock s.comspec))))))

section

variable {x : LaunchWorld} {F : Multiset Asset} {ts : List (Task Asset)} {lore : Lore}

theorem freeBlock_runs {b : Option Nat} (has : Has (heldBlock b + F) ts lore x) (kept : Kept ts F) :
    Runs (freeBlock b) (fun _ y => Has F ts lore y) x := by
  cases b with
  | none => exact Safely.done (has.swap (zero_add F)) (Kernel.Knows.stable lore) fun _ later => later
  | some b =>
    exact Runs.free (f := pure) has kept fun y later =>
      Safely.done later (Kernel.Knows.stable lore) fun _ later => later

theorem closeHandles_runs {handles : List Nat} (has : Has (heldHandles handles + F) ts lore x) (kept : Kept ts F) :
    Runs (closeHandles handles) (fun _ y => Has F ts lore y) x := by
  induction handles generalizing x with
  | nil => exact Safely.done (has.swap (zero_add F)) (Kernel.Knows.stable lore) fun _ later => later
  | cons h handles ih =>
    have split : heldHandles (h :: handles) + F = {.handle h} + (heldHandles handles + F) := by
      rw [← add_assoc]
      rfl
    exact Runs.closeHandle (has.swap split) (kept.add _) fun y later => ih later

theorem freeList_runs {al : Option (Nat × Bool)} (has : Has (heldList al + F) ts lore x) (kept : Kept ts F) :
    Runs (freeList al) (fun _ y => Has F ts lore y) x := by
  match al with
  | none => exact Safely.done (has.swap (zero_add F)) (Kernel.Knows.stable lore) fun _ later => later
  | some (al, false) =>
    exact Runs.free (f := pure) has kept fun y later =>
      Safely.done later (Kernel.Knows.stable lore) fun _ later => later
  | some (al, true) =>
    refine Runs.give (c := .deleteAttributes al) (N := {.block al}) (G := {.attributes al})
      (F := {.block al} + F) trivial
      (has.swap (add_assoc _ _ _)) (kept.add _) (fun _ => rfl) (fun r needed => ?_) fun _ y later => ?_
    · rw [Multiset.mem_singleton.mp needed]
      simp
    · exact Runs.free (f := pure) later kept fun y later =>
        Safely.done later (Kernel.Knows.stable lore) fun _ later => later

/-- Behind `done:` nothing is left of what the locals say. -/
theorem launchDone_runs {s : LaunchLocals} (has : Has (s.owned + F) ts lore x) (kept : Kept ts F) :
    Runs (launchDone s) (fun _ y => Has F ts lore y) x := by
  have comspec := kept.add (heldBlock s.comspec)
  have cmdText := comspec.add (heldBlock s.cmdText)
  have wDir := cmdText.add (heldBlock s.wDir)
  have wCmd := wDir.add (heldBlock s.wCmd)
  have wApp := wCmd.add (heldBlock s.wApp)
  have handles := wApp.add (heldHandles s.inheritList)
  have jobs := handles.add (heldBlock s.jobs)
  rw [LaunchLocals.owned] at has
  simp only [add_assoc] at has
  refine Safely.andThen (freeList_runs has jobs) fun _ y has => ?_
  refine Safely.andThen (freeBlock_runs has handles) fun _ y has => ?_
  refine Safely.andThen (closeHandles_runs has wApp) fun _ y has => ?_
  refine Safely.andThen (freeBlock_runs has wCmd) fun _ y has => ?_
  refine Safely.andThen (freeBlock_runs has wDir) fun _ y has => ?_
  refine Safely.andThen (freeBlock_runs has cmdText) fun _ y has => ?_
  refine Safely.andThen (freeBlock_runs has comspec) fun _ y has => ?_
  exact freeBlock_runs has kept

end

end Machteld
