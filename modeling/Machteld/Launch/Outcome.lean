import Machteld.Launch.Commands

namespace Machteld

/-- Every call is granted, with what is new numbered from `n` on. -/
def LaunchChoice.granted (n : Nat) : LaunchChoice where
  answer
    | .malloc => some n
    | .free _ => ()
    | .resolveExe prog => some (n, prog)
    | .comspecPath => .ok (n, [0x63])
    | .makeCmdline _ => some n
    | .makeBatchCmdline _ _ => .error "out of memory"
    | .toWide _ => some n
    | .getStdHandle _ => none
    | .openNul => some n
    | .createPipe => some (n, n + 1)
    | .duplicateHandle _ => some n
    | .closeHandle _ => ()
    | .attributeSize _ => true
    | .initAttributes _ _ => true
    | .updateJobs _ _ _ => true
    | .updateHandles _ _ => true
    | .updateConsole _ _ => true
    | .deleteAttributes _ => ()
    | .createProcess _ => .ok ⟨n, n + 1, n⟩
    | .isProcessInJob _ => some false
    | .resumeThread _ => true
    | .terminateProcess _ => true
    | .waitProcess _ => true
    | .jobNew => .ok n
    | .jobSetLimits _ _ => none
    | .jobHandle j => some j
    | .jobTerminate _ => true
    | .jobClose _ => ()
    | .jobFree _ => ()
    | .createThread _ => some n
    | .join _ => true
    | .createEvent => some n
    | .waitEvent _ _ => .object
    | .tickCount => n
    | .createConsole _ _ => some n
    | .closeConsole _ => ()
    | .makeFileChannel _ => some n
    | .setChannelOption _ _ _ => true
    | .getChannel _ => true
    | .unregisterChannel _ => ()
  enclosed := false

abbrev launchLedger := launchHost.ledger launchDeal

def grantedCalls (k : Nat) : List (launchLedger.Move ⊕ launchLedger.Choice) :=
  (List.range k).map fun i => .inr (LaunchChoice.granted (10 + 2 * i))

/-- A program that holds one job and has launched nothing yet. -/
def launchStart : LaunchWorld := (⟨{.job 7}, [], false, false⟩, ⟨[], [], [], [⟨0, 7⟩], [], []⟩)

def startLore : Lore := ⟨[], [], [], [⟨0, 7⟩], [0]⟩

theorem launchStart_has : Has {.job 7} [] startLore launchStart := by
  refine ⟨rfl, rfl,
    by decide, fun t member => absurd member List.not_mem_nil, fun t member => absurd member List.not_mem_nil, ?_⟩
  exact ⟨rfl, rfl, fun _ known => known, rfl, by decide, by decide, fun n known => by simp [launchStart] at known⟩

section

variable {F : Multiset Asset} {ts : List (Task Asset)} {lore : Lore} {x y : LaunchWorld}

/-- Whatever the processes, the threads and the monitors do meanwhile, and
however the calls of `wj_launch` end, as long as it has not waited in vain
for a process that it has ended: it never deals with what it does not hold
or what a thread works with; where it succeeds it holds exactly the handle
of the new process more, which was born into exactly the jobs of the call,
inherits nothing but private copies of the streams, and where it had to
break away was seen outside every job before it could run; where it fails it
holds nothing more and no process of its making is alive or has run. The
source does not look at how that wait ends, and where neither it nor
`TerminateProcess` has succeeded it leaves a process that is alive. -/
theorem wjLaunchProcess_leaves {call : WjLaunch} {io : Option WjStdio} {wantBreakaway : Bool}
    {env : Option (List UInt16)}
    {q : LaunchM (Except (Option String) ProcessInfo)} (has : Has F ts lore x)
    (run : launchLedger.Reaches (wjLaunchProcess call io wantBreakaway env) x q y) :
    Careful y ∧ ∀ r, q = .done r → y.1.lost = false →
      LaunchEnd F ts lore (fun b => wjLaunchRefused call io wantBreakaway = none ∧
      LaunchedAs call ((io.map WjStdio.origs).getD []) wantBreakaway env F lore b) r y :=
  (wjLaunchProcess_runs has).reaches run

def callInJob : WjLaunch := ⟨[0x61], [[0x61]], none, some [some 7], 1⟩

set_option maxRecDepth 4000 in
theorem wjLaunchProcess_leaves_handle : ∃ info y, launchLedger.Reaches
    (wjLaunchProcess callInJob (some ⟨some 4, some 5, some 5⟩) false none) launchStart (.done (.ok info)) y ∧
      LaunchEnd {.job 7}
        [] startLore (fun b => wjLaunchRefused callInJob (some ⟨some 4, some 5, some 5⟩) false = none ∧
        LaunchedAs callInJob [4, 5, 5] false none {.job 7} startLore b) (.ok info) y := by
  have ends : (launchLedger.finish (wjLaunchProcess callInJob (some ⟨some 4, some 5, some 5⟩) false
    none) launchStart
      (grantedCalls 21)).any (fun r => r.1.toOption.isSome && !r.2.1.lost) = true := by decide +kernel
  obtain ⟨⟨r, y⟩, finished, good⟩ := (Option.any_eq_true _ _).mp ends
  obtain ⟨ok, still⟩ := Bool.and_eq_true_iff.mp good
  have run := Host.finish_reaches finished
  cases r with
  | error err => cases ok
  | ok info => exact ⟨info, y, run, (wjLaunchProcess_leaves launchStart_has run).2 _ rfl (by simpa using still)⟩

/-- What holds of `wj_launch` holds of `wj_launch_pty`, which waits for
nothing itself, as long as no earlier wait without a limit has failed: it
deals with nothing it does not hold or that a thread works with; where it
succeeds it holds exactly the handle of the new process more, which was born
into exactly the jobs of the call, inherits nothing and has the
pseudoconsole for its console; where it fails it holds nothing more and no
process of its making is alive or has run. -/
theorem wjLaunchPtyProcess_leaves {call : WjLaunch} {pseudoconsole : Option Nat} {env : Option (List UInt16)}
    {q : LaunchM (Except (Option String) ProcessInfo)} (has : Has F ts lore x)
    (open' : ∀ c, pseudoconsole = some c → .console c ∈ F)
    (run : launchLedger.Reaches (wjLaunchPtyProcess call pseudoconsole env) x q y) :
    Careful y ∧ ∀ r, q = .done r → y.1.lost = false → LaunchEnd F ts lore (fun b =>
      wjLaunchPtyRefused call pseudoconsole = none ∧ ∃ c, pseudoconsole = some c ∧
        LaunchedOn call c env lore b) r y :=
  (wjLaunchPtyProcess_runs has open').reaches run

/-- A program that holds a job and a pseudoconsole. -/
def ptyStart : LaunchWorld := (⟨{.job 7, .console 9}, [], false, false⟩, ⟨[], [], [], [⟨0, 7⟩], [], []⟩)

theorem ptyStart_has : Has {.job 7, .console 9} [] startLore ptyStart := by
  refine ⟨rfl, rfl,
    by decide, fun t member => absurd member List.not_mem_nil, fun t member => absurd member List.not_mem_nil, ?_⟩
  exact ⟨rfl, rfl, fun _ known => known, rfl, by decide, by decide, fun n known => by simp [ptyStart] at known⟩

set_option maxRecDepth 4000 in
theorem wjLaunchPtyProcess_leaves_handle : ∃ info y, launchLedger.Reaches
    (wjLaunchPtyProcess callInJob (some 9) none) ptyStart (.done (.ok info)) y ∧
      LaunchEnd {.job 7, .console 9} [] startLore (fun b => wjLaunchPtyRefused callInJob (some 9) = none ∧
        ∃ c, some 9 = some c ∧ LaunchedOn callInJob c none startLore b) (.ok info) y := by
  have ends : (launchLedger.finish (wjLaunchPtyProcess callInJob (some 9) none) ptyStart (grantedCalls 17)).any
      (fun r => r.1.toOption.isSome && !r.2.1.lost) = true := by decide +kernel
  obtain ⟨⟨r, y⟩, finished, good⟩ := (Option.any_eq_true _ _).mp ends
  obtain ⟨ok, still⟩ := Bool.and_eq_true_iff.mp good
  have run := Host.finish_reaches finished
  have held : ∀ c, some 9 = some c → Asset.console c ∈ ({.job 7, .console 9} : Multiset Asset) := by
    rintro c ⟨⟩
    decide
  cases r with
  | error err => cases ok
  | ok info =>
    exact ⟨info, y, run, (wjLaunchPtyProcess_leaves ptyStart_has held run).2 _ rfl (by simpa using still)⟩

/-- However the calls of `child_launch` end, as long as no wait without a
limit has failed, for a process or for a thread, and where inherited streams
do not meet a pipe of the child's own, as they do in neither of its callers:
where it succeeds, what it holds more is the `child_t`, what its record says
and what the threads it started stand for; each of these works with nothing
else; the process was born into the root job and then into a job of the
child's own, inheriting nothing but copies of the ends of the pipes. Where
it fails it holds nothing more, no thread runs, and every process it created
has been ended. -/
theorem childLaunch_leaves {o : ChildOpts} {root : Nat} {cargv : List Bytes} {stream : Bool}
    {q : LaunchM (Except (String × Option String) (Nat × ChildRecord))} (has : Has F ts lore x) (kept : Kept ts F)
    (rootHeld : .job root ∈ F) (exclusive : o.inherit = true → o.stdin = none ∧ o.channels = false)
    (run : launchLedger.Reaches (childLaunch o root cargv stream) x q y) :
    Careful y ∧ ∀ r, q = .done r → y.1.lost = false → ChildLaunched o root cargv stream F ts lore r y :=
  (childLaunch_runs has kept rootHeld exclusive).reaches run

def optsWithInput : ChildOpts where
  timeoutMs := some 5
  mem := 1
  cpu100ns := 0
  dir := none
  stdin := some [0x61]
  env := none
  channels := false
  inherit := false
  arg0 := none

set_option maxRecDepth 4000 in
theorem childLaunch_leaves_child : ∃ made y,
    launchLedger.Reaches (childLaunch optsWithInput 7 [[0x61]] false) launchStart (.done (.ok made)) y ∧
      ChildLaunched optsWithInput 7 [[0x61]] false {.job 7} [] startLore (.ok made) y := by
  have ends : (launchLedger.finish (childLaunch optsWithInput 7 [[0x61]] false) launchStart (grantedCalls 45)).any
      (fun r => r.1.toOption.isSome && !r.2.1.lost) = true := by decide +kernel
  obtain ⟨⟨r, y⟩, finished, good⟩ := (Option.any_eq_true _ _).mp ends
  obtain ⟨ok, still⟩ := Bool.and_eq_true_iff.mp good
  have run := Host.finish_reaches finished
  cases r with
  | error err => cases ok
  | ok made =>
    have idle : Kept ([] : List (Task Asset)) {.job 7} := fun _ none' => absurd none' List.not_mem_nil
    exact ⟨made, y, run, (childLaunch_leaves launchStart_has idle (Multiset.mem_singleton_self _)
      (fun other => by cases other)
      run).2 _ rfl (by simpa using still)⟩

/-- A registry without children. -/
theorem ProcChildren.Keeps.start {r : ProcChildren} (has : Has F ts lore x) (kept : Kept ts F)
    (root : .job r.root ∈ F)
    (fresh : r.children = [] ∧ r.left = []) : r.Keeps F ts lore lore x := by
  have confined : lore.Confined r.children lore :=
    ⟨⟨[], rfl, fun _ none' => absurd none' List.not_mem_nil⟩, fun _ known => known⟩
  obtain ⟨root', counter, children, left⟩ := r
  obtain ⟨rfl, rfl⟩ : children = [] ∧ left = [] := fresh
  refine ⟨has.swap ?_, fun e none' => absurd none' List.not_mem_nil, confined,
    fun e none' => absurd none' List.not_mem_nil,
    List.nodup_nil, kept, root⟩
  simp only [heldBy, zero_add]

/-- Over any run of `child` commands, whatever their options, whenever the
processes, the threads and the monitors of the children move and however the
calls end, as long as no wait without a limit has failed, for a process or
for a thread: nothing is ever dealt with that is not held or that a thread
works with; what is held is what the records of the children say, together
with those that `child_free` had to leave; every process that was born is
dead or lives in the job of a child of the registry; and while fewer than
2^31 children have been started no two of them have the same token. A child
that cannot be joined is closed all the same, and what its threads still
work with is freed. -/
theorem childSession_keeps {r : ProcChildren} {commands : List ChildCommand}
    {q : LaunchM (List ChildReply × ProcChildren)}
    (has : Has F ts lore x) (kept : Kept ts F) (root : .job r.root ∈ F) (fresh : r.children = [] ∧ r.left = [])
    (run : launchLedger.Reaches (childSession r commands) x q y) :
    Careful y ∧ ∀ a, q = .done a → y.1.lost = false → RegistryKept r F ts lore a.2 y ∧
      (a.2.counter < 2 ^ 31 → (a.2.children.map ChildEntry.token).Nodup) := by
  obtain ⟨careful, ends⟩ := (childSession_runs (.start has kept root fresh)).reaches run
  refine ⟨careful, fun a done still => ?_⟩
  obtain ⟨same, lore', keeps⟩ := ends a done still
  exact ⟨⟨same, lore', keeps⟩, keeps.tokens⟩

def emptyRegistry : ProcChildren := ⟨7, 0, [], []⟩

def quietFlags : ThreadFlags := ⟨false, false, false, false⟩

def startWithInput : ChildCommand := .start optsWithInput [[0x61]] (.ok none) quietFlags

theorem startKept : Kept ([] : List (Task Asset)) {.job 7} := fun _ none' => absurd none' List.not_mem_nil

set_option maxRecDepth 4000 in
theorem childSession_keeps_one : ∃ replies r y,
    launchLedger.Reaches (childSession emptyRegistry [startWithInput, .list]) launchStart (.done (replies, r)) y ∧
      r.children.length = 1 ∧ RegistryKept emptyRegistry {.job 7} [] startLore r y ∧
      (r.counter < 2 ^ 31 → (r.children.map ChildEntry.token).Nodup) := by
  have ends : (launchLedger.finish (childSession emptyRegistry [startWithInput, .list]) launchStart
    (grantedCalls 47)).any
      (fun a => decide (a.1.2.children.length = 1) && !a.2.1.lost) = true := by decide +kernel
  obtain ⟨⟨⟨replies, r⟩, y⟩, finished, good⟩ := (Option.any_eq_true _ _).mp ends
  obtain ⟨one, still⟩ := Bool.and_eq_true_iff.mp good
  have run := Host.finish_reaches finished
  have keeps := (childSession_keeps launchStart_has startKept (Multiset.mem_singleton_self _)
    ⟨rfl, rfl⟩ run).2 _ rfl
    (by simpa using still)
  exact ⟨replies, r, y, run, of_decide_eq_true one, keeps⟩

/-- A run of `child` commands and then the loop of `proc_cleanup`. -/
def childLife (flags : ThreadFlags) (r : ProcChildren) (commands : List ChildCommand) : LaunchM ProcChildren := do
  let a ← childSession r commands
  childrenFree flags a.2 a.2.children

/-- The threads of a child end. -/
def threadsEnd (threads : List Nat) : List (launchLedger.Move ⊕ launchLedger.Choice) :=
  threads.map fun t => .inl (.inl (.handle t))

end

end Machteld
