import Machteld.Cmdline.Batch
import Machteld.Cmdline.EscapeArg

namespace Machteld

/-- `ci_eq` -/
def ciEq : Bytes → Bytes → Bool
  | [], [] => true
  | a :: as, b :: bs => asciiLower a == asciiLower b && ciEq as bs
  | _, _ => false

def isSeparator (c : UInt8) : Bool := c == 0x2F || c == backslash

/-- The loop of `wj_is_batch_target`: what is read from the last dot on,
unless a separator follows it. -/
def lastDot : Option Bytes → Bytes → Option Bytes
  | dot, [] => dot
  | dot, c :: cs =>
    if isSeparator c then lastDot none cs
    else if c = 0x2E then lastDot (some (c :: cs)) cs
    else lastDot dot cs

def wjIsBatchTarget (exe : Bytes) : Bool :=
  match lastDot none exe with
  | none => false
  | some dot => ciEq dot (ascii ".bat") || ciEq dot (ascii ".cmd")

def isAsciiLetter (c : UInt8) : Bool := (0x41 ≤ c && c ≤ 0x5A) || (0x61 ≤ c && c ≤ 0x7A)

def pathIsAbsolute : Bytes → Bool
  | a :: b :: rest =>
    (isSeparator a && isSeparator b) || (isAsciiLetter a && b == 0x3A && rest.head?.any isSeparator)
  | _ => false

/-- The parameters of a launch; a handle that is NULL is `none`. -/
structure WjLaunch where
  exe : Bytes
  argv : List Bytes
  dir : Option Bytes
  jobHandles : Option (List (Option Nat))
  njobs : Int

/-- What the launch meets on the way to `CreateProcessW`: what
`comspec_path` finds, which texts have a wide form, and how the remaining
steps fail. -/
structure LaunchHost where
  comspec : Except String Bytes
  wide : Bytes → Bool
  handles : Option String

structure CreateProcess where
  application : Bytes
  commandLine : Bytes
  dir : Option Bytes

def WjLaunch.jobMissing (call : WjLaunch) : Bool :=
  ((call.jobHandles.getD []).take call.njobs.toNat).any Option.isNone

/-- `dir != NULL && dir[0] != '\0'` -/
def WjLaunch.changesDir (call : WjLaunch) : Bool := call.dir.any fun dir => !dir.isEmpty

/-- The part the two launchers share, from the batch test on. -/
def wjCreate (host : LaunchHost) (call : WjLaunch) : Except String CreateProcess := do
  let (application, commandLine) ←
    if wjIsBatchTarget call.exe then do
      let comspec ← host.comspec
      let commandLine ← wjMakeBatchCmdline call.exe call.argv.tail
      pure (comspec, commandLine)
    else pure (call.exe, wjMakeCmdline call.argv)
  if host.wide application = false ∨ host.wide commandLine = false then
    throw "bad executable path or command line"
  if call.changesDir ∧ ¬ call.dir.any host.wide then throw "bad working directory"
  match host.handles with
  | some err => throw err
  | none => pure ⟨application, commandLine, if call.changesDir then call.dir else none⟩

/-- The three standard handles of `wj_stdio`. -/
structure WjStdio where
  stdin : Option Nat
  stdout : Option Nat
  stderr : Option Nat

def wjLaunch (host : LaunchHost) (call : WjLaunch) (io : Option WjStdio) (wantBreakaway : Bool) :
    Except String CreateProcess :=
  if call.exe = [] then .error "empty exe"
  else if call.argv = [] then .error "empty argv"
  else if (io.all fun io => io.stdin.isNone || io.stdout.isNone || io.stderr.isNone) = true then
    .error "all three stdio handles must be non-NULL"
  else if call.njobs < 0 ∨ (0 < call.njobs ∧ call.jobHandles = none) ∨ (call.njobs = 0 ∧ wantBreakaway = false) ∨
      (wantBreakaway = true ∧ call.njobs ≠ 0) then .error "a supervised launch requires at least one job"
  else if call.jobMissing then .error "job handle is NULL"
  else if call.changesDir ∧ pathIsAbsolute call.exe =
    false then .error "exe must be an absolute path when dir is set"
  else wjCreate host call

def wjLaunchPty (host : LaunchHost) (call : WjLaunch) (pseudoconsole : Option Nat) : Except String CreateProcess :=
  if call.exe = [] then .error "empty exe"
  else if call.argv = [] then .error "empty argv"
  else if call.njobs ≤ 0 ∨ call.jobHandles = none then .error "at least one job is required"
  else if call.jobMissing then .error "job handle is NULL"
  else if pseudoconsole = none then .error "pseudoconsole is required"
  else if call.changesDir ∧ pathIsAbsolute call.exe =
    false then .error "exe must be an absolute path when dir is set"
  else wjCreate host call

/-- What stands behind the last separator. -/
def finalComponent (path : Bytes) : Bytes := (path.reverse.takeWhile (! isSeparator ·)).reverse

/-- The characters Win32 drops from the end of a name. -/
def isTrailer (c : UInt8) : Bool := c == 0x2E || c == space

/-- The name Win32 looks for. -/
def win32Name (path : Bytes) : Bytes := ((finalComponent path).reverse.dropWhile isTrailer).reverse

def BatchName (name : Bytes) : Prop :=
  ∃ stem ext, name = stem ++ ext ∧ (ext.map asciiLower = ascii ".bat" ∨ ext.map asciiLower = ascii ".cmd")

/-- What the application and the command line of a batch file have to be. -/
def LaunchedAsBatch (host : LaunchHost) (call : WjLaunch) (launched : Except String CreateProcess) : Prop :=
  ∀ process, launched = .ok process → host.comspec = .ok process.application ∧
    wjMakeBatchCmdline call.exe call.argv.tail = .ok process.commandLine

/-- Windows drops something from the end of the name, and the rest is a
batch file. -/
def HiddenBatch (exe : Bytes) : Prop :=
  BatchName (win32Name exe) ∧ ∃ c, (finalComponent exe).getLast? = some c ∧ isTrailer c = true

theorem byteCases {p : UInt8 → Bool} (all : ∀ n < 256, p (UInt8.ofNat n) = true) (c : UInt8) : p c = true := by
  have here := all c.toNat c.toNat_lt
  rwa [UInt8.ofNat_toNat] at here

theorem asciiLower_dot (c : UInt8) : asciiLower c = 0x2E ↔ c = 0x2E :=
  of_decide_eq_true (byteCases (p := fun c => decide (asciiLower c = 0x2E ↔ c = 0x2E)) (by decide +kernel) c)

theorem asciiLower_trailer (c : UInt8) : isTrailer (asciiLower c) = isTrailer c :=
  of_decide_eq_true (byteCases (p := fun c => decide (isTrailer (asciiLower c) = isTrailer c))
    (by decide +kernel) c)

theorem ciEq_iff {a b : Bytes} : ciEq a b = true ↔ a.map asciiLower = b.map asciiLower := by
  induction a generalizing b with
  | nil => cases b <;> simp [ciEq]
  | cons c cs ih => cases b <;> simp [ciEq, ih]

/-- What has no separator belongs to the last component. -/
theorem finalComponent_append {a b : Bytes} (solid : ∀ c ∈ b, isSeparator c = false) :
    finalComponent (a ++ b) = finalComponent a ++ b := by
  have all : ∀ c ∈ b.reverse, (! isSeparator c) = true := fun c member => by
    rw [solid c (List.mem_reverse.mp member)]
    rfl
  rw [finalComponent, List.reverse_append, List.takeWhile_append_of_pos all, List.reverse_append,
    List.reverse_reverse,
    finalComponent]

theorem finalComponent_separator {a b : Bytes} {c : UInt8} (separator : isSeparator c = true) :
    finalComponent (a ++ c :: b) = finalComponent b := by
  have split : (a ++ c :: b).reverse = b.reverse ++ c :: a.reverse := by simp
  have stops : (c :: a.reverse).takeWhile (! isSeparator ·) = [] := List.takeWhile_cons_of_neg (by simp [separator])
  rw [finalComponent, split, finalComponent]
  congr 1
  induction b.reverse with
  | nil => exact stops
  | cons d ds ih =>
    rw [List.cons_append, List.takeWhile_cons, List.takeWhile_cons, ih]

/-- The text from the last dot of the final component on. -/
structure DotSplit (path : Bytes) (dot : Option Bytes) : Prop where
  found : ∀ d, dot = some d → ∃ stem tail, finalComponent path = stem ++ d ∧ d = 0x2E :: tail ∧ 0x2E ∉ tail
  missing : dot = none → 0x2E ∉ finalComponent path

/-- The loop finds the last dot of the last component. The invariant is the
last one so far, which a separator takes away again. -/
theorem lastDot_split {dot : Option Bytes} {done rest : Bytes}
    (before : ∀ d, dot = some d → ∃ stem tail, finalComponent done = stem ++ 0x2E :: tail ∧ 0x2E ∉ tail ∧
      d = 0x2E :: tail ++ rest)
    (fresh : dot = none → 0x2E ∉ finalComponent done) : DotSplit (done ++ rest) (lastDot dot rest) := by
  induction rest generalizing dot done with
  | nil =>
    rw [lastDot, List.append_nil]
    refine ⟨fun d here => ?_, fresh⟩
    obtain ⟨stem, tail, split, last, same⟩ := before d here
    exact ⟨stem, tail, by rw [split, same, List.append_nil], by rw [same, List.append_nil], last⟩
  | cons c cs ih =>
    have shift : done ++ c :: cs = (done ++ [c]) ++ cs := by simp
    rw [lastDot, shift]
    by_cases separator : isSeparator c = true
    · rw [if_pos separator]
      refine ih nofun fun _ => ?_
      rw [finalComponent_separator separator]
      exact List.not_mem_nil
    · have solid : ∀ d ∈ [c], isSeparator d = false := fun d member => by
        rw [List.mem_singleton.mp member]
        simpa using separator
      have component : finalComponent (done ++ [c]) = finalComponent done ++ [c] := finalComponent_append solid
      rw [if_neg separator]
      by_cases isDot : c = 0x2E
      · rw [if_pos isDot]
        refine ih (fun d same => ?_) nofun
        obtain rfl := Option.some.inj same
        exact ⟨finalComponent done, [], by rw [component, isDot], List.not_mem_nil, by rw [isDot]; rfl⟩
      · rw [if_neg isDot]
        refine ih (fun d same => ?_) fun same => ?_
        · obtain ⟨stem, tail, split, last, spelled⟩ := before d same
          refine ⟨stem, tail ++ [c], by rw [component, split]; simp, fun member => ?_, by rw [spelled]; simp⟩
          rcases List.mem_append.mp member with inTail | here
          · exact last inTail
          · exact isDot (List.mem_singleton.mp here).symm
        · rw [component]
          intro member
          rcases List.mem_append.mp member with inDone | here
          · exact fresh same inDone
          · exact isDot (List.mem_singleton.mp here).symm

/-- An extension is a dot and letters, so its dot is the last one. -/
theorem batch_ext {ext : Bytes} (known : ext.map asciiLower = ascii ".bat" ∨ ext.map asciiLower = ascii ".cmd") :
    ∃ tail, ext = 0x2E :: tail ∧ 0x2E ∉ tail ∧ ∃ c, ext.getLast? = some c ∧ isTrailer c = false := by
  have parts : ∃ a b c d, ext = [a, b, c, d] ∧ asciiLower a = 0x2E ∧ asciiLower b ≠ 0x2E ∧ asciiLower c ≠ 0x2E ∧
      asciiLower d ≠ 0x2E ∧ isTrailer (asciiLower d) = false := by
    match ext, known with
    | [a, b, c, d], known =>
      refine ⟨a, b, c, d, rfl, ?_⟩
      have known : [asciiLower a, asciiLower b, asciiLower c, asciiLower d] = [0x2E, 0x62, 0x61, 0x74] ∨
          [asciiLower a, asciiLower b, asciiLower c, asciiLower d] = [0x2E, 0x63, 0x6D, 0x64] := known
      simp only [List.cons.injEq, and_true] at known
      rcases known with ⟨dot, first, second, third⟩ | ⟨dot, first, second, third⟩ <;>
        rw [dot, first, second, third] <;> decide
    | [], known => exact absurd known (by decide)
    | [a], known => exact absurd (known.imp (congrArg List.length) (congrArg List.length)) (by simp [ascii])
    | [a, b], known => exact absurd (known.imp (congrArg List.length) (congrArg List.length)) (by simp [ascii])
    | [a, b, c], known => exact absurd (known.imp (congrArg List.length) (congrArg List.length)) (by simp [ascii])
    | a :: b :: c :: d :: e :: rest, known =>
      exact absurd (known.imp (congrArg List.length) (congrArg List.length)) (by simp [ascii])
  obtain ⟨a, b, c, d, rfl, dot, first, second, third, last⟩ := parts
  rw [asciiLower_dot] at dot
  rw [ne_eq, asciiLower_dot] at first second third
  rw [asciiLower_trailer] at last
  refine ⟨[b, c, d], by rw [dot], ?_, d, rfl, last⟩
  simp only [List.mem_cons, List.not_mem_nil, or_false, not_or]
  exact ⟨Ne.symm first, Ne.symm second, Ne.symm third⟩

/-- An extension is what follows the last dot. -/
theorem append_last_dot {stem stem' tail tail' : Bytes} (noDot : 0x2E ∉ tail) (noDot' : 0x2E ∉ tail')
    (same : stem ++ (0x2E : UInt8) :: tail = stem' ++ 0x2E :: tail') : tail = tail' := by
  have flipped : tail.reverse ++ (0x2E : UInt8) :: stem.reverse = tail'.reverse ++ 0x2E :: stem'.reverse := by
    have turned := congrArg List.reverse same
    simpa using turned
  have taken : ∀ {t s : Bytes}, 0x2E ∉ t → (t.reverse ++ (0x2E : UInt8) :: s).takeWhile
    (· != 0x2E) = t.reverse := by
    intro t s absent
    rw [List.takeWhile_append_of_pos fun c member => by
      have inside := List.mem_reverse.mp member
      simpa using fun here : c = 0x2E => absent (here ▸ inside)]
    simp
  have both := taken (s := stem.reverse) noDot
  rw [flipped, taken noDot'] at both
  exact (List.reverse_injective both).symm

/-- `wj_is_batch_target` looks at the extension as it is written. -/
theorem wjIsBatchTarget_iff (exe : Bytes) : wjIsBatchTarget exe = true ↔ BatchName (finalComponent exe) := by
  have split := @lastDot_split none [] exe nofun fun _ => List.not_mem_nil
  rw [List.nil_append] at split
  unfold wjIsBatchTarget
  cases found : lastDot none exe with
  | none =>
    simp only [Bool.false_eq_true, false_iff]
    rintro ⟨stem, ext, spelled, known⟩
    obtain ⟨tail, dot, -⟩ := batch_ext known
    exact split.missing found (by rw [spelled, dot]; simp)
  | some d =>
    obtain ⟨stem, tail, spelled, dotted, noDot⟩ := split.found d found
    simp only [Bool.or_eq_true, ciEq_iff]
    have lower : (ascii ".bat").map asciiLower = ascii ".bat" ∧ (ascii ".cmd").map asciiLower = ascii ".cmd" := by
      decide
    rw [lower.1, lower.2]
    refine ⟨fun known => ⟨stem, d, spelled, known⟩, ?_⟩
    rintro ⟨stem', ext, spelled', known⟩
    obtain ⟨tail', dotted', noDot', -⟩ := batch_ext known
    have tails := append_last_dot noDot noDot' (by rw [← dotted, ← dotted', ← spelled, spelled'])
    rw [dotted, tails, ← dotted']
    exact known

/-- A batch file by Win32's name is one by its written name, unless
something was dropped. -/
theorem wjIsBatchTarget_of_win32 {exe : Bytes} (batch : BatchName (win32Name exe)) :
    wjIsBatchTarget exe = true ↔ ¬ ∃ c, (finalComponent exe).getLast? = some c ∧ isTrailer c = true := by
  rw [wjIsBatchTarget_iff]
  constructor
  · rintro ⟨stem, ext, spelled, known⟩ ⟨c, last, trailer⟩
    obtain ⟨tail, dotted, -, d, final, solid⟩ := batch_ext known
    rw [spelled, List.getLast?_append_of_ne_nil _ (by rw [dotted]; simp), final] at last
    rw [Option.some.inj last, trailer] at solid
    cases solid
  · intro untouched
    have same : win32Name exe = finalComponent exe := by
      rw [win32Name]
      cases turned : (finalComponent exe).reverse with
      | nil => simpa using turned.symm
      | cons c cs =>
        have last : (finalComponent exe).getLast? = some c := by
          rw [List.getLast?_eq_head?_reverse, turned]
          rfl
        have solid : ¬ isTrailer c = true := fun trailer => untouched ⟨c, last, trailer⟩
        rw [List.dropWhile_cons_of_neg solid, ← turned, List.reverse_reverse]
    rwa [same] at batch

/-- A batch target is run by the command processor. -/
theorem wjCreate_batch {host : LaunchHost} {call : WjLaunch} (batch : wjIsBatchTarget call.exe = true) :
    LaunchedAsBatch host call (wjCreate host call) := by
  intro process launched
  unfold wjCreate at launched
  rw [if_pos batch] at launched
  cases found : host.comspec with
  | error err => rw [found] at launched; cases launched
  | ok comspec =>
    cases built : wjMakeBatchCmdline call.exe call.argv.tail with
    | error err => rw [found, built] at launched; cases launched
    | ok line =>
      rw [found, built] at launched
      simp only [bind, Except.bind, pure, Except.pure, throw, throwThe, MonadExceptOf.throw] at launched
      split_ifs at launched <;> cases later : host.handles <;> rw [later] at launched <;> cases launched <;>
        exact ⟨rfl, rfl⟩

theorem wjLaunch_create {host : LaunchHost} {call : WjLaunch} {io : Option WjStdio} {wantBreakaway : Bool}
    {process : CreateProcess} (launched : wjLaunch host call io wantBreakaway = .ok process) :
    wjCreate host call = .ok process := by
  unfold wjLaunch at launched
  split_ifs at launched
  exact launched

theorem wjLaunchPty_create {host : LaunchHost} {call : WjLaunch} {pseudoconsole : Option Nat}
    {process : CreateProcess}
    (launched : wjLaunchPty host call pseudoconsole = .ok process) : wjCreate host call = .ok process := by
  unfold wjLaunchPty at launched
  split_ifs at launched
  exact launched

/-- Every launch of a program that Windows takes for a batch file goes
through `cmd.exe` and the batch quoting, exactly where the name does not
hide it. -/
theorem wjLaunch_batch_iff {exe : Bytes} (nonempty : exe ≠ []) :
    (BatchName (win32Name exe) → ∀ host call, call.exe = exe →
      (∀ io wantBreakaway, LaunchedAsBatch host call (wjLaunch host call io wantBreakaway)) ∧
        ∀ pseudoconsole, LaunchedAsBatch host call (wjLaunchPty host call pseudoconsole)) ↔ ¬ HiddenBatch exe := by
  constructor
  · rintro safe ⟨batch, hidden⟩
    have missed : wjIsBatchTarget exe = false := by
      by_contra hit
      exact (wjIsBatchTarget_of_win32 batch).mp (by simpa using hit) hidden
    have routed := (safe batch ⟨.error "cannot locate cmd.exe to run a batch file", fun _ => true, none⟩
      ⟨exe, [exe], none, none, 0⟩ rfl).1 (some ⟨some 0, some 1, some 2⟩) true
    have launched : wjLaunch ⟨.error "cannot locate cmd.exe to run a batch file", fun _ => true, none⟩
        ⟨exe, [exe], none, none, 0⟩ (some ⟨some 0, some 1, some 2⟩) true =
          .ok ⟨exe, wjMakeCmdline [exe], none⟩ := by
      simp [wjLaunch, nonempty, WjLaunch.jobMissing, WjLaunch.changesDir, wjCreate, missed]
      rfl
    cases (routed _ launched).1
  · intro visible batch host call same
    have batchTarget : wjIsBatchTarget call.exe = true := by
      rw [same]
      exact (wjIsBatchTarget_of_win32 batch).mpr fun hidden => visible ⟨batch, hidden⟩
    constructor
    · exact fun io wantBreakaway process launched => wjCreate_batch batchTarget process (wjLaunch_create launched)
    · exact fun pseudoconsole process launched => wjCreate_batch batchTarget process (wjLaunchPty_create launched)

/-- `x.bat.` is the file `x.bat` to Windows. -/
theorem wjLaunch_batch_iff_dot :
    (BatchName (win32Name (ascii "C:\\t\\x.bat.")) → ∀ host call, call.exe = ascii "C:\\t\\x.bat." →
      (∀ io wantBreakaway, LaunchedAsBatch host call (wjLaunch host call io wantBreakaway)) ∧
        ∀ pseudoconsole, LaunchedAsBatch host call (wjLaunchPty host call pseudoconsole)) ↔
      ¬ HiddenBatch (ascii "C:\\t\\x.bat.") :=
  wjLaunch_batch_iff (by decide)

/-- A supervised launch of it, with an argument that `cmd.exe` would run. -/
def dotLaunch : WjLaunch :=
  ⟨ascii "C:\\t\\x.bat.", [ascii "x", ascii "\"&calc"], none, some [some 7], 1⟩

def dotHost : LaunchHost := ⟨.ok (ascii "C:\\Windows\\System32\\cmd.exe"), fun _ => true, none⟩

theorem wjLaunch_batch_missed :
    BatchName (win32Name dotLaunch.exe) ∧
      wjLaunch dotHost dotLaunch (some ⟨some 1, some 2, some 3⟩) false =
        .ok ⟨dotLaunch.exe, wjMakeCmdline dotLaunch.argv, none⟩ ∧
      ¬ LaunchedAsBatch dotHost dotLaunch (wjLaunch dotHost dotLaunch (some ⟨some 1, some 2, some 3⟩) false) := by
  have spelled : win32Name dotLaunch.exe = ascii "x" ++ ascii ".bat" := by decide
  have launched : wjLaunch dotHost dotLaunch (some ⟨some 1, some 2, some 3⟩) false =
      .ok ⟨dotLaunch.exe, wjMakeCmdline dotLaunch.argv, none⟩ := rfl
  refine ⟨⟨_, _, spelled, Or.inl rfl⟩, launched, fun batch => ?_⟩
  have application := Except.ok.inj (batch _ launched).1
  exact absurd application (by decide)

end Machteld
