import Machteld.Launch.Kernel
import Machteld.Routine
import Mathlib.Tactic.Abel

namespace Machteld

/-- The launchers' programs, with what they hold and what they know. -/
abbrev LaunchWorld := Ledger Asset × Kernel

abbrev Has (M : Multiset Asset) (ts : List (Task Asset)) (lore : Lore) (x : LaunchWorld) : Prop :=
  Holds M ts (Kernel.Knows lore) x

abbrev Runs {α : Type} (p : LaunchM α) (post : α → LaunchWorld → Prop) (x : LaunchWorld) : Prop :=
  Safely launchHost launchDeal p post x

abbrev LaunchCall.ask (c : LaunchCall) : LaunchM c.Answer := Prog.ask c

abbrev LaunchRoutine (σ : Type) := Routine LaunchCall LaunchCall.Answer σ (Option String)

abbrev LaunchCall.step {σ : Type} (c : LaunchCall) : LaunchRoutine σ c.Answer := Routine.call c

/-- A call that changes neither the processes nor the jobs. -/
def LaunchCall.Quiet : LaunchCall → Prop
  | createProcess _ => False
  | resumeThread _ => False
  | terminateProcess _ => False
  | jobNew => False
  | jobTerminate _ => False
  | jobClose _ => False
  | jobFree _ => False
  | createThread _ => False
  | _ => True

/-- A call that is none of the kernel's leaves processes and jobs as they
are. It is the ledger alone that it changes. -/
theorem launchEffect_quiet {c : LaunchCall} (quiet : c.Quiet) {enclosed : Bool} {w v : Kernel} {a : c.Answer}
    (acts : launchEffect enclosed w c a = some v) : v = w := by
  cases c with
  | makeBatchCmdline script args =>
    cases a <;> cases made : wjMakeBatchCmdline script args <;> simp only [launchEffect, made] at acts <;>
      grind
  | toWide text => simp only [launchEffect] at acts; grind
  | isProcessInJob proc => cases a <;> simp only [launchEffect] at acts <;> grind
  | waitProcess proc =>
    simp only [launchEffect] at acts
    split_ifs at acts
    · obtain ⟨b, -, acts⟩ := Option.bind_eq_some_iff.mp acts
      exact (Option.some.inj (Option.ite_none_right_eq_some.mp acts).2).symm
    · exact (Option.some.inj acts).symm
  | jobHandle j =>
    obtain ⟨job, -, acts⟩ := Option.bind_eq_some_iff.mp acts
    exact (Option.some.inj (Option.ite_none_right_eq_some.mp acts).2).symm
  | _ => first | exact quiet.elim | exact (Option.some.inj acts).symm

theorem launchHost_act {c : LaunchCall} {choice : LaunchChoice} {w v : Kernel} {a : c.Answer}
    (acted : launchHost.act c choice w = some (a, v)) : launchEffect choice.enclosed w c a = some v := by
  obtain ⟨v', happened, same⟩ := Option.map_eq_some_iff.mp acted
  obtain ⟨rfl, rfl⟩ := Prod.mk.inj same
  exact happened

/-- What is known where a thread runs: the job of a monitor is no longer the
program's alone. -/
def ThreadBody.Shares (body : ThreadBody) (lore lore' : Lore) : Prop :=
  match body with
  | monitor _ job _ _ _ => ∃ o, jobAt lore.jobs job = some o ∧ lore' = lore.share o.number
  | _ => lore' = lore

section

variable {α : Type} {post : α → LaunchWorld → Prop} {x : LaunchWorld} {M F : Multiset Asset}
  {ts : List (Task Asset)}
  {lore : Lore}

theorem Has.swap (has : Has M ts lore x) {M' : Multiset Asset} (same : M = M') : Has M' ts lore x := same ▸ has

namespace Runs

/-- A call that gives one thing for another, with what is known behind it.
-/
theorem trade {c : LaunchCall} {N G : Multiset Asset} {f : c.Answer → LaunchM α} {T : c.Answer → Multiset Asset}
    {L : c.Answer → Lore → Prop} (has : Has (G + F) ts lore x) (kept : Kept ts F)
    (deals : ∀ a, (launchDeal c a).loses = false → launchDeal c a = { needs := N, gives := G, takes := T a })
    (needs : ∀ r ∈ N, r ∈ G + F)
    (effect : ∀ enclosed w a v, w.Knows lore → launchEffect enclosed w c a = some v →
      ∃ lore', L a lore' ∧ v.Knows lore')
    (next : ∀ a lore' y, (launchDeal c a).loses = false → L a lore' → Has (T a + F) ts lore' y →
      Runs (f a) post y) :
    Runs (Prog.ask c >>= f) post x := by
  refine Safely.exchange (L := fun a w => ∃ lore', L a lore' ∧ w.Knows lore') has
    (Kernel.Knows.stable lore) deals needs kept
    (fun choice a w v knows acted => ?_) fun a y stays later => ?_
  · exact effect _ _ _ _ knows (launchHost_act acted)
  · obtain ⟨lore', known, knows⟩ := later.knows
    exact next a lore' y stays known ⟨later.clean, later.mine, later.single, later.running, later.uses, knows⟩

/-- A call that changes no process and no job. -/
theorem quiet {c : LaunchCall} (quiet : c.Quiet) {N G : Multiset Asset} {f : c.Answer → LaunchM α}
    {T : c.Answer → Multiset Asset} {P : c.Answer → Prop} (has : Has (G + F) ts lore x) (kept : Kept ts F)
    (deals : ∀ a, (launchDeal c a).loses = false → launchDeal c a = { needs := N, gives := G, takes := T a })
    (needs : ∀ r ∈ N, r ∈ G + F)
    (learns : ∀ enclosed a w, w.Knows lore → launchEffect enclosed w c a = some w → P a)
    (next : ∀ a y, (launchDeal c a).loses = false → P a → Has (T a + F) ts lore y → Runs (f a) post y) :
    Runs (Prog.ask c >>= f) post x := by
  refine trade (L := fun a lore' => lore' = lore ∧ P a) has kept deals needs
    (fun enclosed w a v knows happened => ?_)
    fun a lore' y stays known later => next a y stays known.2 (known.1 ▸ later)
  obtain rfl := launchEffect_quiet quiet happened
  exact ⟨lore, ⟨rfl, learns _ _ _ knows happened⟩, knows⟩

theorem take {c : LaunchCall} (calm : c.Quiet) {f : c.Answer → LaunchM α} {T : c.Answer → Multiset Asset}
    (has : Has F ts lore x) (deals : ∀ a, launchDeal c a = { takes := T a })
    (next : ∀ a y, Has (T a + F) ts lore y → Runs (f a) post y) : Runs (Prog.ask c >>= f) post x :=
  quiet (N := 0) (G := 0) (P := fun _ => True) calm (has.swap (zero_add F).symm) has.uses (fun a _ => deals a)
    (fun _ none' => absurd none' (Multiset.notMem_zero _)) (fun _ _ _ _ _ => trivial) fun a y _ _ => next a y

theorem use {c : LaunchCall} (calm : c.Quiet) {f : c.Answer → LaunchM α} {N : Multiset Asset} {P : c.Answer → Prop}
    (has : Has F ts lore x) (deals : ∀ a, (launchDeal c a).loses = false → launchDeal c a = { needs := N })
    (needs : ∀ r ∈ N, r ∈ F) (learns : ∀ enclosed a w, w.Knows lore → launchEffect enclosed w c a = some w → P a)
    (next : ∀ a y, (launchDeal c a).loses = false → P a → Has F ts lore y → Runs (f a) post y) :
    Runs (Prog.ask c >>= f) post x :=
  quiet (G := 0) (T := fun _ => 0) calm (has.swap (zero_add F).symm) has.uses deals
    (fun r needed => by rw [zero_add]; exact needs r needed) learns fun a y stays learnt later =>
    next a y stays learnt (later.swap (zero_add F))

theorem give {c : LaunchCall} (calm : c.Quiet) {f : c.Answer → LaunchM α} {N G : Multiset Asset}
    (has : Has (G + F) ts lore x) (kept : Kept ts F) (deals : ∀ a, launchDeal c a = { needs := N, gives := G })
    (needs : ∀ r ∈ N, r ∈ G + F) (next : ∀ a y, Has F ts lore y → Runs (f a) post y) :
      Runs (Prog.ask c >>= f) post x :=
  quiet (T := fun _ => 0) (P := fun _ => True) calm has kept (fun a _ => deals a) needs (fun _ _ _ _ _ => trivial)
    fun a y _ _ later => next a y (later.swap (zero_add F))

theorem malloc {f : Option Nat → LaunchM α} (has : Has F ts lore x)
    (next : ∀ a : Option Nat, ∀ y, Has ((a.elim 0 fun b => {.block b}) + F) ts lore y → Runs (f a) post y) :
    Runs (Prog.ask .malloc >>= f) post x := take (c := .malloc) trivial has (fun _ => rfl) next

theorem free {b : Nat} {f : Unit → LaunchM α} (has : Has ({.block b} + F) ts lore x) (kept : Kept ts F)
    (next : ∀ y, Has F ts lore y → Runs (f ()) post y) : Runs (Prog.ask (.free b) >>= f) post x :=
  give (c := .free b) trivial has kept (fun _ => rfl)
    (fun _ none' => absurd none' (Multiset.notMem_zero _)) fun _ => next

theorem closeHandle {h : Nat} {f : Unit → LaunchM α} (has : Has ({.handle h} + F) ts lore x) (kept : Kept ts F)
    (next : ∀ y, Has F ts lore y → Runs (f ()) post y) : Runs (Prog.ask (.closeHandle h) >>= f) post x :=
  give (c := .closeHandle h) trivial has kept (fun _ => rfl)
    (fun _ none' => absurd none' (Multiset.notMem_zero _)) fun _ => next

/-- A process gets exactly the jobs that its attribute list names, and
nothing of it runs before `ResumeThread` where it was created suspended. -/
theorem createProcess {call : CreateCall} {f : Except Nat ProcessInfo → LaunchM α} (has : Has F ts lore x)
    (needs : ∀ r ∈ call.needs, r ∈ F) (failed : ∀ error y, Has F ts lore y → Runs (f (.error error)) post y)
    (created : ∀ info enclosed ns y, jobNumbers lore.jobs ((call.attributes.jobs.map Prod.snd).getD []) = some ns →
      Has ({.handle info.handle} + {.handle info.thread} + F) ts
        (lore.create (call.birth lore.births.length info ns enclosed) call.breakaway) y →
          Runs (f (.ok info)) post y) :
    Runs (Prog.ask (.createProcess call) >>= f) post x := by
  refine trade (c := .createProcess call) (N := call.needs) (G := 0)
    (T := fun a => a.toOption.elim 0 fun info => {.handle info.handle} + {.handle info.thread})
    (L := lore.AfterCreate call)
    (has.swap (zero_add F).symm) has.uses (fun _ _ => rfl) (fun r needed => by rw [zero_add]; exact needs r needed)
    (fun enclosed w a v knows happened => ?_) fun a lore' y _ known later => ?_
  · cases a with
    | error error =>
      obtain rfl := Option.some.inj happened
      exact ⟨lore, rfl, knows⟩
    | ok info =>
      obtain ⟨ns, found, after⟩ := knows.create happened
      exact ⟨_, ⟨enclosed, ns, found, rfl⟩, after⟩
  · cases a with
    | error error =>
      obtain rfl : lore' = lore := known
      exact failed error y (later.swap (zero_add F))
    | ok info =>
      obtain ⟨enclosed, ns, found, rfl⟩ := known
      exact created info enclosed ns y found later

/-- A call on a process or a job that may end some processes. -/
theorem change {c : LaunchCall} {N : Multiset Asset} {f : c.Answer → LaunchM α} {L : c.Answer → Lore → Prop}
    (has : Has F ts lore x) (deals : ∀ a, (launchDeal c a).loses = false → launchDeal c a = { needs := N })
    (needs : ∀ r ∈ N, r ∈ F)
    (effect : ∀ enclosed w a v, w.Knows lore → launchEffect enclosed w c a = some v →
      ∃ lore', L a lore' ∧ v.Knows lore')
    (next : ∀ a lore' y, (launchDeal c a).loses = false → L a lore' → Has F ts lore' y → Runs (f a) post y) :
    Runs (Prog.ask c >>= f) post x :=
  trade (G := 0) (T := fun _ => 0) (has.swap (zero_add F).symm) has.uses deals
    (fun r needed => by rw [zero_add]; exact needs r needed) effect fun a lore' y stays known later =>
    next a lore' y stays known (later.swap (zero_add F))

/-- What is resumed is the process whose first thread it is. -/
theorem resumeThread {thread : Nat} {f : Bool → LaunchM α} (has : Has F ts lore x) (needs : .handle thread ∈ F)
    (failed : ∀ y, Has F ts lore y → Runs (f false) post y)
    (resumed : ∀ b y, threadOf lore.births thread = some b → Has F ts (lore.resume b.number) y →
      Runs (f true) post y) :
    Runs (Prog.ask (.resumeThread thread) >>= f) post x := by
  refine change (c := .resumeThread thread) (N := {.handle thread})
    (L := fun a lore' => if a then ∃ b, threadOf lore.births thread = some b ∧
      lore' = lore.resume b.number else lore' = lore)
    has (fun _ _ => rfl) (fun r needed => Multiset.mem_singleton.mp needed ▸ needs)
      (fun enclosed w a v knows happened => ?_)
    fun a lore' y _ known later => ?_
  · cases a with
    | false =>
      obtain rfl := Option.some.inj happened
      exact ⟨lore, rfl, knows⟩
    | true =>
      obtain ⟨b, found, rfl⟩ := Option.map_eq_some_iff.mp happened
      exact ⟨_, ⟨b, knows.births ▸ found, rfl⟩, knows.resume b.number⟩
  · cases a with
    | false =>
      obtain rfl : lore' = lore := known
      exact failed y later
    | true =>
      obtain ⟨b, found, rfl⟩ := known
      exact resumed b y found later

/-- Whatever it answers, processes may have ended by it, and none has begun.
-/
theorem terminateProcess {proc : Nat} {f : Bool → LaunchM α} (has : Has F ts lore x) (needs : .handle proc ∈ F)
    (next : ∀ a numbers y, Has F ts (lore.end' numbers) y → Runs (f a) post y) :
    Runs (Prog.ask (.terminateProcess proc) >>= f) post x := by
  refine change (c := .terminateProcess proc) (N := {.handle proc})
    (L := fun _ lore' => ∃ numbers, lore' = lore.end' numbers)
    has (fun _ _ => rfl) (fun r needed => Multiset.mem_singleton.mp needed ▸ needs)
      (fun enclosed w a v knows happened => ?_)
    fun a lore' y _ known later => ?_
  · cases a with
    | false =>
      obtain rfl := Option.some.inj happened
      exact ⟨_, ⟨[], rfl⟩, knows⟩
    | true =>
      obtain ⟨b, -, rfl⟩ := Option.map_eq_some_iff.mp happened
      exact ⟨_, ⟨[b.number], rfl⟩, knows.end' [b.number]⟩
  · obtain ⟨numbers, rfl⟩ := known
    exact next a numbers y later

/-- A process that was waited for has ended. -/
theorem waitProcess {proc : Nat} {f : Bool → LaunchM α} (has : Has F ts lore x) (needs : .handle proc ∈ F)
    (ended : ∀ b y, processOf lore.births proc = some b → Has F ts (lore.end' [b.number]) y →
      Runs (f true) post y) :
    Runs (Prog.ask (.waitProcess proc) >>= f) post x := by
  refine change (c := .waitProcess proc) (N := {.handle proc})
    (L := fun a lore' => a = true → ∃ b, processOf lore.births proc = some b ∧ lore' = lore.end' [b.number]) has
    (fun a stays => by
      cases a with
      | false => cases stays
      | true => rfl)
    (fun r needed => Multiset.mem_singleton.mp needed ▸ needs) (fun enclosed w a v knows happened => ?_)
    fun a lore' y stays known later => ?_
  · cases a with
    | false =>
      obtain rfl := Option.some.inj happened
      exact ⟨lore, nofun, knows⟩
    | true =>
      obtain ⟨b, found, answered⟩ := Option.bind_eq_some_iff.mp happened
      obtain ⟨dead, same⟩ := Option.ite_none_right_eq_some.mp answered
      obtain rfl := Option.some.inj same
      refine ⟨_, fun _ => ⟨b, knows.births ▸ found, rfl⟩, knows.births, knows.ran, fun n known => ?_,
        knows.jobs, knows.held,
        knows.numbered, knows.older⟩
      rcases List.mem_cons.mp known with rfl | before
      · exact dead
      · exact knows.dead n before
  · cases a with
    | false => cases stays
    | true =>
      obtain ⟨b, found, rfl⟩ := known rfl
      exact ended b y found later

/-- The answer is about the process of the handle. -/
theorem isProcessInJob {proc : Nat} {f : Option Bool → LaunchM α} (has : Has F ts lore x) (needs : .handle proc ∈ F)
    (next : ∀ a y, (∀ inJob, a = some inJob → ∃ b, processOf lore.births proc = some b ∧ b.enclosed = inJob) →
      Has F ts lore y →
      Runs (f a) post y) : Runs (Prog.ask (.isProcessInJob proc) >>= f) post x := by
  refine use (c := .isProcessInJob proc) (N := {.handle proc}) trivial has (fun _ _ => rfl)
    (fun r needed => Multiset.mem_singleton.mp needed ▸ needs)
      (fun enclosed a w knows happened => ?_) fun a y _ => next a y
  rintro inJob rfl
  obtain ⟨found, -⟩ := Option.ite_none_right_eq_some.mp happened
  rw [knows.births, Option.any_eq_true] at found
  obtain ⟨b, known, same⟩ := found
  exact ⟨b, known, of_decide_eq_true same⟩

theorem toWide {text : Bytes} {f : Option Nat → LaunchM α} (has : Has F ts lore x)
    (next : ∀ a : Option Nat, ∀ y, (a.isSome = true → (mtUtf8ToWide true text).isSome = true) →
      Has ((a.elim 0 fun b => {.block b}) + F) ts lore y → Runs (f a) post y) :
      Runs (Prog.ask (.toWide text) >>= f) post x := by
  refine quiet (c := .toWide text) (N := 0) (G := 0) trivial (has.swap (zero_add F).symm) has.uses (fun _ _ => rfl)
    (fun _ none' => absurd none' (Multiset.notMem_zero _)) (fun enclosed a w _ happened => ?_) fun a y _ => next a y
  obtain ⟨possible, -⟩ := Option.ite_none_left_eq_some.mp happened
  intro made
  simpa only [made, Bool.true_and, Option.isNone_iff_eq_none, ← Option.isSome_iff_ne_none, ← ne_eq] using possible

theorem makeBatchCmdline {script : Bytes} {args : List Bytes} {f : Except String (Nat × Bytes) → LaunchM α}
    (has : Has F ts lore x) (failed : ∀ err y, Has F ts lore y → Runs (f (.error err)) post y)
    (made : ∀ b line y, wjMakeBatchCmdline script args = .ok line → Has ({.block b} + F) ts lore y →
      Runs (f (.ok (b, line))) post y) : Runs (Prog.ask (.makeBatchCmdline script args) >>= f) post x := by
  refine quiet (c := .makeBatchCmdline script args) (N := 0) (G := 0)
    (T := fun a => a.toOption.elim 0 fun made => {.block made.1})
    (P := fun a => ∀ b line, a = .ok (b, line) → wjMakeBatchCmdline script args = .ok line) trivial
    (has.swap (zero_add F).symm) has.uses (fun _ _ => rfl) (fun _ none' => absurd none' (Multiset.notMem_zero _))
    (fun enclosed a w _ happened => ?_) fun a y _ learnt later => ?_
  · rintro b line rfl
    cases pure : wjMakeBatchCmdline script args with
    | error err => simp only [launchEffect, pure] at happened; cases happened
    | ok line' =>
      simp only [launchEffect, pure] at happened
      rw [(Option.ite_none_right_eq_some.mp happened).1]
  · cases a with
    | error err => exact failed err y (later.swap (zero_add F))
    | ok answer => exact made answer.1 answer.2 y (learnt answer.1 answer.2 rfl) later

theorem jobNew {f : Except String Nat → LaunchM α} (has : Has F ts lore x)
    (failed : ∀ err y, Has F ts lore y → Runs (f (.error err)) post y)
    (made : ∀ j y, Has ({.job j} + F) ts (lore.jobNew j) y → Runs (f (.ok j)) post y) :
    Runs (Prog.ask .jobNew >>= f) post x := by
  refine trade (c := .jobNew) (N := 0) (G := 0) (T := fun a => a.toOption.elim 0 fun j => {.job j})
    (L := lore.AfterJobNew) (has.swap (zero_add F).symm) has.uses (fun _ _ => rfl)
    (fun _ none' => absurd none' (Multiset.notMem_zero _)) (fun enclosed w a v knows happened => ?_)
    fun a lore' y _ known later => ?_
  · cases a with
    | error err =>
      obtain rfl := Option.some.inj happened
      exact ⟨lore, rfl, knows⟩
    | ok j =>
      obtain rfl := Option.some.inj happened
      exact ⟨_, rfl, knows.jobNew j⟩
  · cases a with
    | error err =>
      obtain rfl : lore' = lore := known
      exact failed err y (later.swap (zero_add F))
    | ok j =>
      obtain rfl : lore' = lore.jobNew j := known
      exact made j y later

/-- Where it succeeds, what has ended is what was in the job. -/
theorem jobTerminate {j : Nat} {f : Bool → LaunchM α} (has : Has F ts lore x) (needs : .job j ∈ F)
    (next : ∀ a numbers y, (a = true → ∃ job, jobAt lore.jobs j = some job ∧
      numbers = membersOf lore.births job.number) →
      Has F ts (lore.end' numbers) y → Runs (f a) post y) : Runs (Prog.ask (.jobTerminate j) >>= f) post x := by
  refine change (c := .jobTerminate j) (N := {.job j}) (L := fun a lore' => ∃ numbers, lore' = lore.end' numbers ∧
    (a = true → ∃ job, jobAt lore.jobs j = some job ∧ numbers = membersOf lore.births job.number)) has
      (fun _ _ => rfl)
    (fun r needed => Multiset.mem_singleton.mp needed ▸ needs) (fun enclosed w a v knows happened => ?_)
    fun a lore' y _ known later => ?_
  · cases a with
    | false =>
      obtain rfl := Option.some.inj happened
      exact ⟨lore, ⟨[], rfl, nofun⟩, knows⟩
    | true =>
      obtain ⟨job, found, answered⟩ := Option.bind_eq_some_iff.mp happened
      obtain ⟨-, same⟩ := Option.ite_none_left_eq_some.mp answered
      obtain rfl := Option.some.inj same
      exact ⟨_, ⟨_, rfl, fun _ => ⟨job, (knows.jobAt found).1, by rw [knows.births]⟩⟩,
        knows.end' (membersOf w.births job.number)⟩
  · obtain ⟨numbers, rfl, members⟩ := known
    exact next a numbers y members later

/-- A job that is closed kills its processes. -/
theorem jobClose {j : Nat} {f : Unit → LaunchM α} (has : Has F ts lore x) (needs : .job j ∈ F)
    (next : ∀ job y, jobAt lore.jobs j = some job →
      Has F ts ((lore.end' (membersOf lore.births job.number)).share job.number) y → Runs (f ()) post y) :
    Runs (Prog.ask (.jobClose j) >>= f) post x := by
  refine change (c := .jobClose j) (N := {.job j})
    (L := fun _ lore' => ∃ job, jobAt lore.jobs j = some job ∧
      lore' = (lore.end' (membersOf lore.births job.number)).share job.number) has (fun _ _ => rfl)
    (fun r needed => Multiset.mem_singleton.mp needed ▸ needs) (fun enclosed w a v knows happened => ?_)
    fun a lore' y _ known later => ?_
  · obtain ⟨job, found, rfl⟩ := Option.map_eq_some_iff.mp happened
    have known := knows.jobAt found
    exact ⟨_, ⟨job, known.1, rfl⟩, knows.close known.2⟩
  · obtain ⟨job, found, rfl⟩ := known
    exact next job y found later

/-- The object goes once its handle is closed, and with it the processes
that only this job holds. -/
theorem jobFree {j : Nat} {f : Unit → LaunchM α} (has : Has ({.job j} + F) ts lore x) (kept : Kept ts F)
    (next : ∀ job y, jobAt lore.jobs j = some job →
      Has F ts ((lore.end' (membersOf lore.births job.number)).share job.number) y → Runs (f ()) post y) :
    Runs (Prog.ask (.jobFree j) >>= f) post x := by
  refine trade (c := .jobFree j) (N := 0) (G := {.job j}) (T := fun _ => 0)
    (L := fun _ lore' => ∃ job, jobAt lore.jobs j = some job ∧
      lore' = (lore.end' (membersOf lore.births job.number)).share job.number) has kept (fun _ _ => rfl)
    (fun _ none' => absurd none' (Multiset.notMem_zero _)) (fun enclosed w a v knows happened => ?_)
    fun a lore' y _ known later => ?_
  · obtain ⟨job, found, rfl⟩ := Option.map_eq_some_iff.mp happened
    have known := knows.jobAt found
    exact ⟨_, ⟨job, known.1, rfl⟩, knows.close known.2⟩
  · obtain ⟨job, found, rfl⟩ := known
    exact next job y found (later.swap (zero_add F))

theorem jobHandle {j : Nat} {f : Option Nat → LaunchM α} (has : Has F ts lore x) (needs : .job j ∈ F)
    (next : ∀ a y, (∀ h, a = some h → h = j) → Has F ts lore y → Runs (f a) post y) :
    Runs (Prog.ask (.jobHandle j) >>= f) post x := by
  refine use (c := .jobHandle j) (N := {.job j}) trivial has (fun _ _ => rfl)
    (fun r needed => Multiset.mem_singleton.mp needed ▸ needs)
      (fun enclosed a w knows happened => ?_) fun a y _ => next a y
  obtain ⟨job, -, answered⟩ := Option.bind_eq_some_iff.mp happened
  obtain ⟨same, -⟩ := Option.ite_none_right_eq_some.mp answered
  intro h some'
  rw [some'] at same
  split at same
  · cases same
  · exact Option.some.inj same

/-- A thread that is started takes what is its own. -/
theorem createThread {b : ThreadBody} {f : Option Nat → LaunchM α} (has : Has (b.own + F) ts lore x)
    (kept : Kept ts F)
    (used : ∀ r ∈ b.uses, r ∈ F) (failed : ∀ y, Has (b.own + F) ts lore y → Runs (f none) post y)
    (started : ∀ t lore' y, b.Shares lore lore' → Has ({.handle t} + F) (b.task t :: ts) lore' y →
      Runs (f (some t)) post y) :
    Runs (Prog.ask (.createThread b) >>= f) post x := by
  refine Safely.start (c := .createThread b) (O := b.own) (U := b.uses)
    (n := fun a => a.map Asset.handle)
    (L := fun a (w : Kernel) => ∃ lore', w.Knows lore' ∧ a.elim (lore' = lore) fun _ => b.Shares lore lore') has
    (Kernel.Knows.stable lore) (fun a => ?_) kept used
    (fun choice a w v knows acted => ?_) (fun a y none' later => ?_) fun a t y some' later => ?_
  · cases a <;> rfl
  · have happened := launchHost_act acted
    cases a with
    | none =>
      cases b <;> obtain rfl := Option.some.inj happened <;> exact ⟨lore, knows, rfl⟩
    | some t =>
      cases b with
      | monitor address j proc ev threads =>
        obtain ⟨job, found, rfl⟩ := Option.map_eq_some_iff.mp happened
        have at' := knows.jobAt found
        exact ⟨_, knows.share at'.2, job, at'.1, rfl⟩
      | _ =>
        obtain rfl := Option.some.inj happened
        exact ⟨lore, knows, rfl⟩
  · cases a with
    | none =>
      obtain ⟨lore', knows, rfl⟩ := later.knows
      exact failed y ⟨later.clean, later.mine, later.single, later.running, later.uses, knows⟩
    | some t => cases none'
  · cases a with
    | none => cases some'
    | some t' =>
      obtain rfl := Option.some.inj some'
      obtain ⟨lore', knows, known⟩ := later.knows
      exact started t' lore' y known ⟨later.clean, later.mine, later.single, later.running, later.uses, knows⟩

/-- A thread that has been joined works with nothing any more, so what it
used may be freed from then on. -/
theorem join {t : Nat} {u : List (Task Asset)} {f : Bool → LaunchM α} (has : Has F ts lore x)
    (needs : .handle t ∈ F)
    (left : ∀ task ∈ ts, task.name ≠ .handle t → task ∈ u) (fewer : ∀ task ∈ u, task ∈ ts)
    (next : ∀ y, Has F u lore y → Runs (f true) post y) : Runs (Prog.ask (.join t) >>= f) post x := by
  refine Safely.join (c := .join t) (N := {.handle t})
    (L := fun _ (w : Kernel) => w.Knows lore) has (Kernel.Knows.stable lore)
    (fun a stays => ?_) (fun r needed => Multiset.mem_singleton.mp needed ▸ needs)
      (fun choice a w v knows acted => ?_) left fewer
    fun a y stays later => ?_
  · cases a with
    | false => cases stays
    | true => rfl
  · obtain rfl := Option.some.inj (launchHost_act acted)
    exact knows
  · cases a with
    | false => cases stays
    | true => exact next y later

end Runs

end

end Machteld
