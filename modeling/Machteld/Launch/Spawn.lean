import Machteld.Launch.Child

namespace Machteld

/-- What has been born lives in a job that is closed with the child, if it
lives at all. -/
structure Lore.Under (lore : Lore) (F : Multiset Asset) (j : Option Nat) (lore' : Lore) : Prop where
  births : ∃ new, lore'.births = new ++ lore.births ∧ ∀ b ∈ new, b.number ∈ lore'.dead ∨
    ∃ a job, j = some a ∧ jobAt lore'.jobs a = some job ∧ job.number ∈ b.jobs
  dead : ∀ n ∈ lore.dead, n ∈ lore'.dead
  jobs : ∃ made, lore'.jobs = made ++ lore.jobs
  held : ∀ n ∈ lore.held, n ∈ lore'.held
  own : ∀ a job, j = some a → jobAt lore'.jobs a = some job → lore.jobs.length ≤ job.number
  others : ∀ a, .job a ∈ F → jobAt lore'.jobs a = jobAt lore.jobs a

/-- Nothing that has been born is left. -/
structure Lore.Ends (lore : Lore) (F : Multiset Asset) (lore' : Lore) : Prop where
  births : ∃ new, lore'.births = new ++ lore.births ∧ ∀ b ∈ new, b.number ∈ lore'.dead
  dead : ∀ n ∈ lore.dead, n ∈ lore'.dead
  jobs : ∃ made, lore'.jobs = made ++ lore.jobs
  held : ∀ n ∈ lore.held, n < lore.jobs.length → n ∈ lore'.held
  others : ∀ a, .job a ∈ F → jobAt lore'.jobs a = jobAt lore.jobs a

theorem Lore.Under.refl (lore : Lore) (F : Multiset Asset) : lore.Under F none lore :=
  ⟨⟨[], rfl, fun _ none' => absurd none' List.not_mem_nil⟩, fun _ known => known, ⟨[], rfl⟩, fun _ known => known,
    fun _ _ none' => (by cases none'), fun _ _ => rfl⟩

/-- Closing the child's job ends every process that was born into it, and
touches no process of another job. This is what makes `fail:` leave no
process behind. -/
theorem Lore.Under.closes {lore lore' lore'' : Lore} {F : Multiset Asset} {j : Option Nat}
    (under : lore.Under F j lore')
    (closes : lore'.Closes j lore'') : lore.Ends F lore'' := by
  obtain ⟨new, births, confined⟩ := under.births
  refine ⟨⟨new, closes.births.trans births, fun b member => ?_⟩, fun n known => closes.dead n (under.dead n known),
    ?_, ?_, fun a held => ?_⟩
  · rcases confined b member with dead | ⟨a, job, rfl, found, inside⟩
    · exact closes.dead _ dead
    · obtain ⟨job', found', members, -⟩ := closes.some' a rfl
      obtain rfl := Option.some.inj (found.symm.trans found')
      exact members b (by rw [births]; exact List.mem_append_left _ member) inside
  · rw [closes.jobs]
    exact under.jobs
  · intro n known older
    have before := under.held n known
    cases j with
    | none => exact closes.none' rfl ▸ before
    | some a =>
      obtain ⟨job, found, -, held⟩ := closes.some' a rfl
      refine held n before fun same => ?_
      have newer := under.own a job rfl found
      omega
  · rw [closes.jobs]
    exact under.others a held

/-- No thread of a child has been started. -/
structure ChildRecord.Still (c : ChildRecord) : Prop where
  tIn : c.tIn = none
  tOut : c.tOut = none
  tErr : c.tErr = none
  monitor : c.monitor = none

/-- A record without threads has no thread to wait for. -/
theorem ChildRecord.Still.tasks {c : ChildRecord} (still : c.Still) (address : Nat) : c.tasks address = [] := by
  simp only [ChildRecord.tasks, ChildRecord.observer, ChildRecord.writer, ChildRecord.reader, ChildRecord.errReader,
    still.tIn, still.tOut, still.tErr, still.monitor, Option.map_none, Option.toList_none, List.append_nil]

theorem ChildRecord.Still.sound {c : ChildRecord} (still : c.Still) : c.Sound := by
  refine ⟨fun some' => ?_, fun some' => ?_, fun some' => ?_⟩
  · rw [still.tIn] at some'
    cases some'
  · rw [still.tOut] at some'
    cases some'
  · rw [still.tErr] at some'
    cases some'

/-- What a part of `child_launch` leaves. -/
def ChildPost (F : Multiset Asset) (ts : List (Task Asset)) (lore : Lore) (address : Nat) {α : Type}
    (Q : α → ChildLocals → Lore → Prop) (r : Except (Option String) α) (s : ChildLocals) (y : LaunchWorld) : Prop :=
  ∃ lore', Has (s.owned + F) (s.c.tasks address ++ ts) lore' y ∧
    match r with
    | .ok a => Q a s lore'
    | .error _ => s.c.Sound ∧ s.c.monitor = none ∧ lore.Under F s.c.job lore'

abbrev ChildSteps (F : Multiset Asset) (ts : List (Task Asset)) (lore : Lore) (address : Nat) {α : Type}
    (p : ChildRoutine α) (s : ChildLocals) (Q : α → ChildLocals → Lore → Prop) (x : LaunchWorld) : Prop :=
  Steps launchHost launchDeal p s (ChildPost F ts lore address Q) x

section

variable {α β : Type} {x : LaunchWorld} {F : Multiset Asset} {ts : List (Task Asset)}
  {lore lore' : Lore} {address : Nat}
  {s : ChildLocals}

namespace ChildSteps

theorem throw {Q : α → ChildLocals → Lore → Prop} {err : Option String}
    (has : Has (s.owned + F) (s.c.tasks address ++ ts) lore' x) (sound : s.c.Sound) (quiet : s.c.monitor = none)
    (under : lore.Under F s.c.job lore') : ChildSteps F ts lore address (throw err) s Q x :=
  Steps.throw has (Kernel.Knows.stable lore') fun _ later => ⟨lore', later, sound, quiet, under⟩

theorem pure {Q : α → ChildLocals → Lore → Prop} {a : α} (has : Has (s.owned + F) (s.c.tasks address ++ ts) lore' x)
    (wanted : Q a s lore') : ChildSteps F ts lore address (pure a) s Q x :=
  Steps.pure has (Kernel.Knows.stable lore') fun _ later => ⟨lore', later, wanted⟩

theorem modify {Q : Unit → ChildLocals → Lore → Prop} {change : ChildLocals → ChildLocals}
    (has : Has ((change s).owned + F) ((change s).c.tasks address ++ ts) lore' x) (wanted : Q () (change s) lore') :
    ChildSteps F ts lore address (modify change) s Q x :=
  Safely.done has (Kernel.Knows.stable lore') fun _ later => ⟨lore', later, wanted⟩

/-- Stages of `child_launch` in a row; a stage that fails leaves a record
that `fail:` can take back. -/
theorem andThen {Q : β → ChildLocals → Lore → Prop} {R : α → ChildLocals → Lore → Prop} {p : ChildRoutine β}
    {f : β → ChildRoutine α} (first : ChildSteps F ts lore address p s Q x)
    (next : ∀ b s lore' y, Has (s.owned + F) (s.c.tasks address ++ ts) lore' y → Q b s lore' →
      ChildSteps F ts lore address (f b) s R y) : ChildSteps F ts lore address (p >>= f) s R x := by
  refine Steps.andThen first (fun err s y broke => ?_) fun b s y went => ?_
  · obtain ⟨lore', has, rest⟩ := broke
    exact Safely.done has (Kernel.Knows.stable lore') fun _ later => ⟨lore', later, rest⟩
  · obtain ⟨lore', has, wanted⟩ := went
    exact next b s lore' y has wanted

theorem mono {Q R : α → ChildLocals → Lore → Prop} {p : ChildRoutine α}
    (steps : ChildSteps F ts lore address p s Q x)
    (weaker : ∀ a s lore', Q a s lore' → R a s lore') : ChildSteps F ts lore address p s R x := by
  refine Safely.mono (fun r y went => ?_) steps
  obtain ⟨lore', has, went⟩ := went
  refine ⟨lore', has, ?_⟩
  obtain ⟨r, s⟩ := r
  cases r with
  | error err => exact went
  | ok a => exact weaker a s lore' went

end ChildSteps

section

variable {h k : Nat}

theorem owned_nul (empty : s.nul = none) :
    ({ s with nul := some h } : ChildLocals).owned = {.handle h} + s.owned := by
  simp only [ChildLocals.owned, empty, heldHandle, Option.elim_none, Option.elim_some]
  abel

theorem owned_out (outW : s.outW = none) (outR : s.c.outR = none) :
    ({ s with outW := some k, c := { s.c with outR := some h } } : ChildLocals).owned =
      {.handle h} + {.handle k} + s.owned := by
  simp only [ChildLocals.owned, ChildRecord.threads, ChildRecord.kept, ChildRecord.writeEnd, outW, outR, heldHandle,
    Option.elim_none, Option.elim_some]
  abel

theorem owned_err (errW : s.errW = none) (errR : s.c.errR = none) :
    ({ s with errW := some k, c := { s.c with errR := some h } } : ChildLocals).owned =
      {.handle h} + {.handle k} + s.owned := by
  simp only [ChildLocals.owned, ChildRecord.threads, ChildRecord.kept, ChildRecord.writeEnd, errW, errR, heldHandle,
    Option.elim_none, Option.elim_some]
  abel

theorem owned_stdin (stdinR : s.stdinR = none) (stdinW : s.stdinW = none) :
    ({ s with stdinR := some h, stdinW := some k } : ChildLocals).owned = {.handle h} + {.handle k} + s.owned := by
  simp only [ChildLocals.owned, stdinR, stdinW, heldHandle, Option.elim_none, Option.elim_some]
  abel

theorem owned_job (empty : s.c.job = none) :
    ({ s with c := { s.c with job := some h } } : ChildLocals).owned = {.job h} + s.owned := by
  simp only [ChildLocals.owned, ChildRecord.threads, ChildRecord.kept, ChildRecord.writeEnd, empty, heldJob,
    Option.elim_none, Option.elim_some]
  abel

theorem owned_proc {p : Nat} (empty : s.c.proc = none) :
    ({ s with c := { s.c with pid := p, proc := some h } } : ChildLocals).owned = {.handle h} + s.owned := by
  simp only [ChildLocals.owned, ChildRecord.threads, ChildRecord.kept, ChildRecord.writeEnd, empty, heldHandle,
    Option.elim_none, Option.elim_some]
  abel

theorem owned_roBuf {b : Option Nat} (empty : s.c.roBuf = none) :
    ({ s with c := { s.c with roBuf := b } } : ChildLocals).owned = heldBlock b + s.owned := by
  simp only [ChildLocals.owned, ChildRecord.threads, ChildRecord.kept, ChildRecord.writeEnd, empty, heldBlock,
    Option.elim_none]
  abel

theorem owned_reBuf {b : Option Nat} (empty : s.c.reBuf = none) :
    ({ s with c := { s.c with reBuf := b } } : ChildLocals).owned = heldBlock b + s.owned := by
  simp only [ChildLocals.owned, ChildRecord.threads, ChildRecord.kept, ChildRecord.writeEnd, empty, heldBlock,
    Option.elim_none]
  abel

theorem owned_tOut (empty : s.c.tOut = none) :
    ({ s with c := { s.c with tOut := some h } } : ChildLocals).owned = {.handle h} + s.owned := by
  simp only [ChildLocals.owned, ChildRecord.threads, ChildRecord.kept, ChildRecord.writeEnd, empty, heldHandle,
    Option.elim_none, Option.elim_some]
  abel

theorem owned_tErr (empty : s.c.tErr = none) :
    ({ s with c := { s.c with tErr := some h } } : ChildLocals).owned = {.handle h} + s.owned := by
  simp only [ChildLocals.owned, ChildRecord.threads, ChildRecord.kept, ChildRecord.writeEnd, empty, heldHandle,
    Option.elim_none, Option.elim_some]
  abel

theorem owned_wiBuf {n : Nat} (empty : s.c.wiBuf = none) :
    ({ s with c := { s.c with wiBuf := some h, wiLen := n } } : ChildLocals).owned = {.block h} + s.owned := by
  simp only [ChildLocals.owned, ChildRecord.threads, ChildRecord.kept, ChildRecord.writeEnd, empty, heldBlock,
    Option.elim_none, Option.elim_some]
  abel

/-- The end of the input passes to the record. -/
theorem owned_wiWrite (tIn : s.c.tIn = none) (empty : s.c.wiWrite = none) :
    ({ s with stdinW := none, c := { s.c with wiWrite := s.stdinW } } : ChildLocals).owned = s.owned := by
  simp only [ChildLocals.owned, ChildRecord.threads, ChildRecord.kept, ChildRecord.writeEnd, tIn, empty, heldHandle,
    Option.elim_none, Option.isNone_none, if_true]
  abel

theorem owned_inW (empty : s.c.inW = none) :
    ({ s with stdinW := none, c := { s.c with inW := s.stdinW } } : ChildLocals).owned = s.owned := by
  simp only [ChildLocals.owned, ChildRecord.threads, ChildRecord.kept, ChildRecord.writeEnd, empty, heldHandle,
    Option.elim_none]
  abel

theorem owned_doneEv (empty : s.c.doneEv = none) :
    ({ s with c := { s.c with doneEv := some h } } : ChildLocals).owned = {.handle h} + s.owned := by
  simp only [ChildLocals.owned, ChildRecord.threads, ChildRecord.kept, ChildRecord.writeEnd, empty, heldHandle,
    Option.elim_none, Option.elim_some]
  abel

theorem owned_monitor (empty : s.c.monitor = none) :
    ({ s with c := { s.c with monitor := some h } } : ChildLocals).owned = {.handle h} + s.owned := by
  simp only [ChildLocals.owned, ChildRecord.threads, ChildRecord.kept, ChildRecord.writeEnd, empty, heldHandle,
    Option.elim_none, Option.elim_some]
  abel

end

/-- Nothing is held twice. -/
theorem Has.apart {A : Multiset Asset} {r : Asset} (has : Has (A + F) ts lore x) (inside : r ∈ A) : r ∉ F :=
  Multiset.disjoint_left.mp (Multiset.nodup_add.mp has.single).2.2 inside

/-- What is stored in a local is held by it. -/
theorem Has.own {A : Multiset Asset} {s' : ChildLocals} (has : Has (A + (s.owned + F)) ts lore x)
    (same : s'.owned = A + s.owned) : Has (s'.owned + F) ts lore x := has.swap (by rw [same, add_assoc])

/-- The handle of `NUL` is opened once, and only where a stream needs it. -/
theorem childNul_steps {needed : Bool} (has : Has (s.owned + F) ts lore' x) (still : s.c.Still)
    (empty : s.nul = none)
    (under : lore.Under F s.c.job lore') :
    ChildSteps F ts lore address (childNul needed) s (fun _ s' lore'' => lore'' = lore' ∧
      s' = { s with nul := s'.nul } ∧
      (needed = true → s'.nul.isSome = true)) x := by
  have silent : s.c.tasks address ++ ts = ts := by rw [still.tasks, List.nil_append]
  unfold childNul
  cases needed with
  | false => exact ChildSteps.pure (silent.symm ▸ has) ⟨rfl, rfl, nofun⟩
  | true =>
    refine Steps.call (Runs.take (c := .openNul) trivial has (fun _ => rfl) fun a y has => ?_)
    cases a with
    | none => exact ChildSteps.throw (silent.symm ▸ Has.swap has (zero_add _)) still.sound still.monitor under
    | some nul =>
      exact ChildSteps.modify (silent.symm ▸ Has.own has (owned_nul empty)) ⟨rfl, rfl, fun _ => rfl⟩

/-- The streams of a child alone. -/
def ChildRecord.streams (c : ChildRecord) : ChildRecord where
  outR := c.outR
  errR := c.errR
  inheritIn := c.inheritIn
  inheritOut := c.inheritOut
  inheritErr := c.inheritErr

/-- A child of which there are only the streams. -/
structure ChildLocals.Streamed (s : ChildLocals) (o : ChildOpts) : Prop where
  bare : s.c = s.c.streams
  pipes : o.inherit = false → s.c.outR.isSome = true ∧ s.c.errR.isSome = true
  input : o.inherit = false → (o.stdin.isSome || o.channels) = true → s.stdinW.isSome = true
  idle : (o.stdin.isSome || o.channels) = false → s.stdinW = none

/-- Inherited streams are those of this process, with the null device for
those that are missing. -/
theorem childInherit_steps {o : ChildOpts} (inherit : o.inherit = true) (has : Has F ts lore x) :
    ChildSteps F ts lore address childInherit {} (fun _ s lore' => lore' = lore ∧ s.Streamed o) x := by
  have start : Has (({} : ChildLocals).owned + F) ts lore x := has.swap (zero_add F).symm
  have quiet : ∀ which (y : LaunchWorld) (f : Option Nat → LaunchM (Except (Option String) Unit × ChildLocals)),
      Has (({} : ChildLocals).owned + F) ts lore y →
      (∀ a z, Has (({} : ChildLocals).owned + F) ts lore z → Runs (f a) (fun r => ChildPost F ts lore address
        (fun _ s lore' => lore' = lore ∧ s.Streamed o) r.1 r.2) z) →
      Runs (Prog.ask (.getStdHandle which) >>= f) (fun r => ChildPost F ts lore address
        (fun _ s lore' => lore' = lore ∧ s.Streamed o) r.1 r.2) y := fun which y f has next =>
    Runs.take (c := .getStdHandle which) (T := fun _ => 0) trivial has (fun _ => rfl) fun a z later =>
      next a z (Has.swap later (zero_add _))
  refine Steps.call (quiet _ _ _ start fun si y has =>
    Steps.call (quiet _ _ _ has fun so y has => Steps.call (quiet _ _ _ has
    fun se y has => ?_)))
  refine ChildSteps.andThen (childNul_steps has ⟨rfl, rfl, rfl, rfl⟩ rfl (.refl lore F)) ?_
  rintro _ s lore' y has' ⟨rfl, same, -⟩
  have c : s.c = {} := by rw [same]
  have other : o.inherit ≠ false := by rw [inherit]; decide
  refine ChildSteps.modify ?_
    ⟨rfl, by rw [c]; rfl, fun captured => absurd captured other, fun captured => absurd captured other,
    fun _ => by rw [same]⟩
  rw [same] at has' ⊢
  exact has'

/-- Each end of a pipe is in the record from its creation on: the child's ends to
be closed after the launch, the others to be kept for the readers and the writer.
-/
theorem childPipes_steps {o : ChildOpts} (has : Has F ts lore x) :
    ChildSteps F ts lore address (childPipes o) {} (fun _ s lore' => lore' = lore ∧ s.Streamed o) x := by
  have start : Has (({} : ChildLocals).owned + F) ts lore x := has.swap (zero_add F).symm
  refine Steps.call (Runs.take (c := .createPipe) trivial start (fun _ => rfl) fun a y has => ?_)
  cases a with
  | none =>
    exact ChildSteps.throw (Has.swap has (zero_add _))
      (ChildRecord.Still.sound ⟨rfl, rfl, rfl, rfl⟩) rfl (.refl lore F)
  | some out =>
    have has := Has.own has (owned_out (s := {}) rfl rfl)
    refine Steps.modify (Steps.call (Runs.take (c := .createPipe) trivial has (fun _ => rfl) fun a y has => ?_))
    cases a with
    | none =>
      exact ChildSteps.throw (Has.swap has (zero_add _))
        (ChildRecord.Still.sound ⟨rfl, rfl, rfl, rfl⟩) rfl (.refl lore F)
    | some err =>
      have has := Has.own has (owned_err (s := { outW := some out.2, c := { outR := some out.1 } }) rfl rfl)
      refine Steps.modify ?_
      dsimp only
      split
      · rename_i piped
        refine Steps.call (Runs.take (c := .createPipe) trivial has (fun _ => rfl) fun a y has => ?_)
        cases a with
        | none =>
          exact ChildSteps.throw (Has.swap has (zero_add _))
            (ChildRecord.Still.sound ⟨rfl, rfl, rfl, rfl⟩) rfl (.refl lore F)
        | some stdin =>
          exact ChildSteps.modify (Has.own has (owned_stdin rfl rfl))
            ⟨rfl, rfl, fun _ => ⟨rfl, rfl⟩, fun _ _ => rfl,
            fun idle => by rw [idle] at piped; cases piped⟩
      · rename_i bare
        refine (childNul_steps has ⟨rfl, rfl, rfl, rfl⟩ rfl (.refl lore F)).mono ?_
        rintro _ s lore' ⟨rfl, same, -⟩
        have c : s.c = { outR := some out.1, errR := some err.1 } := by rw [same]
        exact ⟨rfl, by rw [c]; rfl, fun _ => by rw [c]; exact ⟨rfl, rfl⟩, fun _ piped => absurd piped bare,
          fun _ => by rw [same]⟩

/-- The streams of a child are its own pipes or the parent's, as the options
say, and the record has what each of them needs. -/
theorem childStreams_steps {o : ChildOpts} (has : Has F ts lore x) :
    ChildSteps F ts lore address (childStreams o) {} (fun _ s lore' => lore' = lore ∧ s.Streamed o) x := by
  unfold childStreams
  split
  · rename_i inherit
    exact childInherit_steps inherit has
  · exact childPipes_steps has

/-- A job that was just made is none of those that are held already, so it
is the child's own. -/
theorem Lore.Under.jobNew {j : Nat} (fresh : .job j ∉ F) : lore.Under F (some j) (lore.jobNew j) := by
  refine ⟨⟨[], rfl, fun _ none' => absurd none' List.not_mem_nil⟩, fun _ known => known, ⟨[_], rfl⟩,
    fun _ known => List.mem_cons_of_mem _ known, fun a job same found => ?_, fun a held => ?_⟩
  · obtain rfl := Option.some.inj same
    rw [Lore.jobNew, jobAt, List.find?_cons, beq_self_eq_true] at found
    rw [← Option.some.inj found]
  · have other : (j == a) = false := beq_eq_false_iff_ne.mpr fun same => fresh (same ▸ held)
    rw [Lore.jobNew, jobAt, List.find?_cons, other]
    rfl

/-- The job of the child is a new one, and the record holds it. -/
theorem childJob_steps {o : ChildOpts} (has : Has (s.owned + F) ts lore x) (bare : s.c = s.c.streams) :
    ChildSteps F ts lore address (childJob o) s (fun j s' lore' => lore' = lore.jobNew j ∧
      s' = { s with c := { s.c with job := some j } }) x := by
  have still : s.c.Still := by rw [bare]; exact ⟨rfl, rfl, rfl, rfl⟩
  have silent : s.c.tasks address ++ ts = ts := by rw [still.tasks, List.nil_append]
  refine Steps.call (Runs.jobNew has (fun err y has => ?_) fun j y has => ?_)
  · refine ChildSteps.throw (silent.symm ▸ has) still.sound still.monitor ?_
    rw [bare]
    exact .refl lore F
  · have fresh : .job j ∉ F := fun held =>
      Has.apart has (Multiset.mem_singleton_self _) (Multiset.mem_add.mpr (.inr held))
    have has := Has.own has (owned_job (by rw [bare]; rfl))
    have still' : ({ s.c with job := some j } : ChildRecord).Still :=
      ⟨still.tIn, still.tOut, still.tErr, still.monitor⟩
    have silent' : ({ s.c with job := some j } : ChildRecord).tasks address ++ ts = ts := by
      rw [still'.tasks, List.nil_append]
    refine Steps.modify ?_
    dsimp only
    split
    · refine Steps.call (Runs.use (c := .jobSetLimits j ⟨o.mem, o.cpu100ns⟩)
        (P := fun _ => True) trivial has (fun _ _ => rfl)
        (fun r needed => ?_) (fun _ _ _ _ _ => trivial) fun a y _ _ has => ?_)
      · rw [Multiset.mem_singleton.mp needed, owned_job (by rw [bare]; rfl)]
        simp
      · cases a with
        | some err => exact ChildSteps.throw (silent'.symm ▸ has) still'.sound still'.monitor (.jobNew fresh)
        | none => exact ChildSteps.pure (silent'.symm ▸ has) ⟨rfl, rfl⟩
    · exact ChildSteps.pure (silent'.symm ▸ has) ⟨rfl, rfl⟩

/-- The copy of the argument vector is a block of its own beside what the
record holds. -/
theorem argvCopy_steps {o : ChildOpts} {R : α → ChildLocals → Lore → Prop} {f : Option Nat → ChildRoutine α}
    (has : Has (s.owned + F) ts lore' x) (still : s.c.Still) (under : lore.Under F s.c.job lore')
    (next : ∀ b y, Has (heldBlock b + (s.owned + F)) ts lore' y → ChildSteps F ts lore address (f b) s R y) :
    ChildSteps F ts lore address (argvCopy o >>= f) s R x := by
  unfold argvCopy
  cases o.arg0 with
  | none => exact next none x (has.swap (zero_add _).symm)
  | some arg0 =>
    change ChildSteps F ts lore address (LaunchCall.step .malloc >>= fun a => argvCopied a >>= f) s R x
    refine Steps.call (Runs.malloc has fun a y has => ?_)
    cases a with
    | none =>
      have silent : s.c.tasks address ++ ts = ts := by rw [still.tasks, List.nil_append]
      exact Safely.done (Has.swap has (zero_add _)) (Kernel.Knows.stable lore') fun _ later =>
        ⟨lore', silent.symm ▸ later, still.sound, still.monitor, under⟩
    | some b => exact next (some b) y has

/-- A launch that failed adds no living process. -/
theorem Lore.Under.stillborn {lore'' : Lore} {j : Option Nat} (under : lore.Under F j lore')
    (dead : lore'.Stillborn lore'') :
    lore.Under F j lore'' := by
  obtain ⟨new, births, confined⟩ := under.births
  obtain ⟨new', births', ended⟩ := dead.births
  refine ⟨⟨new' ++ new, by rw [births', births, List.append_assoc], fun b member => ?_⟩,
    fun n known => dead.dead n (under.dead n known), by rw [dead.jobs]; exact under.jobs,
    fun n known => by rw [dead.held]; exact under.held n known, fun a job same found => ?_,
    fun a held => by rw [dead.jobs]; exact under.others a held⟩
  · rcases List.mem_append.mp member with inside | before
    · exact .inl (ended b inside)
    · refine (confined b before).imp (dead.dead _) ?_
      rw [dead.jobs]
      exact id
  · rw [dead.jobs] at found
    exact under.own a job same found

/-- A process that was born into the child's job lives in a job that is
closed with the child. -/
theorem Lore.Under.create {j : Nat} {b : Birth} {job : JobObject} (under : lore.Under F (some j) lore')
    (found : jobAt lore'.jobs j = some job) (inside : job.number ∈ b.jobs) :
    lore.Under F (some j) (lore'.create b false) := by
  obtain ⟨new, births, confined⟩ := under.births
  refine ⟨⟨b :: new, by rw [Lore.create, births]; rfl, fun c member => ?_⟩, under.dead, under.jobs,
    under.held, under.own,
    under.others⟩
  rcases List.mem_cons.mp member with rfl | before
  · exact .inr ⟨j, job, rfl, found, inside⟩
  · exact confined c before

/-- The process of a child: born into the root job and the child's own, from
nothing but what the child was asked for. -/
structure ChildBorn (o : ChildOpts) (root : Nat) (exe : Bytes) (cargv : List Bytes) (F : Multiset Asset) (j : Nat)
    (lore : Lore) (b : Birth) : Prop where
  launched : ∃ call io G, LaunchedAs call io false o.env (G + F) lore b ∧ call.exe = exe ∧
    call.argv = argvWithArg0 o.arg0 cargv ∧
    call.dir = o.dir
  jobs : ∃ rootJob job, jobAt lore.jobs root = some rootJob ∧ jobAt lore.jobs j = some job ∧
    b.jobs = [rootJob.number, job.number]

/-- A process that `wj_launch` gave the two jobs of the call was born into
the root job and into the child's own, in this order. -/
theorem ChildBorn.of {o : ChildOpts} {root j : Nat} {exe : Bytes} {cargv : List Bytes}
    {G : Multiset Asset} {b : Birth}
    {rootHandle handle : Option Nat} {io : Option WjStdio} {origs : List Nat}
    (rootKnown : ∀ h, rootHandle = some h → h = root)
    (known : ∀ h, handle = some h → h = j)
    (accepted : wjLaunchRefused ⟨exe, argvWithArg0 o.arg0 cargv, o.dir, some [rootHandle, handle], 2⟩
      io false = none)
    (launched : LaunchedAs ⟨exe, argvWithArg0 o.arg0 cargv, o.dir, some [rootHandle, handle], 2⟩ origs false o.env
      (G + F) lore b) :
    ChildBorn o root exe cargv F j lore b := by
  refine ⟨⟨_, _, G, launched, rfl, rfl, rfl⟩, ?_⟩
  have there : rootHandle = some root ∧ handle = some j := by
    unfold wjLaunchRefused at accepted
    split_ifs at accepted with _ _ _ _ missing
    rw [WjLaunch.jobMissing] at missing
    cases rootHandle with
    | none => exact absurd rfl missing
    | some r =>
      cases handle with
      | none => exact absurd rfl missing
      | some h => exact ⟨congrArg some (rootKnown r rfl), congrArg some (known h rfl)⟩
  have jobs := launched.jobs
  rw [there.1, there.2] at jobs
  obtain ⟨rootJob, foundRoot, rest⟩ := Option.bind_eq_some_iff.mp jobs
  obtain ⟨ns, rest, same⟩ := Option.map_eq_some_iff.mp rest
  obtain ⟨job, found, rest⟩ := Option.bind_eq_some_iff.mp rest
  obtain ⟨ns', empty, same'⟩ := Option.map_eq_some_iff.mp rest
  obtain rfl := Option.some.inj empty
  exact ⟨rootJob, job, foundRoot, found, by rw [← same, ← same']⟩

/-- A child whose process has been created. -/
def ChildRecord.running (c : ChildRecord) (o : ChildOpts) (stream : Bool) (info : ProcessInfo)
    (deadline : Nat) : ChildRecord :=
  { c with
    inherit := o.inherit
    channels := o.channels
    stream := stream
    pid := info.pid
    proc := some info.handle
    deadline := deadline }

/-- The launch of the process with the child's streams. Where it succeeds
the handle is the record's; where it fails no process of the call lives. -/
theorem childProcess_steps {o : ChildOpts} {root j : Nat} {exe : Bytes} {cargv : List Bytes} {stream : Bool}
    (has : Has (s.owned + F) ts lore' x) (still : s.c.Still) (job : s.c.job = some j) (bare : s.c.proc = none)
    (rootHeld : .job root ∈ F) (under : lore.Under F (some j) lore') :
    ChildSteps F ts lore address (childProcess o root exe cargv stream j) s (fun _ s' lore'' => ∃ b deadline,
      s' = { s with c := s.c.running o stream b.info deadline } ∧ ChildBorn o root exe cargv F j lore' b ∧
        lore'' = lore'.create b false) x := by
  have held : .job j ∈ s.owned + F := by
    simp only [ChildLocals.owned, ChildRecord.kept, job, heldJob, Option.elim_some, Multiset.mem_add,
      Multiset.mem_singleton,
      true_or, or_true]
  refine Steps.call (Runs.jobHandle has (Multiset.mem_add.mpr (.inr rootHeld)) fun rootHandle y rootKnown has =>
    Steps.call (Runs.jobHandle has held fun handle y known has => Steps.modify ?_))
  obtain ⟨s₁, flagged⟩ : ∃ s₁ : ChildLocals, s₁ =
      { s with c := { s.c with inherit := o.inherit, channels := o.channels, stream := stream } } := ⟨_, rfl⟩
  rw [← flagged]
  have has : Has (s₁.owned + F) ts lore' y := by rw [flagged]; exact has
  have still₁ : s₁.c.Still := by rw [flagged]; exact ⟨still.tIn, still.tOut, still.tErr, still.monitor⟩
  have job₁ : s₁.c.job = some j := by rw [flagged]; exact job
  have under₁ : lore.Under F s₁.c.job lore' := by rw [job₁]; exact under
  have silent₁ : s₁.c.tasks address ++ ts = ts := by rw [still₁.tasks, List.nil_append]
  have kept := has.uses
  refine argvCopy_steps has still₁ under₁ fun largv y has => Steps.get (Steps.within ?_)
  refine Safely.andThen (wjLaunchProcess_runs has) fun launched y ended => Steps.within ?_
  obtain ⟨lore'', ended⟩ := ended
  cases launched with
  | error err =>
    refine Safely.andThen (freeBlock_runs ended.1 kept) fun _ y has => ?_
    exact ChildSteps.throw (silent₁.symm ▸ has) still₁.sound still₁.monitor (job₁.symm ▸ under.stillborn ended.2)
  | ok info =>
    obtain ⟨has, b, rfl, ⟨accepted, launched⟩, rfl⟩ := ended
    have order : {.handle b.info.handle} + (heldBlock largv + (s₁.owned + F)) =
        heldBlock largv + ({.handle b.info.handle} + (s₁.owned + F)) := by abel
    refine Safely.andThen (freeBlock_runs (has.swap order) (kept.add _)) fun _ y has => ?_
    have has := Has.own has (owned_proc (p := b.info.pid) (by rw [flagged]; exact bare))
    have born : ChildBorn o root exe cargv F j lore' b :=
      .of (G := heldBlock largv + s₁.owned) rootKnown known accepted (by rw [add_assoc]; exact launched)
    have still₂ : ({ s₁.c with pid := b.info.pid, proc := some b.info.handle } : ChildRecord).Still :=
      ⟨still₁.tIn, still₁.tOut, still₁.tErr, still₁.monitor⟩
    have silent : ({ s₁.c with pid := b.info.pid, proc := some b.info.handle } : ChildRecord).tasks
      address ++ ts = ts := by
      rw [still₂.tasks, List.nil_append]
    refine Steps.modify ?_
    unfold childDeadline
    cases o.timeoutMs with
    | none =>
      refine ChildSteps.pure (silent.symm ▸ has) ⟨b, s.c.deadline, ?_, born, rfl⟩
      rw [flagged]
      rfl
    | some ms =>
      refine Steps.call (Runs.take (c := .tickCount) (T := fun _ => 0) trivial has (fun _ => rfl)
        fun now y has => ?_)
      refine ChildSteps.modify ?_ ⟨b, now + ms, ?_, born, rfl⟩
      · have has := Has.swap has (zero_add _)
        exact silent.symm ▸ has
      · rw [flagged]
        rfl

end

end Machteld
