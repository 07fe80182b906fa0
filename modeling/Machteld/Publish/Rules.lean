import Machteld.Publish.Queries

namespace Machteld

open Publish Host PublishWorld

variable {Path : Type} [DecidableEq Path] {others : Bool}
  {meets : PublishCall Path → PublishChoice → PublishWorld Path → Bool}
  {always I : PublishWorld Path → Prop} {w : PublishWorld Path} {first h : Nat}

/-- A name was there at some time. -/
def PublishSeen (I : PublishWorld Path → Prop) (path : Path) : Prop := ∃ v f, I v ∧ v.names path = some f

namespace PublishHarmless

/-- Where the file of a handle is known it stays known. -/
theorem holding (harmless : PublishHarmless others meets always first I) (older : first ≤ h) (f : FileId) :
    PublishHarmless others meets always (h + 1) (fun w => I w ∧ w.Holds h f ∧ h < w.nextHandle) where
  moves m w v holds moves := by
    obtain ⟨-, moved⟩ := publishHost_move moves
    exact ⟨harmless.moves m w v holds.1 moves, Holds.moves holds.2.1 moved,
      by rw [(publishMove_record moved).2.2.2]; exact holds.2.2⟩
  inside w holds := harmless.inside w holds.1
  fresh w holds := holds.2.2
  opened w path g holds known :=
    ⟨harmless.opened w path g holds.1 known, Holds.opened holds.2.1 holds.2.2 path g, Nat.lt_succ_of_lt holds.2.2⟩
  closed w k holds later :=
    ⟨harmless.closed w k holds.1 (Nat.le_trans (Nat.le_succ_of_le older) later),
      Holds.closed holds.2.1 k, holds.2.2⟩
  writable w g holds := ⟨harmless.writable w g holds.1, holds.2.1, holds.2.2⟩

variable (harmless : PublishHarmless others meets always first I)

include harmless

/-- A new handle has the file of the name. -/
theorem begins {path : Path} {f : FileId} (holds : I w) (known : w.names path = some f) :
    I (w.opened path f) ∧ (w.opened path f).Holds w.nextHandle f ∧ w.nextHandle < (w.opened path f).nextHandle := by
  refine ⟨harmless.opened w path f holds known, fun g p found => ?_, Nat.lt_succ_self _⟩
  simp only [PublishWorld.opened, Function.update_self] at found
  exact (Prod.mk.inj (Option.some.inj found)).1.symm

theorem close {α : Type} {next : Unit → PublishProg Path α} {post : α → PublishWorld Path → Prop} (start : I w)
    (later : ∀ v, I v → PublishEnsures others meets always (next ()) post (v.closed h)) :
    PublishEnsures others meets always (closeHandle h >>= next) post w :=
  harmless.ask (c := .closeHandle h) start fun _ a v u holds _ acts => by
    obtain ⟨-, rfl⟩ := Prod.mk.inj (Option.some.inj acts)
    exact later v holds

/-- An open finds the file of the name, or nothing happens. -/
theorem openExisting {α : Type} {path : Path} {next : Except Nat Nat → PublishProg Path α}
    {post : α → PublishWorld Path → Prop} (start : I w)
    (failed : ∀ e v, I v → PublishEnsures others meets always (next (.error e)) post v)
    (opened : ∀ v f, I v → v.names path = some f → PublishEnsures others meets always (next (.ok v.nextHandle)) post
      (v.opened path f)) : PublishEnsures others meets always (openExisting path >>= next) post w :=
  harmless.ask (c := .openExisting path) start fun choice a v u holds _ acts => by
    simp only [publishAct] at acts
    split at acts
    · next f known _ =>
      obtain ⟨rfl, rfl⟩ := Prod.mk.inj (Option.some.inj acts)
      exact opened v f holds known
    · obtain ⟨rfl, rfl⟩ := Prod.mk.inj (Option.some.inj acts)
      exact failed _ _ holds
    · cases acts

/-- What an open handle shows is about the file that had the name. -/
theorem probePath (path : Path) (start : I w) :
    PublishEnsures others meets always (probePath path) (fun r u => I u ∧
      ∀ info, r = .present info → ∃ v f, I v ∧ v.names path = some f ∧ info.identity.Of f) w := by
  refine harmless.openExisting start (fun e v holds => harmless.done holds fun u later => ⟨later, ?_⟩)
    fun v f holds known => ?_
  · intro info same
    split at same <;> cases same
  have older := harmless.fresh v holds
  have keeps := harmless.holding older f
  have begins := harmless.begins holds known
  refine Ensures.bind ((keeps.queryHandle begins).mono fun r u queried => ?_)
  refine keeps.close queried.1 fun x inside => ?_
  have after := harmless.closed x v.nextHandle inside.1 older
  cases r with
  | error e => exact harmless.done after fun y later => ⟨later, fun info same => by cases same⟩
  | ok info =>
    refine harmless.done after fun y later => ⟨later, fun info' same => ?_⟩
    obtain rfl := PublishProbe.present.inj same
    exact ⟨v, f, holds, known, queried.2 info f rfl fun z known => known.2.1⟩

/-- The parent is looked at and not touched. -/
theorem checkParent (parent : Path) (label : String) (start : I w) :
    PublishEnsures others meets always (checkParent parent label) (fun _ u => I u) w := by
  refine Ensures.bind ((harmless.probePath parent start).mono fun r u probed => ?_)
  cases r with
  | error e => exact harmless.done probed.1 fun _ later => later
  | absent => exact harmless.done probed.1 fun _ later => later
  | present info =>
    simp only
    split_ifs <;> exact harmless.done probed.1 fun _ later => later

/-- A candidate that passes was seen under its name by a call that changed
nothing, so that at that moment the name led to a file. -/
theorem checkCandidate (candidate : Path) (expected : Option PublishFileInfo) (start : I w) :
    PublishEnsures others meets always (checkCandidate candidate expected)
      (fun r u => I u ∧ ∀ info, r = .ok info → PublishSeen I candidate) w := by
  refine Ensures.bind ((harmless.probePath candidate start).mono fun r u probed => ?_)
  cases r with
  | absent => exact harmless.done probed.1 fun _ later => ⟨later, nofun⟩
  | error e =>
    simp only
    split_ifs <;> exact harmless.done probed.1 fun _ later => ⟨later, nofun⟩
  | present info =>
    have seen : PublishSeen I candidate := by
      obtain ⟨v, f, before, named, -⟩ := probed.2 info rfl
      exact ⟨v, f, before, named⟩
    simp only
    split_ifs <;> exact harmless.done probed.1 fun _ later => ⟨later, fun _ _ => seen⟩

/-- A destination that passes was seen under its name by a call that changed
nothing. -/
theorem checkDestination (destination : Path) (start : I w) :
    PublishEnsures others meets always (checkDestination destination)
      (fun r u => I u ∧ ∀ info, r = .ok (some info) → PublishSeen I destination) w := by
  refine Ensures.bind ((harmless.probePath destination start).mono fun r u probed => ?_)
  cases r with
  | error e => exact harmless.done probed.1 fun _ later => ⟨later, nofun⟩
  | absent => exact harmless.done probed.1 fun _ later => ⟨later, nofun⟩
  | present info =>
    have seen : PublishSeen I destination := by
      obtain ⟨v, f, before, named, -⟩ := probed.2 info rfl
      exact ⟨v, f, before, named⟩
    simp only
    split_ifs <;> exact harmless.done probed.1 fun _ later => ⟨later, fun _ _ => seen⟩

/-- A handle may be deleted through where that breaks nothing. -/
theorem deleteOpenHandle (discard : ∀ v, I v → I (v.disposed h)) (start : I w) :
    PublishEnsures others meets always (deleteOpenHandle h) (fun _ u => I u) w := by
  have disposes : ∀ v, I v → PublishEnsures others meets always (setDisposition h) (fun _ u => I u) v := by
    refine fun v start => harmless.last (c := .setDisposition h) start fun choice a v u holds _ acts => ?_
    simp only [publishAct] at acts
    split at acts
    · obtain ⟨-, rfl⟩ := Prod.mk.inj (Option.some.inj acts)
      exact ⟨discard v holds, fun _ later => later⟩
    · obtain ⟨-, rfl⟩ := Prod.mk.inj (Option.some.inj acts)
      exact ⟨holds, fun _ later => later⟩
    · cases acts
  refine Ensures.bind ((harmless.queryHandle start).mono fun r u queried => ?_)
  cases r with
  | error e => exact harmless.done queried.1 fun _ later => later
  | ok current =>
    simp only
    split_ifs
    · exact harmless.done queried.1 fun _ later => later
    · refine harmless.look (.basic (h := h)) queried.1 fun _ basic v holds _ => ?_
      cases basic with
      | error e => exact harmless.done holds fun _ later => later
      | ok attributes =>
        refine harmless.ask (c := .setBasicInfo h) holds fun choice a v u holds _ acts => ?_
        have keeps : I u := by
          simp only [publishAct] at acts
          split at acts
          · obtain ⟨-, rfl⟩ := Prod.mk.inj (Option.some.inj acts)
            exact harmless.writable v _ holds
          · obtain ⟨-, rfl⟩ := Prod.mk.inj (Option.some.inj acts)
            exact holds
          · cases acts
        cases a with
        | error e => exact harmless.done keeps fun _ later => later
        | ok _ => exact disposes u keeps
    · exact disposes u queried.1

/-- Only the file that is expected is deleted. -/
theorem deleteIdentity {path : Path} {expected : PublishFileInfo} {f : FileId} (known : expected.identity.Of f)
    (discard : ∀ v h, I v → first ≤ h → v.Holds h f → I (v.disposed h)) (start : I w) :
    PublishEnsures others meets always (deleteIdentity path expected) (fun _ u => I u) w := by
  refine harmless.openExisting start (fun e v holds => harmless.done holds fun _ later => later)
    fun v g holds named => ?_
  have older := harmless.fresh v holds
  have keeps := harmless.holding older g
  have begins := harmless.begins holds named
  have closes : ∀ (b : Bool) x, I x → PublishEnsures others meets always (do
      closeHandle v.nextHandle
      return b) (fun _ u => I u) x := fun b x start =>
    harmless.close start fun y holds => harmless.done (harmless.closed y _ holds older) fun _ later => later
  refine Ensures.bind ((keeps.queryHandle begins).mono fun r u queried => ?_)
  cases r with
  | error e => exact closes false u queried.1.1
  | ok current =>
    simp only
    split_ifs with matches'
    · have same : g = f := sameIdentityValue_of (Bool.and_eq_true_iff.mp matches').2
        (queried.2 current g rfl fun z known => known.2.1) known
      subst same
      refine Ensures.bind ((keeps.deleteOpenHandle (fun x inside => ?_) queried.1).mono fun removed x deleted => ?_)
      · refine ⟨discard x v.nextHandle inside.1 older inside.2.1, ?_, ?_⟩
        · obtain same | ⟨k, p, -, same⟩ := x.disposed_cases v.nextHandle
          · rw [same]
            exact inside.2.1
          · rw [same]
            exact Holds.removed inside.2.1 p
        · obtain same | ⟨k, p, -, same⟩ := x.disposed_cases v.nextHandle
          · rw [same]
            exact inside.2.2
          · rw [same, remove_nextHandle]
            exact inside.2.2
      · exact closes removed.isOk x deleted.1
    · exact closes false u queried.1.1

end PublishHarmless

/-- A marker and an old destination that is retained. -/
structure PublishHeld (Path : Type) where
  backup : Path
  marker : FileId
  handle : Nat
  file : FileId

/-- What holds in each phase of an attempt, and that each call leads from
phase to phase. A failed `ReplaceFileW` may have moved the old destination
or not. -/
structure PublishRules (paths : PublishPaths Path) (others : Bool)
    (meets : PublishCall Path → PublishChoice → PublishWorld Path → Bool)
    (always : PublishWorld Path → Prop) where
  idle : PublishWorld Path → Prop
  marked : Path → FileId → PublishWorld Path → Prop
  held : PublishHeld Path → PublishWorld Path → Prop
  failed : Bool → PublishHeld Path → PublishWorld Path → Prop
  replaced : PublishHeld Path → PublishWorld Path → Prop
  ended : Except TclError Unit → PublishWorld Path → Prop
  idleHarmless : PublishHarmless others meets always 0 idle
  markedHarmless : ∀ b m, PublishHarmless others meets always 0 (marked b m)
  heldHarmless : ∀ x, PublishHarmless others meets always (x.handle + 1) (held x)
  failedHarmless : ∀ moved x, PublishHarmless others meets always (x.handle + 1) (failed moved x)
  replacedHarmless : ∀ x, PublishHarmless others meets always (x.handle + 1) (replaced x)
  endedStable : ∀ r, PublishStable others meets always (ended r)
  moves : ∀ w f, idle w → w.names paths.candidate = some f → w.names paths.destination = none →
    ended (.ok ()) (w.rename paths.candidate paths.destination)
  reserves : ∀ w random, PublishSeen idle paths.candidate → PublishSeen idle paths.destination → idle w →
    w.names (paths.backup random) = none → marked (paths.backup random) w.nextFile (w.marked (paths.backup random))
  forgets : ∀ b m w, marked b m w → idle w
  unreserves : ∀ b m w, marked b m w → meets (.deleteFile b) .works w = true → idle (w.remove b)
  discards : ∀ b m w h, marked b m w → w.Holds h m → marked b m (w.disposed h)
  retains : ∀ b m w f, marked b m w → w.names paths.destination = some f →
    held ⟨b, m, w.nextHandle, f⟩ (w.opened paths.destination f)
  releases : ∀ x w, held x w → marked x.backup x.marker (w.closed x.handle)
  replaces : ∀ x w choice v, held x w → meets (.replaceFile paths.destination paths.candidate x.backup)
    choice w = true →
    publishReplaces w paths.destination paths.candidate x.backup choice = some (.ok (), v) → replaced x v
  fails : ∀ x w choice e v, held x w → meets (.replaceFile paths.destination paths.candidate x.backup)
    choice w = true →
    publishReplaces w paths.destination paths.candidate x.backup choice = some (.error e, v) →
      ∃ moved, failed moved x v
  retained : ∀ moved x w, failed moved x w → w.Holds x.handle x.file
  failedDiscards : ∀ moved x w h, failed moved x w → x.handle < h → w.Holds h x.marker →
    failed moved x (w.disposed h)
  restores : ∀ moved x v w, failed moved x v → v.names x.backup = some x.file → failed moved x w →
    w.names paths.destination = none → failed false x (w.rename x.backup paths.destination)
  there : ∀ moved x v w, failed moved x v → v.names paths.destination = some x.file → failed moved x w →
    failed false x w
  resumes : ∀ x w, failed false x w → idle (w.closed x.handle)
  stops : ∀ moved x w e, failed moved x w → ended (.error e) (w.closed x.handle)
  refuses : ∀ w e, idle w → ended (.error e) w
  deletes : ∀ x w, replaced x w → replaced x (w.disposed x.handle)
  finishes : ∀ x w, replaced x w → ended (.ok ()) (w.closed x.handle)

namespace PublishRules

variable {paths : PublishPaths Path} (rules : PublishRules paths others meets always)

/-- What holds where an attempt ends. -/
def After (r : PublishAttempt) (w : PublishWorld Path) : Prop :=
  r.elim (rules.idle w) fun result => rules.ended result w

theorem refuse {e : TclError} (start : rules.idle w) :
    PublishEnsures others meets always (Pure.pure (.error e)) rules.ended w :=
  rules.idleHarmless.done start fun v holds => rules.refuses v e holds

theorem again (start : rules.idle w) :
    PublishEnsures others meets always (Pure.pure none) rules.After w :=
  rules.idleHarmless.done start fun _ holds => holds

theorem stop {result : Except TclError Unit} (ends : rules.ended result w) :
    PublishEnsures others meets always (Pure.pure (some result)) rules.After w :=
  (rules.endedStable result).done ends fun _ holds => holds

/-- What holds where a marker has been reserved, or has not. -/
structure Reserved (r : Except TclError (Path × PublishFileInfo)) (w : PublishWorld Path) : Prop where
  error : ∀ e, r = .error e → rules.idle w
  marker : ∀ b info, r = .ok (b, info) → ∃ m, info.identity.Of m ∧ rules.marked b m w

theorem unreserved {e : TclError} (start : rules.idle w) :
    PublishEnsures others meets always (Pure.pure (.error e)) rules.Reserved w :=
  rules.idleHarmless.done start fun _ holds => ⟨fun _ _ => holds, nofun⟩

/-- A marker is reserved under a name that was free; where that fails,
nothing is left of it. The induction is on the attempts, each with a random
name. -/
theorem backupMarker (attempts : Nat) (candidate : PublishSeen rules.idle paths.candidate)
    (destination : PublishSeen rules.idle paths.destination) (start : rules.idle w) :
    PublishEnsures others meets always (backupMarker paths attempts) rules.Reserved w := by
  induction attempts generalizing w with
  | zero => exact rules.unreserved start
  | succ attempts ih =>
    refine rules.idleHarmless.look .random start fun _ random v holds _ => ?_
    cases random with
    | none => exact rules.unreserved holds
    | some random =>
      refine rules.idleHarmless.look .memory holds fun _ memory v holds _ => ?_
      cases memory with
      | false => exact rules.unreserved holds
      | true =>
        refine rules.idleHarmless.ask (c := .createNew (paths.backup random)) holds
          fun choice a v u holds _ acts => ?_
        simp only [publishAct] at acts
        split at acts
        · next free _ =>
          obtain ⟨rfl, rfl⟩ := Prod.mk.inj (Option.some.inj acts)
          have marks := rules.reserves v random candidate destination holds free
          have harmless := rules.markedHarmless (paths.backup random) v.nextFile
          have named : (v.marked (paths.backup random)).names (paths.backup random) = some v.nextFile :=
            Function.update_self ..
          have older := harmless.fresh _ marks
          have keeps := harmless.holding older v.nextFile
          refine Ensures.bind ((keeps.queryHandle (harmless.begins marks named)).mono fun r u queried => ?_)
          cases r with
          | error e =>
            refine keeps.close queried.1 fun x inside => ?_
            have after := harmless.closed x _ inside.1 older
            refine harmless.ask (c := .deleteFile (paths.backup random)) after
              fun choice a x y holds allowed acts => ?_
            have idle : rules.idle y := by
              simp only [publishAct] at acts
              split at acts
              · obtain ⟨-, rfl⟩ := Prod.mk.inj (Option.some.inj acts)
                exact rules.unreserves _ _ x holds allowed
              · obtain ⟨-, rfl⟩ := Prod.mk.inj (Option.some.inj acts)
                exact rules.forgets _ _ _ holds
              · cases acts
            exact rules.unreserved idle
          | ok info =>
            refine keeps.close queried.1 fun x inside => ?_
            have after := harmless.closed x _ inside.1 older
            refine harmless.done after fun y later => ⟨fun e same => (by cases same), fun b info' same => ?_⟩
            obtain ⟨rfl, rfl⟩ := Prod.mk.inj (Except.ok.inj same)
            exact ⟨v.nextFile, queried.2 info v.nextFile rfl fun z known => known.2.1, later⟩
        · obtain ⟨rfl, rfl⟩ := Prod.mk.inj (Option.some.inj acts)
          simp only
          split_ifs
          · exact ih holds
          · exact rules.unreserved holds
        · cases acts

/-- What holds where the old destination has been recovered, or only
retained. -/
structure Recovered (moved : Bool) (x : PublishHeld Path) (retained : Bool) (w : PublishWorld Path) : Prop where
  failed : retained = true → rules.failed moved x w
  back : retained = false → rules.failed false x w

theorem retain {x : PublishHeld Path} {moved : Bool} (start : rules.failed moved x w) :
    PublishEnsures others meets always (Pure.pure true) (rules.Recovered moved x) w :=
  (rules.failedHarmless moved x).done start fun _ holds => ⟨fun _ => holds, nofun⟩

/-- The test of the destination may tell that it still holds the old file,
and keeps it. -/
theorem recoverAtDestination {x : PublishHeld Path} {moved : Bool} {held : PublishFileInfo}
    (known : held.identity.Of x.file) (start : rules.failed moved x w) :
    PublishEnsures others meets always (recoverAtDestination paths.destination held)
      (rules.Recovered moved x) w := by
  have harmless := rules.failedHarmless moved x
  refine Ensures.bind ((harmless.probePath paths.destination start).mono fun r u probed => ?_)
  cases r with
  | error e => exact rules.retain probed.1
  | absent => exact rules.retain probed.1
  | present current =>
    refine harmless.done probed.1 fun v holds => ⟨fun _ => holds, fun recovered => ?_⟩
    simp only [Bool.not_eq_false', Bool.and_eq_true] at recovered
    obtain ⟨y, f, before, named, ofFile⟩ := probed.2 current rfl
    rw [sameIdentityValue_of recovered.2 ofFile known] at named
    exact rules.there moved x y v before named holds

/-- Behind a failed replacement the old file is looked for at the backup
first, and moved back where the destination is free. In doubt the answer is
that it could only be retained. -/
theorem recoverReplaceFailure {x : PublishHeld Path} {moved : Bool} {marker : PublishFileInfo}
    (ofMarker : marker.identity.Of x.marker) (start : rules.failed moved x w) :
    PublishEnsures others meets always (recoverReplaceFailure x.handle x.backup paths.destination marker)
      (rules.Recovered moved x) w := by
  have harmless := rules.failedHarmless moved x
  refine Ensures.bind ((harmless.queryHandle start).mono fun r u queried => ?_)
  cases r with
  | error e => exact rules.retain queried.1
  | ok held =>
    have ofHeld := queried.2 held x.file rfl (rules.retained moved x)
    simp only
    split_ifs
    · exact rules.retain queried.1
    refine Ensures.bind ((harmless.probePath x.backup queried.1).mono fun r u probed => ?_)
    cases r with
    | error e => exact rules.retain probed.1
    | absent => exact rules.recoverAtDestination ofHeld probed.1
    | present current =>
      simp only
      split_ifs with irregular same unknown
      · exact rules.retain probed.1
      · obtain ⟨y, f, before, named, ofFile⟩ := probed.2 current rfl
        rw [sameIdentityValue_of same ofFile ofHeld] at named
        refine Ensures.bind ((harmless.probePath paths.destination probed.1).mono fun r u probed => ?_)
        cases r with
        | error e => exact rules.retain probed.1
        | present info => exact rules.retain probed.1
        | absent =>
          refine harmless.ask (c := .moveFile x.backup paths.destination) probed.1
            fun choice a v u holds _ acts => ?_
          simp only [publishAct] at acts
          split at acts
          · next g _ free _ =>
            obtain ⟨rfl, rfl⟩ := Prod.mk.inj (Option.some.inj acts)
            exact (rules.failedHarmless false x).done (rules.restores moved x y v before named holds free)
              fun z later => ⟨fun kept => Bool.noConfusion kept, fun _ => later⟩
          · obtain ⟨rfl, rfl⟩ := Prod.mk.inj (Option.some.inj acts)
            exact rules.retain holds
          · cases acts
      · exact rules.retain probed.1
      · refine Ensures.bind ((harmless.deleteIdentity ofMarker (fun v h holds older has =>
          rules.failedDiscards moved x v h holds older has) probed.1).mono fun _ v deleted => ?_)
        refine Ensures.bind ((harmless.probePath x.backup deleted).mono fun r u probed => ?_)
        cases r with
        | error e => exact rules.retain probed.1
        | present info => exact rules.retain probed.1
        | absent => exact rules.recoverAtDestination ofHeld probed.1

/-- A marker is deleted by a handle whose file was compared with it, so no
other file can go in its place. -/
theorem deleteMarker {α : Type} {backup : Path} {m : FileId} {marker : PublishFileInfo}
    (ofMarker : marker.identity.Of m)
    {next : Bool → PublishProg Path α} {post : α → PublishWorld Path → Prop} (start : rules.marked backup m w)
    (later : ∀ b v, rules.idle v → PublishEnsures others meets always (next b) post v) :
    PublishEnsures others meets always (deleteIdentity backup marker >>= next) post w :=
  Ensures.bind (((rules.markedHarmless backup m).deleteIdentity ofMarker
    (fun v h holds _ has => rules.discards backup m v h holds has) start).mono
    fun b v holds => later b v (rules.forgets backup m v holds))

/-- One replacement: the call, and where it fails the recovery, in every
state that the call may leave behind. -/
theorem publishReplace {x : PublishHeld Path} {marker final : PublishFileInfo}
    (ofMarker : marker.identity.Of x.marker)
    (start : rules.held x w) :
    PublishEnsures others meets always (publishReplace paths x.backup marker final x.handle) rules.After w := by
  have harmless := rules.heldHarmless x
  refine Ensures.bind ((harmless.queryHandle start).mono fun r u queried => ?_)
  cases r with
  | error e =>
    refine harmless.close queried.1 fun v holds => rules.deleteMarker ofMarker (rules.releases x v holds)
      fun _ v idle => ?_
    exact rules.stop (rules.refuses v _ idle)
  | ok held =>
    simp only
    split_ifs
    · refine harmless.close queried.1 fun v holds => rules.deleteMarker ofMarker (rules.releases x v holds)
        fun _ v idle => ?_
      exact rules.again idle
    refine harmless.ask (c := .replaceFile paths.destination paths.candidate x.backup) queried.1
      fun choice a v u holds allowed acts => ?_
    cases a with
    | ok done =>
      have replaces := rules.replaces x v choice u holds allowed acts
      have keeps := rules.replacedHarmless x
      refine Ensures.bind ((keeps.deleteOpenHandle (rules.deletes x) replaces).mono fun _ v deleted => ?_)
      refine keeps.close deleted fun y holds => ?_
      exact rules.stop (rules.finishes x y holds)
    | error e =>
      obtain ⟨moved, failed⟩ := rules.fails x v choice e u holds allowed acts
      refine Ensures.bind ((rules.recoverReplaceFailure ofMarker failed).mono fun retained y recovered => ?_)
      cases retained with
      | true =>
        refine (rules.failedHarmless moved x).close (recovered.failed rfl) fun z holds => ?_
        simp only [Bool.not_true, Bool.and_false]
        exact rules.stop (rules.stops moved x z _ holds)
      | false =>
        refine (rules.failedHarmless false x).close (recovered.back rfl) fun z holds => ?_
        by_cases missing : missingError e = true
        · simp only [missing, Bool.not_false, Bool.and_self, if_true]
          exact rules.again (rules.resumes x z holds)
        · simp only [missing, Bool.false_and, Bool.false_eq_true, if_false]
          exact rules.stop (rules.stops false x z _ holds)

/-- Over an existing destination: the marker, the last checks and the replacement.
-/
theorem publishOver {original old marker : PublishFileInfo} {backup : Path} {m : FileId}
    (ofMarker : marker.identity.Of m) (start : rules.marked backup m w) :
    PublishEnsures others meets always (publishOver paths original old backup marker) rules.After w := by
  have harmless := rules.markedHarmless backup m
  refine Ensures.bind ((harmless.checkCandidate paths.candidate (some original) start).mono fun r u checked => ?_)
  cases r with
  | error e => exact rules.deleteMarker ofMarker checked.1 fun _ v idle => rules.stop (rules.refuses v e idle)
  | ok current =>
    refine Ensures.bind ((harmless.checkDestination paths.destination checked.1).mono fun r u found => ?_)
    cases r with
    | error e => exact rules.deleteMarker ofMarker found.1 fun _ v idle => rules.stop (rules.refuses v e idle)
    | ok final =>
      cases final with
      | none => exact rules.deleteMarker ofMarker found.1 fun _ v idle => rules.again idle
      | some final =>
        simp only
        split_ifs
        · exact rules.deleteMarker ofMarker found.1 fun _ v idle => rules.again idle
        refine harmless.openExisting found.1 (fun e v holds => ?_) fun v f holds named => ?_
        · refine rules.deleteMarker ofMarker holds fun _ v idle => ?_
          split_ifs
          · exact rules.again idle
          · exact rules.stop (rules.refuses v _ idle)
        · exact rules.publishReplace (x := ⟨backup, m, v.nextHandle, f⟩) ofMarker
            (rules.retains backup m v f holds named)

/-- One attempt, whichever of its branches it takes. -/
theorem publishAttempt {original parent : PublishFileInfo} (start : rules.idle w) :
    PublishEnsures others meets always (publishAttempt paths original parent) rules.After w := by
  have harmless := rules.idleHarmless
  refine Ensures.bind ((harmless.checkCandidate paths.candidate (some original) start).mono fun r u checked => ?_)
  cases r with
  | error e => exact rules.stop (rules.refuses u e checked.1)
  | ok current =>
    refine Ensures.bind ((harmless.checkDestination paths.destination checked.1).mono fun r u found => ?_)
    cases r with
    | error e => exact rules.stop (rules.refuses u e found.1)
    | ok old =>
      cases old with
      | none =>
        refine harmless.ask (c := .moveFile paths.candidate paths.destination) found.1
          fun choice a v u holds _ acts => ?_
        simp only [publishAct] at acts
        split at acts
        · next f named free _ =>
          obtain ⟨rfl, rfl⟩ := Prod.mk.inj (Option.some.inj acts)
          exact rules.stop (rules.moves v f holds named free)
        · obtain ⟨rfl, rfl⟩ := Prod.mk.inj (Option.some.inj acts)
          simp only
          split_ifs
          · exact rules.again holds
          · exact rules.stop (rules.refuses _ _ holds)
        · cases acts
      | some old =>
        simp only
        split_ifs
        · exact rules.stop (rules.refuses u _ found.1)
        · exact rules.stop (rules.refuses u _ found.1)
        refine Ensures.bind ((rules.backupMarker 16 (checked.2 current rfl) (found.2 old rfl) found.1).mono
          fun r u reserved => ?_)
        cases r with
        | error e => exact rules.stop (rules.refuses u e (reserved.error e rfl))
        | ok backup =>
          obtain ⟨m, ofMarker, marked⟩ := reserved.marker backup.1 backup.2 rfl
          exact rules.publishOver ofMarker marked

/-- The attempts end, and the last state is one that an attempt may leave.
The induction is on the attempts that are left. -/
theorem publishAttempts {original parent : PublishFileInfo} (attempts : Nat) (start : rules.idle w) :
    PublishEnsures others meets always (publishAttempts paths original parent attempts) rules.ended w := by
  induction attempts generalizing w with
  | zero => exact rules.refuse start
  | succ attempts ih =>
    refine Ensures.bind ((rules.publishAttempt start).mono fun r u after => ?_)
    cases r with
    | none => exact ih after
    | some result => exact (rules.endedStable result).done after fun _ holds => holds

/-- A publication goes by its rules, whatever its calls answer. -/
theorem publishCmd (start : rules.idle w) :
    PublishEnsures others meets always (publishCmd paths) rules.ended w := by
  have harmless := rules.idleHarmless
  refine Ensures.bind ((harmless.checkCandidate paths.candidate none start).mono fun r u checked => ?_)
  cases r with
  | error e => exact rules.refuse checked.1
  | ok original =>
    refine Ensures.bind ((harmless.checkParent paths.candidateParent _ checked.1).mono fun r u holds => ?_)
    cases r with
    | error e => exact rules.refuse holds
    | ok _ =>
      refine Ensures.bind ((harmless.checkParent paths.destinationParent _ holds).mono fun r u holds => ?_)
      cases r with
      | error e => exact rules.refuse holds
      | ok parent =>
        simp only
        split_ifs
        · exact rules.refuse holds
        · exact rules.publishAttempts 8 holds

end PublishRules

end Machteld
