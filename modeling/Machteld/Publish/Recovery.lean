import Machteld.Publish.Report

namespace Machteld

open Host Publish PublishWorld

section

variable {Path : Type} [DecidableEq Path]

abbrev PublishScript (Path : Type) [DecidableEq Path] :=
  List ((publishAlone Path).Move ⊕ (publishAlone Path).Choice)

/-- A program that nobody interferes with is done with a script of how its
calls end. -/
abbrev PublishPlays {α : Type} (p : PublishProg Path α) (w : PublishWorld Path)
    (script : PublishScript Path) (a : α)
    (v : PublishWorld Path) : Prop := (publishAlone Path).play p w script = some (.done a, v)

/-- A `ReplaceFileW` that has failed: what the marker is known by, and what
the attempts go on with. -/
structure PublishFailure (Path : Type) extends PublishHeld Path where
  known : PublishFileInfo
  error : Nat
  original : PublishFileInfo
  parent : PublishFileInfo
  attempts : Nat

/-- What `PublishCmd` does behind it. -/
def publishFailed (paths : PublishPaths Path) (x : PublishFailure Path) : PublishProg Path (Except TclError Unit) :=
  do
  let retained ← recoverReplaceFailure x.handle x.backup paths.destination x.known
  closeHandle x.handle
  if missingError x.error && !retained then publishAttempts paths x.original x.parent x.attempts
  else
    return .error (publishWinError "cannot atomically replace the destination" x.error
      (if retained then some (paths.spell x.backup) else none))

/-- The message names a path exactly if the old destination is at the backup
name that is spelled so, and no longer at its own. -/
def PublishTruthful (paths : PublishPaths Path) (w₀ : PublishWorld Path) (e : TclError)
    (v : PublishWorld Path) : Prop :=
  ∀ path, e.NamesRecovery path ↔ ∃ f b, w₀.names paths.destination = some f ∧ v.reserved.head? = some b ∧
    path = paths.spell b ∧ v.names b = some f ∧ v.names paths.destination ≠ some f

/-- The backup name is found missing, or with the marker and missing as soon
as that has been deleted. -/
inductive PublishCleared (backup : Path) (marker : PublishFileInfo) (w : PublishWorld Path) :
    PublishScript Path → PublishWorld Path → Prop
  | missing {script : PublishScript Path} {v : PublishWorld Path}
    (probed : PublishPlays (probePath backup) w script .absent v) :
    PublishCleared backup marker w script v
  | deleted {first second third : PublishScript Path} {current : PublishFileInfo} {removed : Bool}
    {u t v : PublishWorld Path}
    (probed : PublishPlays (probePath backup) w first (.present current) u) (regular : isRegular current = true)
    (same : sameIdentity current marker = true) (deleted :
      PublishPlays (deleteIdentity backup marker) u second removed t)
    (gone : PublishPlays (probePath backup) t third .absent v) :
    PublishCleared backup marker w (first ++ (second ++ third)) v

/-- The calls of a recovery tell what the handle has, clear the backup name
and find the same at the destination. -/
def PublishClears (paths : PublishPaths Path) (x : PublishFailure Path) (w : PublishWorld Path)
    (first second third : PublishScript Path) (v : PublishWorld Path) : Prop :=
  ∃ held current u t, PublishPlays (queryHandle x.handle) w first (.ok held) u ∧ isRegular held = true ∧
    PublishCleared x.backup x.known u second t ∧ PublishPlays (probePath paths.destination) t third
      (.present current) v ∧
    isRegular current = true ∧ sameIdentity current held = true

/-- What holds behind a `ReplaceFileW` that has left both files where they
were. -/
structure PublishLeft (paths : PublishPaths Path) (w₀ : PublishWorld Path) (x : PublishFailure Path)
    (w : PublishWorld Path) :
    Prop extends PublishHeldKept paths w₀ x.toPublishHeld w where
  ofMarker : x.known.identity.Of x.marker

/-- Behind every `ReplaceFileW` of a run that has failed and left both files
where they were, the calls of the recovery clear the backup name and find
the old destination. -/
def PublishClear (paths : PublishPaths Path) (w₀ : PublishWorld Path) (p : PublishProg Path (Except TclError Unit))
    (w : PublishWorld Path) (script : PublishScript Path) : Prop :=
  ∀ before after x u, script = before ++ after → (publishAlone Path).play p w before =
    some (publishFailed paths x, u) →
    PublishLeft paths w₀ x u → ∃ first second third rest v, after = first ++ (second ++ (third ++ rest)) ∧
      PublishClears paths x u first second third v

end

section

variable {Path : Type} [DecidableEq Path] {paths : PublishPaths Path} {w₀ w v : PublishWorld Path}

theorem publishAlone_still (m : PublishMove Path) (w : PublishWorld Path) : (publishAlone Path).move m w = none :=
  rfl

theorem PublishPlays.done {α : Type} {a b : α} {script : PublishScript Path}
    (plays : PublishPlays (.done a) w script b v) : script = [] ∧ a = b ∧ w = v :=
  play_done publishAlone_still plays

omit [DecidableEq Path] in
/-- The backup name has not got the retained file. -/
theorem PublishHeldKept.backup {x : PublishHeld Path} {u : PublishWorld Path}
    (held : PublishHeldKept paths w₀ x u) :
    u.names x.backup ≠ some x.file := by
  intro named
  have marker := held.marker x.file named
  exact held.notDestination (held.destination.symm.trans (marker ▸ held.held))

/-- The test of the destination answers by one probe of it. -/
theorem recoverAtDestination_plays {held : PublishFileInfo} {retained : Bool} {script : PublishScript Path} :
    PublishPlays (recoverAtDestination paths.destination held) w script retained v ↔ ∃ probe,
      PublishPlays (probePath paths.destination) w script probe v ∧ retained = match probe with
        | .present current => !(isRegular current && sameIdentity current held)
        | _ => true := by
  constructor
  · intro plays
    obtain ⟨first, rest, probe, u, rfl, probed, last⟩ := play_bind_iff.mp plays
    refine ⟨probe, ?_⟩
    cases probe <;> obtain ⟨rfl, rfl, rfl⟩ := PublishPlays.done last <;>
      exact ⟨(List.append_nil first).symm ▸ probed, rfl⟩
  · rintro ⟨probe, probed, rfl⟩
    refine play_bind_iff.mpr ⟨script, [], probe, v, (List.append_nil script).symm, probed, ?_⟩
    cases probe <;> rfl

/-- What a handle and a name tell of a failure that has changed nothing. -/
theorem PublishLeft.queried {x : PublishFailure Path} (left : PublishLeft paths w₀ x w)
    {script : PublishScript Path}
    {r : Except Nat PublishFileInfo} (plays : PublishPlays (queryHandle x.handle) w script r v) :
    PublishLeft paths w₀ x v ∧ ∀ held, r = .ok held → held.identity.Of x.file := by
  have harmless := @PublishHeldKept.harmless _ _ paths w₀ x.toPublishHeld
  obtain ⟨kept, known⟩ := (harmless.queryHandle left.toPublishHeldKept).result (play_reaches plays)
  exact ⟨⟨kept, left.ofMarker⟩, fun held same => known held x.file same fun u holds => holds.file⟩

/-- A probe changes nothing, and what it finds is a file that was held. -/
theorem PublishLeft.probed {x : PublishFailure Path} (left : PublishLeft paths w₀ x w) {path : Path}
    {script : PublishScript Path}
    {r : PublishProbe} (plays : PublishPlays (probePath path) w script r v) :
    PublishLeft paths w₀ x v ∧ ∀ info, r = .present info → ∃ u f, PublishHeldKept paths w₀ x.toPublishHeld u ∧
      u.names path = some f ∧ info.identity.Of f := by
  have harmless := @PublishHeldKept.harmless _ _ paths w₀ x.toPublishHeld
  obtain ⟨kept, known⟩ := (harmless.probePath path left.toPublishHeldKept).result (play_reaches plays)
  exact ⟨⟨kept, left.ofMarker⟩, known⟩

/-- The file at the backup name is not the retained one. -/
theorem PublishLeft.unlike {x : PublishFailure Path} (left : PublishLeft paths w₀ x w) {script : PublishScript Path}
    {current held : PublishFileInfo} (plays : PublishPlays (probePath x.backup) w script (.present current) v)
    (known : held.identity.Of x.file) : sameIdentity current held = false := by
  refine Bool.eq_false_iff.mpr fun same => ?_
  obtain ⟨u, f, kept, named, ofFile⟩ := (left.probed plays).2 current rfl
  rw [sameIdentityValue_of same ofFile known] at named
  exact kept.backup named

/-- The marker is given up only where the destination is still the file that
was to be replaced. -/
theorem recoverAtDestination_false {held : PublishFileInfo} {script : PublishScript Path} :
    PublishPlays (recoverAtDestination paths.destination held) w script false v ↔ ∃ current,
      PublishPlays (probePath paths.destination) w script (.present current) v ∧ isRegular current = true ∧
        sameIdentity current held = true := by
  rw [recoverAtDestination_plays]
  constructor
  · rintro ⟨probe, probed, back⟩
    cases probe with
    | error e => cases back
    | absent => cases back
    | present current =>
      have both := back.symm
      simp only [Bool.not_eq_false', Bool.and_eq_true] at both
      exact ⟨current, probed, both.1, both.2⟩
  · rintro ⟨current, probed, regular, same⟩
    exact ⟨_, probed, by simp only [regular, same, Bool.and_self, Bool.not_true]⟩

/-- A recovery that finds the old destination has cleared the backup name.
-/
theorem recoverReplaceFailure_back {x : PublishFailure Path} (left : PublishLeft paths w₀ x w)
    {script : PublishScript Path}
    (plays : PublishPlays (recoverReplaceFailure x.handle x.backup paths.destination x.known) w script false v) :
    ∃ first second third, script = first ++ (second ++ third) ∧ PublishClears paths x w first second third v := by
  obtain ⟨first, rest, r, u, rfl, queried, plays⟩ := play_bind_iff.mp plays
  cases r with
  | error e => cases (PublishPlays.done plays).2.1
  | ok held =>
    have known := (left.queried queried).2 held rfl
    have left := (left.queried queried).1
    dsimp only at plays
    split_ifs at plays with irregular
    · cases (PublishPlays.done plays).2.1
    have regular : isRegular held = true := by simpa only [Bool.not_eq_true', Bool.not_eq_false] using irregular
    obtain ⟨second, rest, r, t, rfl, probed, plays⟩ := play_bind_iff.mp plays
    cases r with
    | error e => cases (PublishPlays.done plays).2.1
    | absent =>
      obtain ⟨current, found, whole, same⟩ := recoverAtDestination_false.mp plays
      exact ⟨first, second, rest, rfl, held, current, u, t, queried, regular, .missing probed, found, whole, same⟩
    | present current =>
      have unlike := left.unlike probed known
      dsimp only at plays
      split_ifs at plays with irregular other marker
      · cases (PublishPlays.done plays).2.1
      · exact absurd (other.symm.trans unlike) Bool.noConfusion
      · cases (PublishPlays.done plays).2.1
      · obtain ⟨third, rest, removed, t', rfl, deleted, plays⟩ := play_bind_iff.mp plays
        obtain ⟨fourth, rest, r, v', rfl, gone, plays⟩ := play_bind_iff.mp plays
        cases r with
        | error e => cases (PublishPlays.done plays).2.1
        | present info => cases (PublishPlays.done plays).2.1
        | absent =>
          obtain ⟨found, last, whole, same⟩ := recoverAtDestination_false.mp plays
          have isMarker : sameIdentity current x.known = true := by
            simpa only [Bool.not_eq_true', Bool.not_eq_false] using marker
          have isRegular' : isRegular current = true := by
            simpa only [Bool.not_eq_true', Bool.not_eq_false] using irregular
          refine ⟨first, second ++ (third ++ fourth), rest, ?_, held, found, u, v', queried, regular,
            .deleted probed isRegular' isMarker deleted gone, last, whole, same⟩
          rw [@List.append_assoc _ second, @List.append_assoc _ third]

/-- Where the calls clear the backup name and find the old destination, that
is what the recovery says. -/
theorem PublishClears.recovers {x : PublishFailure Path} (left : PublishLeft paths w₀ x w)
    {first second third : PublishScript Path} (clears : PublishClears paths x w first second third v) :
    PublishPlays (recoverReplaceFailure x.handle x.backup paths.destination x.known) w
      (first ++ (second ++ third)) false v := by
  obtain ⟨held, current, u, t, queried, regular, cleared, found, whole, same⟩ := clears
  have known := (left.queried queried).2 held rfl
  have left := (left.queried queried).1
  refine play_bind_iff.mpr ⟨first, _, _, u, rfl, queried, ?_⟩
  have there := recoverAtDestination_false.mpr ⟨current, found, whole, same⟩
  dsimp only
  rw [regular, if_neg Bool.noConfusion]
  cases cleared with
  | missing probed => exact play_bind_iff.mpr ⟨second, third, _, t, rfl, probed, there⟩
  | @deleted a b c marker removed s s' _ probed isRegular' isMarker deleted gone =>
    have unlike := left.unlike probed known
    rw [List.append_assoc]
    refine play_bind_iff.mpr ⟨a, _, _, s, rfl, probed, ?_⟩
    dsimp only
    rw [isRegular', unlike, isMarker, if_neg Bool.noConfusion, if_neg Bool.noConfusion, if_neg Bool.noConfusion,
      List.append_assoc]
    exact play_bind_iff.mpr ⟨b, _, removed, s', rfl, deleted, play_bind_iff.mpr ⟨c, third, _, t, rfl, gone, there⟩⟩

end

end Machteld
