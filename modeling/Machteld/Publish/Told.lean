import Machteld.Publish.Recovery

namespace Machteld

open Host Publish PublishWorld

section

variable {Path : Type} [DecidableEq Path]

/-- An error is told truthfully in every run where the recoveries are clear.
-/
def PublishTells (paths : PublishPaths Path) (w₀ : PublishWorld Path) (p : PublishProg Path (Except TclError Unit))
    (w : PublishWorld Path) : Prop :=
  ∀ script e v, PublishPlays p w script (.error e) v → PublishClear paths w₀ p w script →
    PublishTruthful paths w₀ e v

/-- What follows an attempt. -/
def publishNext (paths : PublishPaths Path) (original parent : PublishFileInfo) (attempts : Nat) :
    PublishAttempt → PublishProg Path (Except TclError Unit)
  | some result => Pure.pure result
  | none => publishAttempts paths original parent attempts

end

section

variable {Path : Type} [DecidableEq Path] {paths : PublishPaths Path} {w₀ w v : PublishWorld Path}

omit [DecidableEq Path] in
theorem PublishKept.truthful (kept : PublishKept paths w₀ w) {e : TclError} (quiet : e.Quiet) :
    PublishTruthful paths w₀ e w := by
  refine fun path => iff_of_false (quiet.unnamed path) ?_
  rintro ⟨f, b, old, -, -, -, other⟩
  exact other (kept.destination.trans old)

omit [DecidableEq Path] in
/-- An error that names the backup tells where the old file is. -/
theorem PublishMoved.truthful {x : PublishHeld Path} (moved : PublishMoved paths w₀ x w) {message : String}
    (plain : 0x3B ∉ ascii message) (error : Nat) :
    PublishTruthful paths w₀ (publishWinError message error (some (paths.spell x.backup))) w := by
  intro path
  rw [publishWinError_names plain]
  obtain ⟨_, _, reserved⟩ := moved.reserved
  constructor
  · rintro rfl
    refine ⟨x.file, x.backup, moved.before, reserved, rfl, moved.held, fun there => ?_⟩
    cases moved.gone.symm.trans there
  · rintro ⟨f, b, -, last, rfl, -, -⟩
    rw [Option.some.inj (reserved.symm.trans last)]

omit [DecidableEq Path] in
theorem PublishKept.untruthful (kept : PublishKept paths w₀ w) {message : String}
    (plain : 0x3B ∉ ascii message) (error : Nat)
    (recovery : Bytes) : ¬ PublishTruthful paths w₀ (publishWinError message error (some recovery)) w := by
  intro truthful
  obtain ⟨f, b, old, -, -, -, other⟩ :=
    (truthful recovery).mp ((publishWinError_names plain error recovery recovery).mpr rfl)
  exact other (kept.destination.trans old)

/-- What no other program touches over a script it does not touch over the
rest of it. -/
theorem PublishClear.rest {p q : PublishProg Path (Except TclError Unit)} {before after : PublishScript Path}
    (played : (publishAlone Path).play p w before = some (q, v))
    (clear : PublishClear paths w₀ p w (before ++ after)) :
    PublishClear paths w₀ q v after := by
  intro front back x u same reached left
  have whole := @play_append _ _ (publishAlone Path) _ p w before front
  rw [played] at whole
  refine clear (before ++ front) back x u ?_ (whole.trans reached) left
  rw [same, List.append_assoc]

/-- A part that keeps its invariant may stand before one that tells the
truth. So the proof goes through a command from its front. -/
theorem PublishTells.bind {α : Type} {p : PublishProg Path α} {f : α → PublishProg Path (Except TclError Unit)}
    {post : α → PublishWorld Path → Prop}
    (ensures : PublishEnsures false (fun _ _ _ => true) (fun _ => True) p post w)
    (tells : ∀ a u, post a u → PublishTells paths w₀ (f a) u) : PublishTells paths w₀ (p.bind f) w := by
  intro script e v plays clear
  obtain ⟨first, rest, a, u, rfl, own, later⟩ := play_bind_iff.mp plays
  have after : PublishClear paths w₀ (f a) u rest := PublishClear.rest (play_bind own) clear
  exact tells a u (ensures.result (play_reaches own)) rest e v later after

theorem PublishTells.seq {α β : Type} {p : PublishProg Path α} {g : α → PublishProg Path β}
    {f : β → PublishProg Path (Except TclError Unit)} {post : α → PublishWorld Path → Prop}
    (ensures : PublishEnsures false (fun _ _ _ => true) (fun _ => True) p post w)
    (tells : ∀ a u, post a u → PublishTells paths w₀ ((g a).bind f) u) :
    PublishTells paths w₀ ((p.bind g).bind f) w := by
  rw [Prog.bind_assoc]
  exact PublishTells.bind ensures tells

/-- One call, and what follows each of its ends. -/
theorem PublishTells.call {c : PublishCall Path} {next : c.Answer → PublishProg Path (Except TclError Unit)}
    (tells : ∀ choice a u, publishAct c choice w = some (a, u) → PublishTells paths w₀ (next a) u) :
    PublishTells paths w₀ (.call c next) w := by
  intro script e v plays clear
  cases script with
  | nil => cases plays
  | cons event script =>
    cases event with
    | inl m => cases plays
    | inr choice =>
      obtain ⟨⟨a, u⟩, acts, rest⟩ := Option.bind_eq_some_iff.mp plays
      have first : (publishAlone Path).play (.call c next) w [.inr choice] = some (next a, u) :=
        Option.bind_eq_some_iff.mpr ⟨(a, u), acts, rfl⟩
      have front : PublishClear paths w₀ (.call c next) w ([.inr choice] ++ script) := clear
      exact tells choice a u (publishHost_act acts).2 script e v rest (PublishClear.rest first front)

theorem PublishTells.refuse {e : TclError} (quiet : e.Quiet) (kept : PublishKept paths w₀ w) :
    PublishTells paths w₀ (.done (.error e)) w := by
  intro script e' v plays _
  obtain ⟨-, same, rfl⟩ := PublishPlays.done plays
  obtain rfl := Except.error.inj same
  exact kept.truthful quiet

theorem PublishTells.good {p : PublishProg Path (Except TclError Unit)} (ends : p.Ends fun r => r = .ok ()) :
    PublishTells paths w₀ p w := by
  intro script e v plays _
  have good : (.error e : Except TclError Unit) = .ok () := play_ends ends plays
  cases good

/-- A check, which refuses with a message that names no path. -/
theorem PublishTells.check {α β : Type} {p : PublishProg Path (Except TclError α)}
    {g : Except TclError α → PublishProg Path β}
    {f : β → PublishProg Path (Except TclError Unit)} {post : Except TclError α → PublishWorld Path → Prop}
    (ensures : PublishEnsures false (fun _ _ _ => true) (fun _ => True) p post w) (quiet : p.Ends QuietResult)
    (refused : ∀ e u, e.Quiet → post (.error e) u → PublishTells paths w₀ ((g (.error e)).bind f) u)
    (accepted : ∀ a u, post (.ok a) u → PublishTells paths w₀ ((g (.ok a)).bind f) u) :
    PublishTells paths w₀ ((p.bind g).bind f) w := by
  rw [Prog.bind_assoc]
  intro script e v plays clear
  obtain ⟨first, rest, r, u, rfl, own, later⟩ := play_bind_iff.mp plays
  have reached : (publishAlone Path).play (p.bind fun a => (g a).bind f) w first = some ((g r).bind f, u) :=
    play_bind own
  have after := PublishClear.rest reached clear
  have known := ensures.result (play_reaches own)
  have silent : QuietResult r := play_ends quiet own
  cases r with
  | error e' => exact refused e' u (silent e' rfl) known rest e v later after
  | ok a => exact accepted a u known rest e v later after

/-- What a recovery leaves. -/
theorem recoverReplaceFailure_leaves (moved : Bool) {x : PublishFailure Path} {retained : Bool}
    {script : PublishScript Path}
    (ofMarker : x.known.identity.Of x.marker) (failed : PublishFailed paths w₀ moved x.toPublishHeld w)
    (plays : PublishPlays (recoverReplaceFailure x.handle x.backup paths.destination x.known) w script retained v) :
    (retained = true → PublishFailed paths w₀ moved x.toPublishHeld v) ∧
      (retained = false → PublishHeldKept paths w₀ x.toPublishHeld v) := by
  have recovered := ((publishKeptRules paths w₀).recoverReplaceFailure ofMarker failed).result (play_reaches plays)
  exact ⟨recovered.failed, recovered.back⟩

/-- How `PublishCmd` goes on behind a recovery. -/
def publishRecovered (paths : PublishPaths Path) (x : PublishFailure Path) (retained : Bool) :
    PublishProg Path (Except TclError Unit) :=
  if missingError x.error && !retained then publishAttempts paths x.original x.parent x.attempts
  else
    .done (.error (publishWinError "cannot atomically replace the destination" x.error
      (if retained then some (paths.spell x.backup) else none)))

theorem replaceText : 0x3B ∉ ascii "cannot atomically replace the destination" := plainText _ (by decide)

/-- The script of a failure is one of the recovery, the end of the handle
and one of the rest. -/
theorem publishFailed_plays {x : PublishFailure Path} {script : PublishScript Path} {r : Except TclError Unit}
    (plays : PublishPlays (publishFailed paths x) w script r v) :
    ∃ first last rest retained u, script = first ++ last ++ rest ∧
      PublishPlays (recoverReplaceFailure x.handle x.backup paths.destination x.known) w first retained u ∧
      (publishAlone Path).play (publishFailed paths x) w (first ++ last) =
        some (publishRecovered paths x retained, u.closed x.handle) ∧
      PublishPlays (publishRecovered paths x retained) (u.closed x.handle) rest r v := by
  obtain ⟨first, later, retained, u, rfl, own, after⟩ := play_bind_iff.mp plays
  cases later with
  | nil => cases after
  | cons event rest =>
    cases event with
    | inl m => cases after
    | inr choice =>
      refine ⟨first, [.inr choice], rest, retained, u, List.append_cons first _ rest, own, ?_, after⟩
      have whole := @play_append _ _ (publishAlone Path) _ (publishFailed paths x) w first [.inr choice]
      have reached := @play_bind _ _ (publishAlone Path) _ _ _ _ (fun retained => Prog.call (.closeHandle x.handle)
        fun _ => publishRecovered paths x retained) _ _ _ own
      refine whole.trans ?_
      rw [show (publishAlone Path).play (publishFailed paths x) w first = _ from reached]
      rfl

omit [DecidableEq Path] in
theorem PublishHeldKept.kept {x : PublishHeld Path} (held : PublishHeldKept paths w₀ x w) :
    PublishKept paths w₀ (w.closed x.handle) := held.toPublishMarked.toPublishKept.closed x.handle

theorem PublishKept.recovered {x : PublishFailure Path} (kept : PublishKept paths w₀ w)
    (again : ∀ u, PublishKept paths w₀ u → PublishTells paths w₀
      (publishAttempts paths x.original x.parent x.attempts) u) :
    PublishTells paths w₀ (publishRecovered paths x false) w := by
  unfold publishRecovered
  rw [if_neg Bool.false_ne_true]
  split
  · exact again w kept
  · exact PublishTells.refuse (publishWinError_quiet replaceText x.error) kept

/-- Behind a failure that has changed nothing, the truth is told where the
recovery is clear. -/
theorem PublishLeft.tells {x : PublishFailure Path} (left : PublishLeft paths w₀ x w)
    (again : ∀ u, PublishKept paths w₀ u → PublishTells paths w₀
      (publishAttempts paths x.original x.parent x.attempts) u) :
    PublishTells paths w₀ (publishFailed paths x) w := by
  intro script e v plays clear
  obtain ⟨first, last, rest, retained, u, rfl, own, reached, after⟩ := publishFailed_plays plays
  obtain ⟨a, b, c, d, t, same, clears⟩ := clear [] (first ++ last ++ rest) x w rfl rfl left
  have same : first ++ (last ++ rest) = a ++ (b ++ c) ++ d := by
    rw [← List.append_assoc, same, List.append_assoc, List.append_assoc]
  obtain ⟨-, rfl, -⟩ := play_unique publishAlone_still own (clears.recovers left) same
  have kept := ((recoverReplaceFailure_leaves false left.ofMarker left.toPublishHeldKept own).2 rfl).kept
  exact kept.recovered again rest e v after (PublishClear.rest reached clear)

/-- Behind a failure that has moved the old destination, the truth is told.
-/
theorem PublishMoved.tells {x : PublishFailure Path} (moved : PublishMoved paths w₀ x.toPublishHeld w)
    (ofMarker : x.known.identity.Of x.marker)
    (again : ∀ u, PublishKept paths w₀ u → PublishTells paths w₀
      (publishAttempts paths x.original x.parent x.attempts) u) :
    PublishTells paths w₀ (publishFailed paths x) w := by
  intro script e v plays clear
  obtain ⟨first, last, rest, retained, u, rfl, own, reached, after⟩ := publishFailed_plays plays
  have leaves := recoverReplaceFailure_leaves true ofMarker moved own
  cases retained with
  | false => exact (leaves.2 rfl).kept.recovered again rest e v after (PublishClear.rest reached clear)
  | true =>
    have still : PublishMoved paths w₀ x.toPublishHeld u := leaves.1 rfl
    have named : publishRecovered paths x true = .done
      (.error (publishWinError "cannot atomically replace the destination"
        x.error (some (paths.spell x.backup)))) := by
      rw [publishRecovered, Bool.not_true, Bool.and_false]
      rfl
    rw [named] at after
    obtain ⟨-, same, rfl⟩ := PublishPlays.done after
    obtain rfl := Except.error.inj same
    exact (still.closed x.handle).truthful replaceText x.error

theorem PublishTells.close {β : Type} {h : Nat} {g : Unit → PublishProg Path β}
    {f : β → PublishProg Path (Except TclError Unit)} (tells : PublishTells paths w₀ ((g ()).bind f) (w.closed h)) :
    PublishTells paths w₀ ((closeHandle h >>= g).bind f) w :=
  PublishTells.call (c := .closeHandle h) fun _ _ _ acts => by
    obtain ⟨-, rfl⟩ := Prod.mk.inj (Option.some.inj acts)
    exact tells

/-- What a deleted marker leaves. -/
theorem deleteIdentity_ensures {backup : Path} {m : FileId} {marker : PublishFileInfo}
    (ofMarker : marker.identity.Of m)
    (marked : PublishMarked paths w₀ backup m w) :
    PublishEnsures false (fun _ _ _ => true) (fun _ => True) (deleteIdentity backup marker)
      (fun _ u => PublishKept paths w₀ u) w :=
  (PublishMarked.harmless.deleteIdentity ofMarker (fun _ _ holds _ has => holds.discard has) marked).mono
    fun _ _ holds => holds.toPublishKept

omit [DecidableEq Path] in
theorem publishReplace_eq {x : PublishFailure Path} :
    (do
      let retained ← recoverReplaceFailure x.handle x.backup paths.destination x.known
      closeHandle x.handle
      if missingError x.error && !retained then return none
      else
        return some (.error (publishWinError "cannot atomically replace the destination" x.error
          (if retained then some (paths.spell x.backup) else none))) : PublishProg Path PublishAttempt).bind
      (publishNext paths x.original x.parent x.attempts) = publishFailed paths x := by
  refine (Prog.bind_assoc ..).trans (congrArg (Prog.bind _) (funext fun retained => ?_))
  refine congrArg (Prog.call _) (funext fun _ => ?_)
  change Prog.bind (ite _ _ _) _ = ite _ _ _
  split <;> rfl

variable {original parent : PublishFileInfo} {attempts : Nat}

/-- A marker is deleted, and there is another attempt or none. -/
theorem PublishMarked.deletes {backup : Path} {m : FileId} {marker : PublishFileInfo}
    (marked : PublishMarked paths w₀ backup m w)
    (ofMarker : marker.identity.Of m) {g : Bool → PublishProg Path PublishAttempt}
    (tells : ∀ b u, PublishKept paths w₀ u → PublishTells paths w₀
      ((g b).bind (publishNext paths original parent attempts)) u) :
    PublishTells paths w₀ ((deleteIdentity backup marker >>= g).bind
      (publishNext paths original parent attempts)) w :=
  PublishTells.seq (deleteIdentity_ensures ofMarker marked) tells

section

variable (again : ∀ u, PublishKept paths w₀ u → PublishTells paths w₀
  (publishAttempts paths original parent attempts) u)

include again

/-- What a replacement reports of recovery is so, in every state that the
call may leave. -/
theorem publishReplace_tells {x : PublishHeld Path} {marker final : PublishFileInfo}
    (ofMarker : marker.identity.Of x.marker)
    (start : PublishHeldKept paths w₀ x w) :
    PublishTells paths w₀
      ((publishReplace paths x.backup marker final x.handle).bind
        (publishNext paths original parent attempts)) w := by
  have harmless := @PublishHeldKept.harmless _ _ paths w₀ x
  refine PublishTells.seq (harmless.queryHandle start) fun r u queried => ?_
  have released := queried.1.toPublishMarked.closed x.handle
  cases r with
  | error e =>
    refine PublishTells.close (released.deletes ofMarker fun _ v kept => ?_)
    exact PublishTells.refuse (publishWinError_quiet (plainText _ (by decide)) e) kept
  | ok held =>
    dsimp only
    split_ifs
    · exact PublishTells.close (released.deletes ofMarker fun _ v kept => again v kept)
    refine PublishTells.call (c := .replaceFile paths.destination paths.candidate x.backup)
      fun choice a v acts => ?_
    cases a with
    | ok done =>
      change PublishTells paths w₀ (Prog.bind (deleteOpenHandle x.handle >>=
        fun _ => closeHandle x.handle >>= fun _ =>
        Pure.pure (some (Except.ok ()))) _) v
      refine PublishTells.good (Prog.Ends.bind ?_)
      refine Prog.Ends.bind (Prog.Ends.of_all _ fun _ => Prog.Ends.bind (Prog.Ends.of_all _ fun _ => ?_))
      exact rfl
    | error e =>
      have same := @publishReplace_eq _ paths ⟨x, marker, e, original, parent, attempts⟩
      refine same ▸ ?_
      obtain ⟨moved, failed⟩ := (publishKeptRules paths w₀).fails x u choice e v queried.1 rfl acts
      cases moved with
      | false => exact PublishLeft.tells ⟨failed, ofMarker⟩ again
      | true => exact PublishMoved.tells failed ofMarker again

/-- The same for the whole branch over an existing destination. -/
theorem publishOver_tells {old marker : PublishFileInfo} {backup : Path} {m : FileId}
    (ofMarker : marker.identity.Of m)
    (start : PublishMarked paths w₀ backup m w) :
    PublishTells paths w₀
      ((publishOver paths original old backup marker).bind (publishNext paths original parent attempts)) w := by
  have harmless := @PublishMarked.harmless _ _ paths w₀ backup m
  refine PublishTells.check (harmless.checkCandidate paths.candidate (some original) start)
    (checkCandidate_quiet ..)
    (fun e u quiet checked => ?_) fun current u checked => ?_
  · exact checked.1.deletes ofMarker fun _ v kept => PublishTells.refuse quiet kept
  refine PublishTells.check (harmless.checkDestination paths.destination checked.1) (checkDestination_quiet ..)
    (fun e u quiet found => ?_) fun final u found => ?_
  · exact found.1.deletes ofMarker fun _ v kept => PublishTells.refuse quiet kept
  cases final with
  | none => exact found.1.deletes ofMarker fun _ v kept => again v kept
  | some final =>
    dsimp only
    split_ifs
    · exact found.1.deletes ofMarker fun _ v kept => again v kept
    refine PublishTells.call (c := .openExisting paths.destination) fun choice a v acts => ?_
    simp only [publishAct] at acts
    split at acts
    · next f named =>
      obtain ⟨rfl, rfl⟩ := Prod.mk.inj (Option.some.inj acts)
      exact publishReplace_tells again (x := ⟨backup, m, u.nextHandle, f⟩) ofMarker
        ((publishKeptRules paths w₀).retains backup m u f found.1 named)
    · obtain ⟨rfl, rfl⟩ := Prod.mk.inj (Option.some.inj acts)
      refine found.1.deletes ofMarker fun _ v kept => ?_
      split_ifs
      · exact again v kept
      · exact PublishTells.refuse (publishWinError_quiet (plainText _ (by decide)) _) kept
    · cases acts

/-- The same for one attempt. -/
theorem publishAttempt_tells (start : PublishKept paths w₀ w) :
    PublishTells paths w₀ ((publishAttempt paths original parent).bind
      (publishNext paths original parent attempts)) w := by
  have harmless := @PublishKept.harmless _ _ paths w₀
  refine PublishTells.check (harmless.checkCandidate paths.candidate (some original) start)
    (checkCandidate_quiet ..)
    (fun e u quiet checked => PublishTells.refuse quiet checked.1) fun current u checked => ?_
  refine PublishTells.check (harmless.checkDestination paths.destination checked.1) (checkDestination_quiet ..)
    (fun e u quiet found => PublishTells.refuse quiet found.1) fun old u found => ?_
  cases old with
  | none =>
    refine PublishTells.call (c := .moveFile paths.candidate paths.destination) fun choice a v acts => ?_
    simp only [publishAct] at acts
    split at acts
    · obtain ⟨rfl, rfl⟩ := Prod.mk.inj (Option.some.inj acts)
      exact PublishTells.good rfl
    · obtain ⟨rfl, rfl⟩ := Prod.mk.inj (Option.some.inj acts)
      change PublishTells paths w₀ (Prog.bind (ite (existsError _ = true) _ _) _) u
      split_ifs
      · exact again u found.1
      · exact PublishTells.refuse (publishWinError_quiet (plainText _ (by decide)) _) found.1
    · cases acts
  | some old =>
    dsimp only
    split_ifs
    · exact PublishTells.refuse (publishError_quiet (plainText _ (by decide))) found.1
    · exact PublishTells.refuse (publishError_quiet (plainText _ (by decide))) found.1
    have reserves := (publishKeptRules paths w₀).backupMarker 16 (checked.2 current rfl) (found.2 old rfl) found.1
    refine PublishTells.check reserves (backupMarker_quiet ..)
      (fun e u quiet reserved => ?_) fun backup u reserved => ?_
    · exact PublishTells.refuse quiet (reserved.error e rfl)
    · obtain ⟨m, ofMarker, marked⟩ := reserved.marker backup.1 backup.2 rfl
      exact publishOver_tells again ofMarker marked

end

/-- By induction on the attempts that are left. -/
theorem publishAttempts_tells (attempts : Nat) (start : PublishKept paths w₀ w) :
    PublishTells paths w₀ (publishAttempts paths original parent attempts) w := by
  induction attempts generalizing w with
  | zero => exact PublishTells.refuse (publishError_quiet (plainText _ (by decide))) start
  | succ attempts ih =>
    have next : publishAttempts paths original parent (attempts + 1) =
        (publishAttempt paths original parent).bind (publishNext paths original parent attempts) := by
      refine congrArg (Prog.bind _) (funext fun r => ?_)
      cases r <;> rfl
    rw [next]
    exact publishAttempt_tells (fun u kept => ih kept) start

/-- The same for the command. -/
theorem publishCmd_tells (start : PublishKept paths w₀ w) : PublishTells paths w₀ (publishCmd paths) w := by
  have harmless := @PublishKept.harmless _ _ paths w₀
  have whole : PublishTells paths w₀ ((publishCmd paths).bind Prog.done) w := by
    refine PublishTells.check (harmless.checkCandidate paths.candidate none start) (checkCandidate_quiet ..)
      (fun e u quiet checked => PublishTells.refuse quiet checked.1) fun original u checked => ?_
    refine PublishTells.check (harmless.checkParent paths.candidateParent _ checked.1)
      (checkParent_quiet (plainText _ (by decide)) _)
        (fun e u quiet kept => PublishTells.refuse quiet kept) fun _ u kept => ?_
    refine PublishTells.check (harmless.checkParent paths.destinationParent _ kept)
      (checkParent_quiet (plainText _ (by decide)) _)
        (fun e u quiet kept => PublishTells.refuse quiet kept) fun parent u kept => ?_
    dsimp only
    split_ifs
    · exact PublishTells.refuse (publishError_quiet (plainText _ (by decide))) kept
    · rw [Prog.bind_done]
      exact publishAttempts_tells 8 kept
  rwa [Prog.bind_done] at whole

/-- A message that is truthful comes from a recovery that has been clear. -/
theorem PublishTruthful.clear {e : TclError} {p : PublishProg Path (Except TclError Unit)}
    {script : PublishScript Path}
    (truthful : PublishTruthful paths w₀ e v) (plays : PublishPlays p w script (.error e) v) :
    PublishClear paths w₀ p w script := by
  intro before after x u same reached left
  have later : PublishPlays (publishFailed paths x) u after (.error e) v := by
    have whole := @play_append _ _ (publishAlone Path) _ p w before after
    rw [reached, ← same] at whole
    exact whole.symm.trans plays
  obtain ⟨first, last, rest, retained, t, rfl, own, -, ended⟩ := publishFailed_plays later
  have leaves := recoverReplaceFailure_leaves false left.ofMarker left.toPublishHeldKept own
  cases retained with
  | false =>
    obtain ⟨a, b, c, rfl, clears⟩ := recoverReplaceFailure_back left own
    refine ⟨a, b, c, last ++ rest, t, ?_, clears⟩
    rw [List.append_assoc, List.append_assoc, List.append_assoc]
  | true =>
    have held : PublishHeldKept paths w₀ x.toPublishHeld t := leaves.1 rfl
    rw [publishRecovered, Bool.not_true, Bool.and_false] at ended
    obtain ⟨-, same, rfl⟩ := PublishPlays.done ended
    obtain rfl := Except.error.inj same
    exact absurd truthful (held.kept.untruthful replaceText x.error _)

/-- A failed publication tells the truth exactly if, behind every
`ReplaceFileW` that has failed and changed nothing, the recovery finds the
old destination. -/
theorem publishCmd_tells_iff {e : TclError} {script : PublishScript Path} (start : w.Start)
    (plays : PublishPlays (publishCmd paths) w script (.error e) v) :
    PublishTruthful paths w e v ↔ PublishClear paths w (publishCmd paths) w script :=
  ⟨fun truthful => truthful.clear plays, publishCmd_tells ⟨start.sound, rfl, rfl⟩ script e v plays⟩

end

def spelledPaths : PublishPaths Nat := { samplePaths with spell := fun path => decimal path }

/-- The old destination gets the backup name, and cannot be moved back. -/
theorem publishCmd_tells_moved :
    ∃ script e v, PublishPlays (publishCmd spelledPaths) sampleWorld script (.error e) v ∧
    v.names 2 = none ∧ v.names 3 = some 2 ∧
    (PublishTruthful spelledPaths sampleWorld e v ↔ PublishClear spelledPaths sampleWorld
      (publishCmd spelledPaths) sampleWorld script) := by
  have plays : ∃ e v, PublishPlays (publishCmd spelledPaths) sampleWorld
    (sampleWorks 30 ++ (.inr (.random []) :: sampleWorks 24 ++
      (.inr (.moves 5) :: sampleWorks 10 ++ [.inr (.fails 2), .inr (.fails 5), .inr .works]))) (.error e) v ∧
      v.names 2 = none ∧ v.names 3 = some 2 := ⟨_, _, rfl, rfl, rfl⟩
  obtain ⟨e, v, plays, gone, there⟩ := plays
  exact ⟨_, e, v, plays, gone, there, publishCmd_tells_iff sampleWorld_start plays⟩

/-- `ReplaceFileW` fails and changes nothing, and the retained handle cannot
be queried: the message names the backup path, where the marker is. -/
theorem publishCmd_tells_marker :
    ∃ script e v, PublishPlays (publishCmd spelledPaths) sampleWorld script (.error e) v ∧
    e.NamesRecovery (spelledPaths.spell 3) ∧ v.names 2 = some 2 ∧ v.names 3 = some 3 ∧
      ¬ PublishTruthful spelledPaths sampleWorld e v := by
  have names := (publishWinError_names replaceText 5 (spelledPaths.spell 3) (spelledPaths.spell 3)).mpr rfl
  have plays : ∃ v, PublishPlays (publishCmd spelledPaths) sampleWorld
    (sampleWorks 30 ++ (.inr (.random []) :: sampleWorks 24 ++
      (.inr (.fails 5) :: [.inr .works, .inr (.fails 6), .inr (.fails 6), .inr .works])))
      (.error (publishWinError "cannot atomically replace the destination" 5 (some (spelledPaths.spell 3)))) v ∧
      v.names 2 = some 2 ∧ v.names 3 = some 3 := ⟨_, rfl, rfl, rfl⟩
  obtain ⟨v, plays, there, marker⟩ := plays
  refine ⟨_, _, v, plays, names, there, marker, fun truthful => ?_⟩
  obtain ⟨f, b, old, -, -, -, other⟩ := (truthful _).mp names
  exact other (there.trans old)

end Machteld
