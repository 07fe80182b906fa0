import Machteld.Launch.Process

namespace Machteld

/-- Nothing has been born that lives, and nothing has been let run. -/
structure Lore.Stillborn (lore lore' : Lore) : Prop where
  births : ∃ new, lore'.births = new ++ lore.births ∧ ∀ b ∈ new, b.number ∈ lore'.dead
  ran : lore'.ran = lore.ran
  dead : ∀ n ∈ lore.dead, n ∈ lore'.dead
  jobs : lore'.jobs = lore.jobs
  held : lore'.held = lore.held

/-- Where nothing was created, nothing of its making lives. -/
theorem Lore.Stillborn.refl (lore : Lore) : lore.Stillborn lore :=
  ⟨⟨[], rfl, fun _ none' => absurd none' List.not_mem_nil⟩, rfl, fun _ known => known, rfl, rfl⟩

/-- What a part of a launcher leaves: what it holds is what its locals say.
-/
def LaunchPost (F : Multiset Asset) (ts : List (Task Asset)) (lore : Lore) {α : Type}
    (Q : α → LaunchLocals → Lore → Prop)
    (r : Except (Option String) α) (s : LaunchLocals) (y : LaunchWorld) : Prop :=
  ∃ lore', Has (s.owned + F) ts lore' y ∧
    match r with
    | .ok a => Q a s lore'
    | .error _ => lore.Stillborn lore'

abbrev LaunchSteps (F : Multiset Asset) (ts : List (Task Asset)) (lore : Lore) {α : Type} (p : LaunchT α)
    (s : LaunchLocals)
    (Q : α → LaunchLocals → Lore → Prop) (x : LaunchWorld) : Prop :=
  Steps launchHost launchDeal p s (LaunchPost F ts lore Q) x

section

variable {α β : Type} {x : LaunchWorld} {F : Multiset Asset} {ts : List (Task Asset)} {lore lore' : Lore}
  {s : LaunchLocals}

/-- A stage may fail wherever the record still tells what is held and no
process it created lives. -/
theorem LaunchSteps.throw {Q : α → LaunchLocals → Lore → Prop} {err : Option String}
    (has : Has (s.owned + F) ts lore' x)
    (dead : lore.Stillborn lore') : LaunchSteps F ts lore (throw err) s Q x :=
  Steps.throw has (Kernel.Knows.stable lore') fun _ later => ⟨lore', later, dead⟩

theorem LaunchSteps.pure {Q : α → LaunchLocals → Lore → Prop} {a : α} (has : Has (s.owned + F) ts lore' x)
    (wanted : Q a s lore') : LaunchSteps F ts lore (pure a) s Q x :=
  Steps.pure has (Kernel.Knows.stable lore') fun _ later => ⟨lore', later, wanted⟩

/-- Stages in a row: what the first one leaves is what the second one starts
from, and where the first fails the second is not entered and its record is
what `done:` releases. -/
theorem LaunchSteps.andThen {Q : β → LaunchLocals → Lore → Prop}
    {R : α → LaunchLocals → Lore → Prop} {p : LaunchT β}
    {f : β → LaunchT α} (first : LaunchSteps F ts lore p s Q x)
    (next : ∀ b s lore' y, Has (s.owned + F) ts lore' y → Q b s lore' → LaunchSteps F ts lore (f b) s R y) :
    LaunchSteps F ts lore (p >>= f) s R x := by
  refine Steps.andThen first (fun err s y broke => ?_) fun b s y went => ?_
  · obtain ⟨lore', has, dead⟩ := broke
    exact Safely.done has (Kernel.Knows.stable lore') fun _ later => ⟨lore', later, dead⟩
  · obtain ⟨lore', has, wanted⟩ := went
    exact next b s lore' y has wanted

theorem owned_empty : ({} : LaunchLocals).owned = 0 := rfl

section

variable {b : Nat}

theorem heldBlock_none : heldBlock none = 0 := rfl

theorem heldBlock_some : heldBlock (some b) = {.block b} := rfl

theorem owned_comspec (empty : s.comspec = none) :
    ({ s with comspec := some b } : LaunchLocals).owned = {.block b} + s.owned := by
  simp only [LaunchLocals.owned, empty, heldBlock_none, heldBlock_some]
  abel

theorem owned_cmdText (empty : s.cmdText = none) :
    ({ s with cmdText := some b } : LaunchLocals).owned = {.block b} + s.owned := by
  simp only [LaunchLocals.owned, empty, heldBlock_none, heldBlock_some]
  abel

theorem owned_wApp {b : Option Nat} (empty : s.wApp = none) :
    ({ s with wApp := b } : LaunchLocals).owned = heldBlock b + s.owned := by
  simp only [LaunchLocals.owned, empty, heldBlock_none]
  abel

theorem owned_wCmd {b : Option Nat} (empty : s.wCmd = none) :
    ({ s with wCmd := b } : LaunchLocals).owned = heldBlock b + s.owned := by
  simp only [LaunchLocals.owned, empty, heldBlock_none]
  abel

theorem owned_wDir (empty : s.wDir = none) :
    ({ s with wDir := some b } : LaunchLocals).owned = {.block b} + s.owned := by
  simp only [LaunchLocals.owned, empty, heldBlock_none, heldBlock_some]
  abel

theorem owned_jobs (empty : s.jobs = none) :
    ({ s with jobs := some b } : LaunchLocals).owned = {.block b} + s.owned := by
  simp only [LaunchLocals.owned, empty, heldBlock_none, heldBlock_some]
  abel

theorem owned_al (empty : s.al = none) :
    ({ s with al := some (b, false) } : LaunchLocals).owned = {.block b} + s.owned := by
  simp only [LaunchLocals.owned, empty, heldList, Option.elim_none, Option.elim_some, Bool.false_eq_true, if_false]
  abel

theorem owned_inited (raw : s.al = some (b, false)) :
    ({ s with al := some (b, true) } : LaunchLocals).owned = {.attributes b} + s.owned := by
  simp only [LaunchLocals.owned, raw, heldList, Option.elim_some, Bool.false_eq_true, if_false, if_true]
  abel

theorem owned_inheritList {h : Nat} :
    ({ s with inheritList := s.inheritList ++ [h] } : LaunchLocals).owned = {.handle h} + s.owned := by
  have split : heldHandles (s.inheritList ++ [h]) = {.handle h} + heldHandles s.inheritList := by
    rw [heldHandles, List.map_append, ← Multiset.coe_add, add_comm]
    rfl
  simp only [LaunchLocals.owned, split]
  abel

end

/-- What has just been taken goes into an empty field of the record. -/
theorem Has.store {A : Multiset Asset} {r : LaunchLocals} (has : Has (A + (s.owned + F)) ts lore x)
    (same : r.owned = A + s.owned) : Has (r.owned + F) ts lore x := has.swap (by rw [same, add_assoc])

/-- The command line is the one of the pure model, and where a stage of it
fails the blocks made so far are in the record, so that `done:` gives them
back. -/
theorem launchCommand_steps {call : WjLaunch} (has : Has F ts lore x) :
    LaunchSteps F ts lore (launchCommand call) {} (fun command s lore' => lore' = lore ∧
      (∃ c b, s = { comspec := c, cmdText := b }) ∧
        if wjIsBatchTarget call.exe then wjMakeBatchCmdline call.exe call.argv.tail = .ok command.2
        else command = (call.exe, wjMakeCmdline call.argv)) x := by
  have start : Has (({} : LaunchLocals).owned + F) ts lore x := has.swap (by rw [owned_empty, zero_add])
  unfold launchCommand
  split
  · refine Steps.call (Runs.take (c := .comspecPath) trivial start (fun _ => rfl) fun a y has => ?_)
    cases a with
    | error err => exact LaunchSteps.throw (has.swap (zero_add _)) (.refl lore)
    | ok comspec =>
      have has := has.store (owned_comspec rfl)
      refine Steps.modify (Steps.call (Runs.makeBatchCmdline has (fun err y has => ?_) fun b line y made has => ?_))
      · exact LaunchSteps.throw has (.refl lore)
      · exact Steps.modify (LaunchSteps.pure (has.store (owned_cmdText rfl))
          ⟨rfl, ⟨some comspec.1, some b, rfl⟩, made⟩)
  · refine Steps.call (Runs.take (c := .makeCmdline call.argv) trivial start (fun _ => rfl) fun a y has => ?_)
    cases a with
    | none => exact LaunchSteps.throw (has.swap (zero_add _)) (.refl lore)
    | some b =>
      exact Steps.modify (LaunchSteps.pure (has.store (owned_cmdText rfl)) ⟨rfl, ⟨none, some b, rfl⟩, rfl⟩)

/-- The text of `mt_utf8_to_wide` that is not NULL. -/
def isWide (text : Bytes) : Bool := (mtUtf8ToWide true text).isSome

/-- The texts of a launch are those of the pure one. -/
structure LaunchTexts.Of (texts : LaunchTexts) (call : WjLaunch) (command : Bytes × Bytes) : Prop where
  spelled : (texts.application.2, texts.commandLine.2) = command
  dir : texts.dir.map Prod.snd = if call.changesDir then some (call.dir.getD []) else none
  wide : isWide command.1 = true ∧ isWide command.2 = true
  wideDir : call.changesDir = true → isWide (call.dir.getD []) = true

/-- The blocks of the texts are in the locals. -/
structure LaunchTexts.In (texts : LaunchTexts) (s : LaunchLocals) : Prop where
  application : s.wApp = some texts.application.1
  commandLine : s.wCmd = some texts.commandLine.1
  dir : s.wDir = texts.dir.map Prod.fst

/-- The wide texts are those of the application, the command line and the
directory, each in its own field of the record; a text that does not convert
leaves the others there. -/
theorem launchTexts_steps {call : WjLaunch} {application commandLine : Bytes} (has : Has (s.owned + F) ts lore x)
    (wApp : s.wApp = none) (wCmd : s.wCmd = none) (wDir : s.wDir = none) :
    LaunchSteps F ts lore (launchTexts call application commandLine) s (fun texts s' lore' => lore' = lore ∧
      texts.Of call (application, commandLine) ∧ texts.In s' ∧
        s' = { s with wApp := s'.wApp, wCmd := s'.wCmd, wDir := s'.wDir }) x := by
  unfold launchTexts
  refine Steps.call (Runs.toWide has fun app y wideApp has => Steps.modify (Steps.call (Runs.toWide
    (has.store (r := { s with wApp := app }) (owned_wApp wApp)) fun cmd y wideCmd has => Steps.modify ?_)))
  have has := has.store (r := { s with wApp := app, wCmd := cmd }) (owned_wCmd (s := { s with wApp := app }) wCmd)
  match app, cmd with
  | none, _ => exact LaunchSteps.throw has (.refl lore)
  | some _, none => exact LaunchSteps.throw has (.refl lore)
  | some app, some cmd =>
    have wide := And.intro (wideApp rfl) (wideCmd rfl)
    dsimp only
    split
    · rename_i changes
      refine Steps.call (Runs.toWide has fun dir y wideDir has => ?_)
      cases dir with
      | none => exact LaunchSteps.throw (has.swap (zero_add _)) (.refl lore)
      | some dir =>
        refine Steps.modify
          (LaunchSteps.pure (has.store (owned_wDir (s := { s with wApp := app, wCmd := cmd }) wDir)) ?_)
        exact ⟨rfl, ⟨rfl, by rw [if_pos changes]; rfl, wide, fun _ => wideDir rfl⟩, ⟨rfl, rfl, rfl⟩, rfl⟩
    · rename_i stays
      refine LaunchSteps.pure has ⟨rfl, ⟨rfl, ?_, wide, fun changes => absurd changes stays⟩, ⟨rfl, rfl, wDir⟩, ?_⟩
      · rw [if_neg stays]
        rfl
      · rw [wDir]

/-- Handles with their copies: a copy for each, of different handles
different ones. -/
structure LaunchCopies (dups : List (Nat × Nat)) (handles : List Nat) : Prop where
  copies : ∀ d, d ∈ handles ↔ d ∈ dups.map Prod.snd
  same : ∀ p ∈ dups, ∀ q ∈ dups, p.1 = q.1 ↔ p.2 = q.2

/-- A stream that has been copied before takes the copy again, so no handle
is copied twice. -/
theorem LaunchCopies.old {dups : List (Nat × Nat)} {handles : List Nat}
    (copies : LaunchCopies dups handles) {orig d : Nat}
    (member : (orig, d) ∈ dups) : LaunchCopies (dups ++ [(orig, d)]) handles := by
  have within : ∀ p, p ∈ dups ++ [(orig, d)] ↔ p ∈ dups := fun p => by
    rw [List.mem_append, List.mem_singleton, or_iff_left_of_imp]
    rintro rfl
    exact member
  refine ⟨fun e => ?_, fun p first q second => copies.same p ((within p).mp first) q ((within q).mp second)⟩
  rw [copies.copies, List.mem_map, List.mem_map]
  simp only [within]

/-- A stream that has not been copied yet takes a new copy, which is added
to the list. -/
theorem LaunchCopies.new {dups : List (Nat × Nat)} {handles : List Nat}
    (copies : LaunchCopies dups handles) {orig d : Nat}
    (unseen : orig ∉ dups.map Prod.fst) (fresh : d ∉ handles) :
    LaunchCopies (dups ++ [(orig, d)]) (handles ++ [d]) := by
  refine ⟨fun e => by rw [List.mem_append, List.map_append, List.mem_append, copies.copies]; rfl, ?_⟩
  have apart : ∀ p ∈ dups, p.1 ≠ orig ∧ p.2 ≠ d := fun p member =>
    ⟨fun same => unseen (same ▸ List.mem_map_of_mem member),
      fun same => fresh ((copies.copies d).mpr (same ▸ List.mem_map_of_mem member))⟩
  intro p first q second
  rcases List.mem_append.mp first with old | new <;> rcases List.mem_append.mp second with old' | new'
  · exact copies.same p old q old'
  · rw [List.mem_singleton.mp new']
    exact iff_of_false (apart p old).1 (apart p old).2
  · rw [List.mem_singleton.mp new]
    exact iff_of_false (apart q old').1.symm (apart q old').2.symm
  · rw [List.mem_singleton.mp new, List.mem_singleton.mp new']
    exact iff_of_true rfl rfl

theorem mem_owned {h : Nat} (member : h ∈ s.inheritList) : Asset.handle h ∈ s.owned := by
  have inside : Asset.handle h ∈ heldHandles s.inheritList := Multiset.mem_coe.mpr (List.mem_map_of_mem member)
  simp only [LaunchLocals.owned, Multiset.mem_add, inside, true_or, or_true]

/-- The copies are made in the order of the streams, one for all the places
of a stream. On a failure those that exist are in the list that `done:`
closes. -/
theorem launchDups_steps {origs : List Nat} {dups : List (Nat × Nat)} (has : Has (s.owned + F) ts lore x)
    (copies : LaunchCopies dups s.inheritList) :
    LaunchSteps F ts lore (launchDups origs dups) s (fun dups' s' lore' => lore' = lore ∧
      dups'.map Prod.fst = dups.map Prod.fst ++ origs ∧ LaunchCopies dups' s'.inheritList ∧
        s' = { s with inheritList := s'.inheritList }) x := by
  induction origs generalizing dups s x with
  | nil => exact LaunchSteps.pure has ⟨rfl, (List.append_nil _).symm, copies, rfl⟩
  | cons orig origs ih =>
    have shift : ∀ d : Nat, (dups ++ [(orig, d)]).map Prod.fst ++ origs = dups.map Prod.fst ++ orig :: origs :=
      fun d => by
      simp
    rw [launchDups]
    cases found : dups.lookup orig with
    | some d =>
      obtain ⟨before, after, split, -⟩ := List.lookup_eq_some_iff.mp found
      have member : (orig, d) ∈ dups := by simp [split]
      have rest := ih has (copies.old member)
      rw [shift] at rest
      exact rest
    | none =>
      have unseen : orig ∉ dups.map Prod.fst := fun member => by
        obtain ⟨p, inside, same⟩ := List.mem_map.mp member
        have other := List.lookup_eq_none_iff.mp found p inside
        simp [same] at other
      refine Steps.call (Runs.take (c := .duplicateHandle orig) trivial has (fun _ => rfl) fun a y has => ?_)
      cases a with
      | none => exact LaunchSteps.throw (has.swap (zero_add _)) (.refl lore)
      | some d =>
        have fresh : d ∉ s.inheritList := fun member => by
          have apart := (Multiset.nodup_add.mp has.single).2.2
          exact Multiset.disjoint_left.mp apart (Multiset.mem_singleton_self _)
            (Multiset.mem_add.mpr (.inl (mem_owned member)))
        have rest := ih (has.store owned_inheritList) (copies.new unseen fresh)
        rw [shift] at rest
        exact Steps.modify rest

/-- The buffer of the job handles, where there are any, goes into the
record. -/
theorem launchBuffer_steps {njobs : Int} (has : Has (s.owned + F) ts lore x) (empty : s.jobs = none) :
    LaunchSteps F ts lore (launchBuffer njobs) s (fun buffer s' lore' => lore' = lore ∧
      s' = { s with jobs := buffer } ∧
      (buffer.isSome = true ↔ 0 < njobs)) x := by
  unfold launchBuffer
  split
  · rename_i some'
    refine Steps.call (Runs.malloc has fun a y has => ?_)
    cases a with
    | none => exact LaunchSteps.throw (has.swap (zero_add _)) (.refl lore)
    | some b =>
      exact Steps.modify (LaunchSteps.pure (has.store (owned_jobs empty)) ⟨rfl, rfl, iff_of_true rfl some'⟩)
  · rename_i none'
    refine LaunchSteps.pure has ⟨rfl, by rw [← empty], iff_of_false Bool.false_ne_true none'⟩

/-- The attribute list is noted as a block, and behind its initialization as
a list to be deleted before the block. -/
theorem launchAttributes_steps {count : Nat} {noMemory : String} (has : Has (s.owned + F) ts lore x)
    (empty : s.al = none) :
    LaunchSteps F ts lore (launchAttributes count noMemory) s (fun al s' lore' => lore' = lore ∧
      s' = { s with al := some (al.block, true) } ∧ al = ⟨al.block, none, none, none⟩) x := by
  unfold launchAttributes
  refine Steps.call (Runs.take (c := .attributeSize count) trivial has (fun _ => rfl) fun a y has => ?_)
  have has := has.swap (zero_add _)
  cases a with
  | false => exact LaunchSteps.throw has (.refl lore)
  | true =>
    refine Steps.call (Runs.malloc has fun a y has => ?_)
    cases a with
    | none => exact LaunchSteps.throw (has.swap (zero_add _)) (.refl lore)
    | some b =>
      have has := has.store (owned_al empty)
      refine Steps.modify (Steps.call (Runs.quiet (c := .initAttributes b count) (N := {.block b}) (G := 0)
        (P := fun _ => True) trivial (has.swap (zero_add _).symm) has.uses (fun _ _ => rfl) (fun r needed => ?_)
        (fun _ _ _ _ _ => trivial) fun a y _ _ has => ?_))
      · rw [Multiset.mem_singleton.mp needed, zero_add, owned_al empty]
        simp
      · cases a with
        | false => exact LaunchSteps.throw (has.swap (zero_add _)) (.refl lore)
        | true =>
          exact Steps.modify
            (LaunchSteps.pure (has.store (owned_inited (s := { s with al := some (b, false) }) rfl))
            ⟨rfl, rfl, rfl⟩)

theorem mem_owned_al {b : Nat} (inited : s.al = some (b, true)) : .block b ∈ s.owned ∧ .attributes b ∈ s.owned := by
  simp [LaunchLocals.owned, inited, heldList]

theorem mem_owned_block {b : Nat} (held : s.jobs = some b ∨ s.wApp = some b ∨ s.wCmd = some b ∨ s.wDir = some b) :
    .block b ∈ s.owned := by
  rcases held with held | held | held | held <;> simp [LaunchLocals.owned, held, heldBlock]

/-- The attribute list names the buffer that the record holds and the jobs in it.
-/
theorem launchJobList_steps {al : Attributes} {jobs : List Nat} {buffer : Option Nat}
    (has : Has (s.owned + F) ts lore x)
    (inited : s.al = some (al.block, true)) (stored : s.jobs = buffer) :
    LaunchSteps F ts lore (launchJobList al jobs buffer) s (fun al' s' lore' => lore' = lore ∧ s' = s ∧
      al' = { al with jobs := if buffer.isSome then buffer.map (·, jobs) else al.jobs }) x := by
  cases buffer with
  | none => exact LaunchSteps.pure has ⟨rfl, rfl, rfl⟩
  | some b =>
    refine Steps.call (Runs.use (c := .updateJobs al b jobs) (P := fun _ => True) trivial has (fun _ _ => rfl)
      (fun r needed => ?_) (fun _ _ _ _ _ => trivial) fun a y _ _ has => ?_)
    · simp only [Multiset.mem_add, Multiset.mem_singleton] at needed
      obtain ⟨block, list⟩ := mem_owned_al inited
      refine Multiset.mem_add.mpr (.inl ?_)
      rcases needed with (rfl | rfl) | rfl
      · exact block
      · exact list
      · exact mem_owned_block (.inl stored)
    · cases a with
      | false => exact LaunchSteps.throw has (.refl lore)
      | true => exact LaunchSteps.pure has ⟨rfl, rfl, rfl⟩

/-- The list of handles names exactly the private copies. -/
theorem launchHandleList_steps {al : Attributes} (has : Has (s.owned + F) ts lore x)
    (inited : s.al = some (al.block, true)) :
    LaunchSteps F ts lore (launchHandleList al) s (fun al' s' lore' => lore' = lore ∧ s' = s ∧
      al' = { al with handles := some s.inheritList }) x := by
  refine Steps.call (Runs.use (c := .updateHandles al s.inheritList)
    (P := fun _ => True) trivial has (fun _ _ => rfl)
    (fun r needed => ?_) (fun _ _ _ _ _ => trivial) fun a y _ _ has => ?_)
  · simp only [Multiset.mem_add, Multiset.mem_singleton] at needed
    obtain ⟨block, list⟩ := mem_owned_al inited
    refine Multiset.mem_add.mpr (.inl ?_)
    rcases needed with rfl | rfl
    · exact block
    · exact list
  · cases a with
    | false => exact LaunchSteps.throw has (.refl lore)
    | true => exact LaunchSteps.pure has ⟨rfl, rfl, rfl⟩

/-- What is left of a launcher where there is a process: with it, or with
neither of its handles. -/
def LaunchTail (F : Multiset Asset) (ts : List (Task Asset)) (lore : Lore) {α : Type} (G : α → Multiset Asset)
    (Q : α → LaunchLocals → Lore → Prop) (r : Except (Option String) α) (s : LaunchLocals)
    (y : LaunchWorld) : Prop :=
  ∃ lore', match r with
    | .ok a => Has (s.owned + (G a + F)) ts lore' y ∧ Q a s lore'
    | .error _ => Has (s.owned + F) ts lore' y ∧ lore.Stillborn lore'

/-- A process that was terminated and waited for before it could run has not
lived. -/
theorem Lore.Stillborn.abandoned {b : Birth} {numbers : List Nat} :
    lore.Stillborn (((lore.create b true).end' numbers).end' [b.number]) := by
  refine ⟨⟨[b], rfl, fun c member => ?_⟩, rfl, fun n known => ?_, rfl, rfl⟩
  · rw [List.mem_singleton.mp member]
    exact List.mem_cons_self
  · exact List.mem_append_right _ (List.mem_append_right _ known)

theorem processOf_newest {b : Birth} {births : List Birth} : processOf (b :: births) b.info.handle = some b := by
  rw [processOf, List.find?_cons, beq_self_eq_true]

theorem threadOf_newest {b : Birth} {births : List Birth} : threadOf (b :: births) b.info.thread = some b := by
  rw [threadOf, List.find?_cons, beq_self_eq_true]

variable {b : Birth}

/-- A process that did not break away is ended and its handles are closed;
only where the wait fails may it still live. -/
theorem launchAbandon_steps {G : α → Multiset Asset} {Q : α → LaunchLocals → Lore → Prop} {err : String}
    (has : Has (s.owned + ({.handle b.info.handle} + {.handle b.info.thread} + F)) ts (lore.create b true) x)
    (kept : Kept ts (s.owned + F)) :
    Steps launchHost launchDeal (launchAbandon b.info err) s (LaunchTail F ts lore G Q) x := by
  have needs : Asset.handle b.info.handle ∈ s.owned + ({.handle b.info.handle} + {.handle b.info.thread} + F) := by
    simp
  refine Steps.call (Runs.terminateProcess has needs fun a numbers y has => Steps.call (Runs.waitProcess has needs
    fun c y found has => ?_))
  obtain rfl := Option.some.inj (processOf_newest.symm.trans found)
  have thread : s.owned + ({.handle b.info.handle} + {.handle b.info.thread} + F) =
      {.handle b.info.thread} + ({.handle b.info.handle} + (s.owned + F)) := by abel
  refine Steps.call (Runs.closeHandle (has.swap thread)
    (kept.add _) fun y has => Steps.call (Runs.closeHandle has kept
    fun y has => ?_))
  exact Steps.throw has (Kernel.Knows.stable _) fun _ later => ⟨_, later, .abandoned⟩

/-- A process that broke away is let run where it is in no job. -/
theorem launchResume_steps
    (has : Has (s.owned + ({.handle b.info.handle} + {.handle b.info.thread} + F)) ts (lore.create b true) x)
    (kept : Kept ts (s.owned + F)) :
    Steps launchHost launchDeal (launchResume b.info) s
      (LaunchTail F ts lore (fun _ => {.handle b.info.handle} + {.handle b.info.thread})
        fun _ s' lore' => s' = s ∧ b.enclosed = false ∧ lore' = lore.create b false) x := by
  have proc : Asset.handle b.info.handle ∈ s.owned + ({.handle b.info.handle} + {.handle b.info.thread} + F) := by
    simp
  have thread : Asset.handle b.info.thread ∈ s.owned + ({.handle b.info.handle} + {.handle b.info.thread} + F) := by
    simp
  refine Steps.call (Runs.isProcessInJob has proc fun a y answers has => ?_)
  match a with
  | none => exact launchAbandon_steps has kept
  | some true => exact launchAbandon_steps has kept
  | some false =>
    obtain ⟨c, found, free⟩ := answers false rfl
    obtain rfl := Option.some.inj (processOf_newest.symm.trans found)
    refine Steps.call (Runs.resumeThread has thread (fun y has => launchAbandon_steps has kept)
      fun c y found has => ?_)
    obtain rfl := Option.some.inj (threadOf_newest.symm.trans found)
    exact Steps.pure has (Kernel.Knows.stable _) fun _ later => ⟨_, later, rfl, free, rfl⟩

/-- With strict breakaway the process runs only after it was seen outside
every job, and is ended otherwise; without it, it runs at once. -/
theorem launchFinish_steps {wantBreakaway : Bool}
    (has : Has (s.owned + ({.handle b.info.handle} + {.handle b.info.thread} + F)) ts
      (lore.create b wantBreakaway) x)
    (kept : Kept ts (s.owned + F)) :
    Steps launchHost launchDeal (launchFinish wantBreakaway b.info) s
      (LaunchTail F ts lore (fun info => {.handle info.handle})
        fun info _ lore' => info = b.info ∧ lore' = lore.create b false ∧
          (wantBreakaway = true → b.enclosed = false)) x := by
  have close : ∀ y, Has (s.owned + ({.handle b.info.handle} + {.handle b.info.thread} + F)) ts
    (lore.create b false) y →
      (wantBreakaway = true → b.enclosed = false) → Steps launchHost launchDeal
        (LaunchCall.step (.closeHandle b.info.thread) >>= fun _ => pure b.info) s
        (LaunchTail F ts lore (fun info => {.handle info.handle})
          fun info _ lore' => info = b.info ∧ lore' = lore.create b false ∧
            (wantBreakaway = true → b.enclosed = false)) y := by
    intro y has free
    have thread : s.owned + ({.handle b.info.handle} + {.handle b.info.thread} + F) =
        {.handle b.info.thread} + ({.handle b.info.handle} + (s.owned + F)) := by abel
    refine Steps.call (Runs.closeHandle (has.swap thread) (kept.add _) fun y has => ?_)
    have proc : {.handle b.info.handle} + (s.owned + F) = s.owned + ({.handle b.info.handle} + F) := by abel
    exact Steps.pure (has.swap proc) (Kernel.Knows.stable _) fun _ later => ⟨_, later, rfl, rfl, free⟩
  unfold launchFinish
  cases wantBreakaway with
  | false => exact close x has (fun broke => absurd broke Bool.false_ne_true)
  | true =>
    refine Steps.andThen (launchResume_steps has kept) (fun err s y broke => ?_) fun _ s y went => ?_
    · obtain ⟨lore', has, dead⟩ := broke
      exact Safely.done has (Kernel.Knows.stable _) fun _ later => ⟨lore', later, dead⟩
    · obtain ⟨_, has, rfl, free, rfl⟩ := went
      exact close y has fun _ => free

/-- A process that is launched is the one that was asked for: its texts, its
jobs, and copies of its own of the handles as all that it inherits. -/
structure LaunchedAs (call : WjLaunch) (origs : List Nat) (wantBreakaway : Bool) (env : Option (List UInt16))
    (F : Multiset Asset) (lore : Lore) (b : Birth) : Prop where
  number : b.number = lore.births.length
  texts : ∃ comspec, wjCreate ⟨.ok comspec, isWide, none⟩ call = .ok ⟨b.application, b.commandLine, b.dir⟩
  env : b.env = env
  jobs : jobNumbers lore.jobs call.jobs = some b.jobs
  inherits : ∃ dups, dups.map Prod.fst = origs ∧ LaunchCopies dups b.inherited ∧ b.stdio = launchStdio dups
  apart : ∀ d ∈ b.inherited, .handle d ∉ F
  free : wantBreakaway = true → b.enclosed = false

theorem changesDir_some {call : WjLaunch} (changes : call.changesDir = true) :
    call.dir = some (call.dir.getD []) := by
  cases known : call.dir with
  | none => simp [WjLaunch.changesDir, known] at changes
  | some dir => rfl

/-- The texts that are passed on are those of the pure model of the call. -/
theorem LaunchTexts.Of.create {texts : LaunchTexts} {call : WjLaunch} {command : Bytes × Bytes}
    (texts_of : texts.Of call command)
    (made : if wjIsBatchTarget call.exe then wjMakeBatchCmdline call.exe call.argv.tail = .ok command.2
      else command = (call.exe, wjMakeCmdline call.argv)) :
    wjCreate ⟨.ok command.1, isWide, none⟩ call =
      .ok ⟨texts.application.2, texts.commandLine.2, texts.dir.map Prod.snd⟩ := by
  obtain ⟨spelled, dir, wide, wideDir⟩ := texts_of
  obtain ⟨application, commandLine⟩ := command
  obtain ⟨rfl, rfl⟩ := Prod.mk.inj spelled
  have readable : ¬ (isWide texts.application.2 = false ∨ isWide texts.commandLine.2 = false) := by
    rw [wide.1, wide.2]
    simp
  have changed : ¬ (call.changesDir = true ∧ ¬ (call.dir.any isWide) = true) := by
    rintro ⟨changes, narrow⟩
    rw [changesDir_some changes, Option.any_some] at narrow
    exact narrow (wideDir changes)
  have kept : (if call.changesDir then call.dir else none) = texts.dir.map Prod.snd := by
    rw [dir]
    split
    · rename_i changes
      exact changesDir_some changes
    · rfl
  unfold wjCreate
  rw [← kept]
  cases batch : wjIsBatchTarget call.exe with
  | true =>
    rw [batch, if_pos rfl] at made
    simp only [made, if_true]
    simp only [bind, Except.bind, pure, Except.pure, if_neg readable, if_neg changed]
  | false =>
    rw [batch, if_neg Bool.false_ne_true] at made
    have same := Prod.mk.inj made
    rw [same.1, same.2] at readable ⊢
    simp only [Bool.false_eq_true, if_false, bind, Except.bind, pure, Except.pure, if_neg readable, if_neg changed]

/-- A part of a launcher before there is a process. -/
theorem LaunchSteps.andTail {G : α → Multiset Asset} {Q : β → LaunchLocals → Lore → Prop}
    {R : α → LaunchLocals → Lore → Prop} {p : LaunchT β} {f : β → LaunchT α} (first : LaunchSteps F ts lore p s Q x)
    (next : ∀ b s lore' y, Has (s.owned + F) ts lore' y → Q b s lore' →
      Steps launchHost launchDeal (f b) s (LaunchTail F ts lore G R) y) :
    Steps launchHost launchDeal (p >>= f) s (LaunchTail F ts lore G R) x := by
  refine Steps.andThen first (fun err s y broke => ?_) fun b s y went => ?_
  · obtain ⟨lore', has, dead⟩ := broke
    exact Safely.done has (Kernel.Knows.stable _) fun _ later => ⟨lore', later, dead⟩
  · obtain ⟨lore', has, wanted⟩ := went
    exact next b s lore' y has wanted

/-- `CreateProcessW` gives a process that was born into the jobs of
its attribute list and into no other one; behind a failure nothing is
held that was not held before. -/
theorem launchCreate_steps {call : CreateCall} {G : α → Multiset Asset} {R : α → LaunchLocals → Lore → Prop}
    {f : ProcessInfo → LaunchT α} (has : Has (s.owned + F) ts lore x) (needs : ∀ r ∈ call.needs, r ∈ s.owned + F)
    (next : ∀ info enclosed ns y, jobNumbers lore.jobs ((call.attributes.jobs.map Prod.snd).getD []) = some ns →
      Has (s.owned + ({.handle info.handle} + {.handle info.thread} + F)) ts
        (lore.create (call.birth lore.births.length info ns enclosed) call.breakaway) y →
      Steps launchHost launchDeal (f info) s (LaunchTail F ts lore G R) y) :
    Steps launchHost launchDeal (launchCreate call >>= f) s (LaunchTail F ts lore G R) x := by
  change Steps launchHost launchDeal (LaunchCall.step (.createProcess call) >>=
    fun a => launchCreated a >>= f) s _ x
  refine Steps.call (Runs.createProcess has needs (fun error y has => ?_) fun info enclosed ns y found has => ?_)
  · exact Safely.done has (Kernel.Knows.stable _) fun _ later => ⟨lore, later, .refl lore⟩
  · have order : {.handle info.handle} + {.handle info.thread} + (s.owned + F) =
        s.owned + ({.handle info.handle} + {.handle info.thread} + F) := by abel
    exact next info enclosed ns y found (has.swap order)

/-- The parts that a created process needs are in the locals. -/
theorem create_needs {texts : LaunchTexts} {al : Attributes} {env : Option (List UInt16)} {stdio : Option WjStdio}
    {inherits breakaway : Bool} (within : texts.In s) (inited : s.al = some (al.block, true))
    (buffer : ∀ b jobs, al.jobs = some (b, jobs) → s.jobs = some b)
    (handles : ∀ d ∈ al.handles.getD [], d ∈ s.inheritList) (console : ∀ c, al.console = some c → .console c ∈ F) :
    ∀ r ∈ (CreateCall.mk texts.application texts.commandLine texts.dir env inherits stdio breakaway al).needs,
      r ∈ s.owned + F := by
  intro r needed
  obtain ⟨block, list⟩ := mem_owned_al inited
  simp only [CreateCall.needs, Multiset.mem_add, Multiset.mem_singleton] at needed
  rw [Multiset.mem_add]
  rcases needed with (((((rfl | rfl) | dir) | (rfl | rfl)) | jobs) | inherited) | used
  · exact .inl (mem_owned_block (.inr (.inl within.application)))
  · exact .inl (mem_owned_block (.inr (.inr (.inl within.commandLine))))
  · cases known : texts.dir with
    | none => simp [known] at dir
    | some d =>
      simp only [known, Option.elim_some, Multiset.mem_singleton] at dir
      rw [dir]
      exact .inl (mem_owned_block (.inr (.inr (.inr (by rw [within.dir, known]; rfl)))))
  · exact .inl block
  · exact .inl list
  · cases known : al.jobs with
    | none => simp [known] at jobs
    | some b =>
      simp only [known, Option.elim_some, Multiset.mem_singleton] at jobs
      rw [jobs]
      exact .inl (mem_owned_block (.inl (buffer b.1 b.2 known)))
  · obtain ⟨d, member, rfl⟩ := List.mem_map.mp (Multiset.mem_coe.mp inherited)
    exact .inl (mem_owned (handles d member))
  · cases known : al.console with
    | none => simp [known] at used
    | some c =>
      simp only [known, Option.elim_some, Multiset.mem_singleton] at used
      rw [used]
      exact .inr (console c known)

/-- The jobs in the buffer are those of the call, also where there is no
buffer. -/
theorem buffer_jobs {call : WjLaunch} {buffer : Option Nat} (some' : buffer.isSome = true ↔ 0 < call.njobs) :
    ((buffer.map (·, call.jobs)).map Prod.snd).getD [] = call.jobs := by
  cases buffer with
  | some b => rfl
  | none =>
    have none' : call.njobs.toNat = 0 := Int.toNat_eq_zero.mpr (by simpa using some')
    simp [WjLaunch.jobs, none']

/-- The body of `wj_launch` from its first allocation up to `done:`, stage
by stage. The stages only add to the record what `done:` releases, so that
one lemma about `done:` covers every path to it. -/
theorem wjLaunchBody_steps {call : WjLaunch} {origs : List Nat} {wantBreakaway : Bool} {env : Option (List UInt16)}
    (has : Has F ts lore x) :
    Steps launchHost launchDeal (wjLaunchBody call origs wantBreakaway env) {}
      (LaunchTail F ts lore (fun info => {.handle info.handle}) fun info _ lore' => ∃ b, info = b.info ∧
        LaunchedAs call origs wantBreakaway env F lore b ∧ lore' = lore.create b false) x := by
  refine LaunchSteps.andTail (launchCommand_steps has) ?_
  rintro command s₁ lore₁ y₁ has₁ ⟨rfl, ⟨c, t, rfl⟩, made⟩
  refine LaunchSteps.andTail (launchTexts_steps has₁ rfl rfl rfl) ?_
  rintro texts s₂ lore₂ y₂ has₂ ⟨rfl, texts_of, within, same₂⟩
  refine LaunchSteps.andTail (launchDups_steps has₂ ?_) ?_
  · rw [same₂]
    exact ⟨by simp, by simp⟩
  rintro dups s₃ lore₃ y₃ has₃ ⟨rfl, origs_of, copies, same₃⟩
  refine LaunchSteps.andTail (launchBuffer_steps has₃ ?_) ?_
  · rw [same₃, same₂]
  rintro buffer s₄ lore₄ y₄ has₄ ⟨rfl, same₄, some₄⟩
  refine LaunchSteps.andTail (launchAttributes_steps has₄ ?_) ?_
  · rw [same₄, same₃, same₂]
  rintro al s₅ lore₅ y₅ has₅ ⟨rfl, same₅, al_of⟩
  refine LaunchSteps.andTail (launchJobList_steps has₅ ?_ ?_) ?_
  · rw [same₅]
  · rw [same₅, same₄]
  rintro al₆ s₆ lore₆ y₆ has₆ ⟨rfl, rfl, al_of₆⟩
  refine LaunchSteps.andTail (launchHandleList_steps has₆ ?_) ?_
  · rw [al_of₆, same₅]
  rintro al₇ s₇ lore₇ y₇ has₇ ⟨rfl, rfl, al_of₇⟩
  have stored : s₇.jobs = buffer ∧ s₇.al = some (al.block, true) := by
    rw [same₅, same₄]
    exact ⟨rfl, rfl⟩
  have inherited : s₇.inheritList = s₃.inheritList := by rw [same₅, same₄]
  have within₇ : texts.In s₇ := by
    rw [same₅, same₄, same₃]
    exact ⟨within.application, within.commandLine, within.dir⟩
  have block₇ : al₇.block = al.block := by rw [al_of₇, al_of₆]
  have jobs₇ : al₇.jobs = buffer.map (·, call.jobs) := by
    rw [al_of₇, al_of₆, al_of]
    cases buffer <;> rfl
  have handles₇ : al₇.handles = some s₇.inheritList := by rw [al_of₇]
  have console₇ : al₇.console = none := by rw [al_of₇, al_of₆, al_of]
  have number : (al₇.jobs.map Prod.snd).getD [] = call.jobs := by rw [jobs₇, buffer_jobs some₄]
  refine launchCreate_steps has₇ (create_needs within₇ ?_ ?_ ?_ ?_) fun info enclosed ns y found has => ?_
  · rw [block₇, stored.2]
  · intro b jobs known
    rw [jobs₇] at known
    obtain ⟨b', held, same⟩ := Option.map_eq_some_iff.mp known
    rw [stored.1, held, (Prod.mk.inj same).1]
  · intro d member
    rwa [handles₇, Option.getD_some] at member
  · intro c known
    rw [console₇] at known
    cases known
  · obtain ⟨b, born⟩ : ∃ b, b = CreateCall.birth ⟨texts.application, texts.commandLine, texts.dir, env, true,
      launchStdio dups, wantBreakaway, al₇⟩ lore₇.births.length info ns enclosed := ⟨_, rfl⟩
    have info_of : info = b.info := by rw [born]; rfl
    rw [← born, info_of] at has
    rw [info_of]
    refine Safely.mono (fun r z went => ?_) (launchFinish_steps has has₇.uses)
    obtain ⟨lore', went⟩ := went
    obtain ⟨r, s'⟩ := r
    cases r with
    | error err => exact ⟨lore', went⟩
    | ok info' =>
      obtain ⟨has, rfl, rfl, free⟩ := went
      refine ⟨_, has, b, rfl, ⟨by rw [born]; rfl, ?_, by rw [born]; rfl, ?_, ?_, ?_, free⟩, rfl⟩
      · exact ⟨command.1, by rw [born]; exact texts_of.create made⟩
      · rw [← number, found, born]
        rfl
      · have inherits : b.inherited = s₃.inheritList := by
          rw [born, ← inherited]
          simp only [CreateCall.birth, handles₇, if_true, Option.getD_some]
        rw [inherits]
        exact ⟨dups, by simpa using origs_of, copies, by rw [born]; rfl⟩
      · intro d member outside
        have apart := (Multiset.nodup_add.mp has₇.single).2.2
        have inside : d ∈ s₇.inheritList := by
          rw [born] at member
          simpa only [CreateCall.birth, handles₇, if_true, Option.getD_some] using member
        exact Multiset.disjoint_left.mp apart (mem_owned inside) outside

/-- The pseudoconsole is the caller's, and the attributes name it as long as
they are used. -/
theorem launchConsole_steps {al : Attributes} {console : Nat} (has : Has (s.owned + F) ts lore x)
    (inited : s.al = some (al.block, true)) (open' : .console console ∈ F) :
    LaunchSteps F ts lore (launchConsole al console) s (fun al' s' lore' => lore' = lore ∧ s' = s ∧
      al' = { al with console := some console }) x := by
  refine Steps.call (Runs.use (c := .updateConsole al console) (P := fun _ => True) trivial has (fun _ _ => rfl)
    (fun r needed => ?_) (fun _ _ _ _ _ => trivial) fun a y _ _ has => ?_)
  · simp only [Multiset.mem_add, Multiset.mem_singleton] at needed
    obtain ⟨block, list⟩ := mem_owned_al inited
    rw [Multiset.mem_add]
    rcases needed with (rfl | rfl) | rfl
    · exact .inl block
    · exact .inl list
    · exact .inr open'
  · cases a with
    | false => exact LaunchSteps.throw has (.refl lore)
    | true => exact LaunchSteps.pure has ⟨rfl, rfl, rfl⟩

/-- A process that is launched on a pseudoconsole, with nothing inherited.
-/
structure LaunchedOn (call : WjLaunch) (console : Nat) (env : Option (List UInt16)) (lore : Lore)
    (b : Birth) : Prop where
  number : b.number = lore.births.length
  texts : ∃ comspec, wjCreate ⟨.ok comspec, isWide, none⟩ call = .ok ⟨b.application, b.commandLine, b.dir⟩
  env : b.env = env
  jobs : jobNumbers lore.jobs call.jobs = some b.jobs
  inherits : b.inherited = []
  stdio : b.stdio = some ⟨none, none, none⟩
  console : b.console = some console

/-- The body of `wj_launch_pty`: the stages of `wj_launch` without streams,
and with a pseudoconsole in their place. The lemmas of the stages are the
same. -/
theorem wjLaunchPtyBody_steps {call : WjLaunch} {console : Nat} {env : Option (List UInt16)} (has : Has F ts lore x)
    (open' : .console console ∈ F) :
    Steps launchHost launchDeal (wjLaunchPtyBody call console env) {}
      (LaunchTail F ts lore (fun info => {.handle info.handle}) fun info _ lore' => ∃ b, info = b.info ∧
        LaunchedOn call console env lore b ∧ lore' = lore.create b false) x := by
  refine LaunchSteps.andTail (launchCommand_steps has) ?_
  rintro command s₁ lore₁ y₁ has₁ ⟨rfl, ⟨c, t, rfl⟩, made⟩
  refine LaunchSteps.andTail (launchTexts_steps has₁ rfl rfl rfl) ?_
  rintro texts s₂ lore₂ y₂ has₂ ⟨rfl, texts_of, within, same₂⟩
  refine LaunchSteps.andTail (launchBuffer_steps has₂ ?_) ?_
  · rw [same₂]
  rintro buffer s₄ lore₄ y₄ has₄ ⟨rfl, same₄, some₄⟩
  refine LaunchSteps.andTail (launchAttributes_steps has₄ ?_) ?_
  · rw [same₄, same₂]
  rintro al s₅ lore₅ y₅ has₅ ⟨rfl, same₅, al_of⟩
  refine LaunchSteps.andTail (launchJobList_steps has₅ ?_ ?_) ?_
  · rw [same₅]
  · rw [same₅, same₄]
  rintro al₆ s₆ lore₆ y₆ has₆ ⟨rfl, rfl, al_of₆⟩
  refine LaunchSteps.andTail (launchConsole_steps has₆ ?_ open') ?_
  · rw [al_of₆, same₅]
  rintro al₇ s₇ lore₇ y₇ has₇ ⟨rfl, rfl, al_of₇⟩
  have stored : s₇.jobs = buffer ∧ s₇.al = some (al.block, true) := by
    rw [same₅, same₄]
    exact ⟨rfl, rfl⟩
  have within₇ : texts.In s₇ := by
    rw [same₅, same₄]
    exact ⟨within.application, within.commandLine, within.dir⟩
  have block₇ : al₇.block = al.block := by rw [al_of₇, al_of₆]
  have jobs₇ : al₇.jobs = buffer.map (·, call.jobs) := by
    rw [al_of₇, al_of₆, al_of]
    cases buffer <;> rfl
  have handles₇ : al₇.handles = none := by rw [al_of₇, al_of₆, al_of]
  have console₇ : al₇.console = some console := by rw [al_of₇]
  have number : (al₇.jobs.map Prod.snd).getD [] = call.jobs := by rw [jobs₇, buffer_jobs some₄]
  refine launchCreate_steps has₇ (create_needs within₇ ?_ ?_ ?_ ?_) fun info enclosed ns y found has => ?_
  · rw [block₇, stored.2]
  · intro b jobs known
    rw [jobs₇] at known
    obtain ⟨b', held, same⟩ := Option.map_eq_some_iff.mp known
    rw [stored.1, held, (Prod.mk.inj same).1]
  · intro d member
    rw [handles₇] at member
    cases member
  · intro c known
    rw [console₇] at known
    rwa [← Option.some.inj known]
  · obtain ⟨b, born⟩ : ∃ b, b = CreateCall.birth ⟨texts.application, texts.commandLine, texts.dir, env, false,
      some ⟨none, none, none⟩, false, al₇⟩ lore₇.births.length info ns enclosed := ⟨_, rfl⟩
    have info_of : info = b.info := by rw [born]; rfl
    rw [← born, info_of] at has
    rw [info_of]
    refine Safely.mono (fun r z went => ?_) (launchFinish_steps has has₇.uses)
    obtain ⟨lore', went⟩ := went
    obtain ⟨r, s'⟩ := r
    cases r with
    | error err => exact ⟨lore', went⟩
    | ok info' =>
      obtain ⟨has, rfl, rfl, -⟩ := went
      refine ⟨_, has, b, rfl,
        ⟨by rw [born]; rfl, ?_, by rw [born]; rfl, ?_, by rw [born]; rfl, by rw [born]; rfl, ?_⟩, rfl⟩
      · exact ⟨command.1, by rw [born]; exact texts_of.create made⟩
      · rw [← number, found, born]
        rfl
      · rw [born]
        exact console₇

/-- What a launcher leaves: the handle of a process that is as it was asked
for, or nothing and no process that lives. -/
def LaunchEnd (F : Multiset Asset) (ts : List (Task Asset)) (lore : Lore) (asked : Birth → Prop)
    (r : Except (Option String) ProcessInfo) (y : LaunchWorld) : Prop :=
  ∃ lore', match r with
    | .ok info =>
      Has ({.handle info.handle} + F) ts lore' y ∧ ∃ b, info = b.info ∧ asked b ∧ lore' = lore.create b false
    | .error _ => Has F ts lore' y ∧ lore.Stillborn lore'

/-- Behind `done:` nothing is held that was not held before, but for the
handle of the process where there is one. -/
theorem launchDone_end {asked : Birth → Prop} {r : Except (Option String) ProcessInfo} (kept : Kept ts F)
    (went : LaunchTail F ts lore (fun info => {.handle info.handle})
      (fun info _ lore' => ∃ b, info = b.info ∧ asked b ∧ lore' = lore.create b false) r s x) :
    Runs (launchDone s >>= fun _ => pure r) (LaunchEnd F ts lore asked) x := by
  obtain ⟨lore', went⟩ := went
  cases r with
  | error err =>
    refine Safely.andThen (launchDone_runs went.1 kept) fun _ y has => ?_
    exact Safely.done has (Kernel.Knows.stable _) fun _ later => ⟨lore', later, went.2⟩
  | ok info =>
    refine Safely.andThen (launchDone_runs went.1 (kept.add _)) fun _ y has => ?_
    exact Safely.done has (Kernel.Knows.stable _) fun _ later => ⟨lore', later, went.2⟩

/-- `wj_launch` from the tests of its arguments to its result. -/
theorem wjLaunchProcess_runs {call : WjLaunch} {io : Option WjStdio} {wantBreakaway : Bool}
    {env : Option (List UInt16)}
    (has : Has F ts lore x) :
    Runs (wjLaunchProcess call io wantBreakaway env) (LaunchEnd F ts lore fun b =>
      wjLaunchRefused call io wantBreakaway = none ∧
        LaunchedAs call ((io.map WjStdio.origs).getD []) wantBreakaway env F lore b) x := by
  unfold wjLaunchProcess
  cases refused : wjLaunchRefused call io wantBreakaway with
  | some err => exact Safely.done has (Kernel.Knows.stable _) fun _ later => ⟨lore, later, .refl lore⟩
  | none =>
    refine Safely.andThen (wjLaunchBody_steps has) fun r y went => launchDone_end has.uses ?_
    simpa only [true_and] using went

/-- `wj_launch_pty` from the tests of its arguments to its result. -/
theorem wjLaunchPtyProcess_runs {call : WjLaunch} {pseudoconsole : Option Nat} {env : Option (List UInt16)}
    (has : Has F ts lore x) (open' : ∀ c, pseudoconsole = some c → .console c ∈ F) :
    Runs (wjLaunchPtyProcess call pseudoconsole env) (LaunchEnd F ts lore fun b =>
      wjLaunchPtyRefused call pseudoconsole = none ∧ ∃ c, pseudoconsole = some c ∧
        LaunchedOn call c env lore b) x := by
  unfold wjLaunchPtyProcess
  cases refused : wjLaunchPtyRefused call pseudoconsole with
  | some err => exact Safely.done has (Kernel.Knows.stable _) fun _ later => ⟨lore, later, .refl lore⟩
  | none =>
    cases pseudoconsole with
    | none =>
      unfold wjLaunchPtyRefused at refused
      split_ifs at refused
      · simp_all
    | some c =>
      refine Safely.andThen (wjLaunchPtyBody_steps has (open' c rfl)) fun r y went => launchDone_end has.uses ?_
      simpa only [true_and, Option.some.injEq, exists_eq_left', Option.getD_some] using went

end

end Machteld
