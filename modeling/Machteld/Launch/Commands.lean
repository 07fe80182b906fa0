import Machteld.Launch.Session

namespace Machteld

section

variable {α : Type} {post : α → LaunchWorld → Prop} {x y : LaunchWorld} {F : Multiset Asset}
  {ts : List (Task Asset)}
  {lore lore' lore'' : Lore} {r : ProcChildren} {e : ChildEntry} {l m : List ChildEntry}

/-- A handle that has become a channel is no longer the program's. -/
theorem Runs.makeFileChannel {h : Nat} {f : Option Nat → LaunchM α} (has : Has ({.handle h} + F) ts lore x)
    (kept : Kept ts F)
    (failed : ∀ y, Has ({.handle h} + F) ts lore y → Runs (f none) post y)
    (made : ∀ ch y, Has F ts lore y → Runs (f (some ch)) post y) :
    Runs (Prog.ask (.makeFileChannel h) >>= f) post x := by
  have needed : ∀ r ∈ ({.handle h} : Multiset Asset), r ∈ ({.handle h} + F : Multiset Asset) := fun r member =>
    Multiset.mem_add.mpr (.inl member)
  have none' := @Safely.Deal.fair_exchange Asset _ {.handle h} 0 0 ({.handle h} + F) ts
    (by rw [zero_add]; exact needed) has.uses
  have some' := @Safely.Deal.fair_exchange Asset _ {.handle h} {.handle h} 0 F ts needed kept
  rw [zero_add] at none' some'
  refine Safely.ask (c := .makeFileChannel h) (L := fun _ w => Kernel.Knows lore w) has (Kernel.Knows.stable lore)
    (fun a _ => ?_) (fun choice a w v knows acted => ?_) fun a y _ later => ?_
  · cases a with
    | none => exact none'.1
    | some ch => exact some'.1
  · obtain rfl := launchEffect_quiet (c := .makeFileChannel h) trivial (launchHost_act acted)
    exact knows
  · cases a with
    | none => exact failed y (none'.2.1 ▸ none'.2.2 ▸ later)
    | some ch => exact made ch y (some'.2.1 ▸ some'.2.2 ▸ later)

namespace ProcChildren.Beside

theorem since (beside : r.Beside e F ts lore lore' x)
    (has : Has (e.c.held + ({.block e.address} + (heldBy r.children + (heldBy r.left + F))))
      (e.c.tasks e.address ++ (tasksOf r.children ++ (tasksOf r.left ++ ts))) lore' y) :
      r.Beside e F ts lore lore' y :=
  { beside with has := has }

/-- A call that concerns no child. -/
theorem quiet {c : LaunchCall} (calm : c.Quiet) {f : c.Answer → LaunchM α} (beside : r.Beside e F ts lore lore' x)
    (deals : ∀ a, launchDeal c a = {}) (next : ∀ a y, r.Beside e F ts lore lore' y → Runs (f a) post y) :
    Runs (Prog.ask c >>= f) post x :=
  Runs.take (T := fun _ => 0) calm beside.has deals fun a y later =>
    next a y (beside.since (Has.swap later (zero_add _)))

/-- An end of a pipe becomes a channel. -/
theorem channel {c : ChildRecord} {h : Nat} {f : Option Nat → LaunchM α} (beside : r.Beside e F ts lore lore' x)
    (held : e.c.held = {.handle h} + c.held) (tasks : c.tasks e.address = e.c.tasks e.address) (own : c.Tracked)
    (job : c.job = e.c.job) (failed : ∀ y, r.Beside e F ts lore lore' y → Runs (f none) post y)
    (made : ∀ ch y, r.Beside { e with c := c } F ts lore lore' y → Runs (f (some ch)) post y) :
    Runs (Prog.ask (.makeFileChannel h) >>= f) post x := by
  have has := beside.has
  rw [held, add_assoc] at has
  have working : Kept (e.c.tasks e.address ++ (tasksOf r.children ++ (tasksOf r.left ++ ts)))
      (c.held + ({.block e.address} + (heldBy r.children + (heldBy r.left + F)))) := by
    rw [← tasks]
    exact (own.keeps (by simp)).append ((beside.others.add _).add _)
  refine Runs.makeFileChannel has working (fun y later => failed y (beside.since ?_)) fun ch y later => made ch y ?_
  · rw [held, add_assoc]
    exact later
  · refine beside.change own job rfl (fun _ known => known) rfl ?_
    rw [tasks]
    exact later

end ProcChildren.Beside

/-- A child with the ends of its pipes, before they become channels. -/
structure ChildRecord.Piped (c : ChildRecord) : Prop where
  inW : c.inW.isSome = true
  outR : c.outR.isSome = true
  errR : c.errR.isSome = true
  tOut : c.tOut = none
  tErr : c.tErr = none
  alive : c.reaped = false

theorem setChannelOptions_runs {options : List (Nat × String × String)} {f : Bool → LaunchM α}
    (beside : r.Beside e F ts lore lore' x) (next : ∀ a y, r.Beside e F ts lore lore' y → Runs (f a) post y) :
    Runs (setChannelOptions options >>= f) post x := by
  induction options generalizing x with
  | nil => exact next true x beside
  | cons option options ih =>
    obtain ⟨ch, option, value⟩ := option
    refine ProcChildren.Beside.quiet (c := .setChannelOption ch option value) trivial beside
      (fun _ => rfl) fun a y beside => ?_
    cases a with
    | false => exact next false y beside
    | true => exact ih beside

theorem ProcChildren.Beside.done {a : α} (beside : r.Beside e F ts lore lore' x)
    (wanted : ∀ y, r.Beside e F ts lore lore' y → post a y) : Runs (Prog.done a) post x :=
  Safely.done beside.has (Kernel.Knows.stable lore') fun y later => wanted y (beside.since later)

/-- The channels that were made are given up. -/
theorem unregister_runs {ch : Nat} {f : Unit → LaunchM α} (beside : r.Beside e F ts lore lore' x)
    (next : ∀ y, r.Beside e F ts lore lore' y → Runs (f ()) post y) :
    Runs (Prog.ask (.unregisterChannel ch) >>= f) post x :=
  beside.quiet (c := .unregisterChannel ch) trivial (fun _ => rfl) fun _ => next

/-- Whatever becomes of the channels, each end of the pipes is the channel's
or the child's. -/
theorem childChannels_runs (beside : r.Beside e F ts lore lore' x) (piped : e.c.Piped) :
    Runs (childChannels e.c) (fun a y => r.Beside { e with c := a.2 } F ts lore lore' y) x := by
  obtain ⟨inW, in'⟩ := Option.isSome_iff_exists.mp piped.inW
  obtain ⟨outR, out⟩ := Option.isSome_iff_exists.mp piped.outR
  obtain ⟨errR, err⟩ := Option.isSome_iff_exists.mp piped.errR
  obtain ⟨sound, done, proc⟩ := beside.own.alive piped.alive
  have tracked : ∀ c : ChildRecord, c.job = e.c.job → c.reaped = e.c.reaped → c.tIn = e.c.tIn →
    c.wiBuf = e.c.wiBuf →
      c.tOut = none → c.tErr = none → c.doneEv = e.c.doneEv → c.proc = e.c.proc → c.Tracked := by
    intro c job reaped tIn wiBuf tOut tErr doneEv proc'
    refine ⟨job ▸ beside.own.job, fun _ => ⟨⟨?_, ?_, ?_⟩, doneEv ▸ done, proc' ▸ proc⟩, fun ended => ?_⟩
    · rw [tIn, wiBuf]
      exact sound.writer
    · rw [tOut]
      exact fun some' => by cases some'
    · rw [tErr]
      exact fun some' => by cases some'
    · rw [reaped, piped.alive] at ended
      cases ended
  have inW' : e.c.inW.getD 0 = inW := by rw [in']; rfl
  have outR' : e.c.outR.getD 0 = outR := by rw [out]; rfl
  have errR' : e.c.errR.getD 0 = errR := by rw [err]; rfl
  have idle : ∀ c : ChildRecord, c.tOut = none → c.tErr = none → c.observer e.address = e.c.observer e.address →
      c.writer e.address = e.c.writer e.address → c.tasks e.address = e.c.tasks e.address := by
    intro c tOut tErr observer writer
    simp only [ChildRecord.tasks, observer, writer, ChildRecord.reader, ChildRecord.errReader, tOut, tErr,
      piped.tOut, piped.tErr,
      Option.map_none]
  have first := idle { e.c with inW := none } piped.tOut piped.tErr rfl rfl
  have second := idle { e.c with inW := none, outR := none } piped.tOut piped.tErr rfl rfl
  have third := idle { e.c with inW := none, outR := none, errR := none } piped.tOut piped.tErr rfl rfl
  unfold childChannels
  rw [inW', outR', errR']
  refine beside.channel (c := { e.c with inW := none }) ?_ first
    (tracked _ rfl rfl rfl rfl piped.tOut piped.tErr rfl rfl) rfl (fun y beside => beside.done fun y later => later)
    fun ci y beside => ?_
  · simp only [ChildRecord.held, ChildRecord.threads, ChildRecord.kept, in', heldHandle, Option.elim_some,
      Option.elim_none]
    abel
  refine beside.channel (c := { e.c with inW := none, outR := none }) ?_ (second.trans first.symm)
    (tracked _ rfl rfl rfl rfl piped.tOut piped.tErr rfl rfl) rfl
    (fun y beside => unregister_runs beside fun y beside => beside.done fun y later => later) fun co y beside => ?_
  · simp only [ChildRecord.held, ChildRecord.threads, ChildRecord.kept, out, heldHandle, Option.elim_some,
      Option.elim_none]
    abel
  refine beside.channel (c := { e.c with inW := none, outR := none, errR := none }) ?_ (third.trans second.symm)
    (tracked _ rfl rfl rfl rfl piped.tOut piped.tErr rfl rfl) rfl
    (fun y beside => unregister_runs beside fun y beside => unregister_runs beside fun y beside =>
      beside.done fun y later => later) fun ce y beside => ?_
  · simp only [ChildRecord.held, ChildRecord.threads, ChildRecord.kept, err, heldHandle, Option.elim_some,
      Option.elim_none]
    abel
  refine setChannelOptions_runs beside fun a y beside => ?_
  cases a with
  | false =>
    exact unregister_runs beside fun y beside => unregister_runs beside fun y beside =>
      unregister_runs beside fun y beside =>
      beside.done fun y later => later
  | true =>
    refine beside.done fun y later => later.change (c := e.c.piped ci co ce)
      (tracked _ rfl rfl rfl rfl piped.tOut piped.tErr rfl rfl) rfl rfl (fun _ known => known) rfl later.has

theorem ProcChildren.Beside.apart (beside : r.Beside e F ts lore lore' y) :
    ∀ e' ∈ r.children, e'.address ≠ e.address := by
  intro e' member address
  have single := (Multiset.nodup_add.mp (Multiset.nodup_add.mp beside.has.single).2.1).2.2
  refine Multiset.disjoint_left.mp single (Multiset.mem_singleton_self _)
    (Multiset.mem_add.mpr (.inl (mem_heldBy member ?_)))
  rw [← address]
  exact e'.address_held

/-- A child that was launched is beside the registry. -/
theorem ProcChildren.Keeps.launched {o : ChildOpts} {exe : Bytes} {words : List Bytes} {address : Nat}
    {c : ChildRecord}
    {G : Multiset Asset} (keeps : r.Keeps F ts lore lore' y)
    (started : ChildStarted o r.root exe words false G lore' { c := c } lore'')
    (has : Has (({ c := c } : ChildLocals).owned + ({.block address} + (heldBy r.children + (heldBy r.left + F))))
      (c.tasks address ++ (tasksOf r.children ++ (tasksOf r.left ++ ts))) lore'' x) :
    ({ r with counter := r.counter + 1 } : ProcChildren).Beside ⟨r.counter + 1, address, c⟩ F ts lore lore'' x := by
  obtain ⟨j, b, job, proc, -, born, rfl⟩ := started.born
  have owned : ({ c := c } : ChildLocals).owned = c.held := by
    have none' : c.writeEnd = none := started.writeEnd
    simp only [ChildLocals.owned, none', heldHandle, Option.elim_none, zero_add, ChildRecord.held]
  rw [owned] at has
  have inside : lore'.jobs.length ∈ b.jobs := by
    obtain ⟨rootJob, job, -, found, numbers⟩ := born.jobs
    obtain rfl := Option.some.inj (found.symm.trans (jobAt_jobNew lore' j))
    rw [numbers]
    exact List.mem_cons_of_mem _ List.mem_cons_self
  have fresh : .job j ∉ heldBy r.children := fun member => by
    have outside := has.apart (r := .job j) (by
      have job : c.job = some j := job
      simp only [ChildRecord.held, ChildRecord.kept, job, heldJob, Option.elim_some, Multiset.mem_add,
        Multiset.mem_singleton,
        true_or, or_true])
    exact outside (Multiset.mem_add.mpr (.inr (Multiset.mem_add.mpr (.inl member))))
  refine ⟨has, ⟨?_, fun _ => ⟨started.captured.sound, started.doneEv, ?_⟩, fun ended => ?_⟩, keeps.tracked,
    keeps.confined.start job fresh inside, fun e' member => ?_, ?_, keeps.kept, keeps.root⟩
  · exact Option.isSome_of_eq_some job
  · exact Option.isSome_of_eq_some proc
  · have alive : c.reaped = false := started.reaped
    rw [alive] at ended
    cases ended
  · rcases List.mem_cons.mp member with rfl | other
    · exact le_rfl
    · exact (keeps.counted e' other).trans (Nat.le_succ _)
  · refine List.nodup_cons.mpr ⟨fun known => ?_, keeps.numbered⟩
    obtain ⟨e', member, same⟩ := List.mem_map.mp known
    have counted := keeps.counted e' member
    have same : e'.number = r.counter + 1 := same
    omega

theorem childTrack_runs {channels : Bool} {address : Nat} {c : ChildRecord} {flags : ThreadFlags}
    (beside : ({ r with counter := r.counter + 1 } : ProcChildren).Beside
      ⟨r.counter + 1, address, c⟩ F ts lore lore' x)
    (piped : channels = true → c.Piped) :
    Runs (childTrack r channels address c flags) (fun a y => RegistryKept r F ts lore a.2 y) x := by
  have others := beside.apart
  have tracked (c' : ChildRecord) (y : LaunchWorld)
      (later : ({ r with counter := r.counter + 1 } : ProcChildren).Beside
        ⟨r.counter + 1, address, c'⟩ F ts lore lore' y) :=
    later.put (l := []) (m := r.children) rfl
  unfold childTrack
  cases channels with
  | false =>
    exact Safely.done beside.has (Kernel.Knows.stable lore') fun y later =>
      ⟨rfl, lore', tracked c y (beside.since later)⟩
  | true =>
    refine Safely.andThen (childChannels_runs beside (piped rfl)) fun a y later => ?_
    obtain ⟨made, c'⟩ := a
    cases made with
    | true =>
      refine later.done fun y later => ⟨rfl, lore', ?_⟩
      dsimp only
      rw [registryStore_split (l := []) rfl others]
      exact tracked c' y later
    | false =>
      dsimp only
      rw [registryRemove_split (l := []) rfl others]
      refine Safely.andThen (childRelease_runs later) fun r' y done => ?_
      obtain ⟨-, root, lore'', keeps⟩ := done
      exact Safely.done keeps.has (Kernel.Knows.stable lore'') fun y has =>
        ⟨root, lore'', { keeps with has := has }⟩

theorem ProcChildren.Keeps.since (keeps : r.Keeps F ts lore lore' x)
    (has : Has (heldBy r.children + (heldBy r.left + F)) (tasksOf r.children ++ (tasksOf r.left ++ ts)) lore' y) :
    r.Keeps F ts lore lore' y := { keeps with has := has }

/-- A result with a registry that is as it was. -/
theorem ProcChildren.Keeps.reply {reply : ChildReply} (keeps : r.Keeps F ts lore lore' x) :
    Runs (Prog.done (reply, r)) (fun a y => RegistryKept r F ts lore a.2 y) x :=
  Safely.done keeps.has (Kernel.Knows.stable lore') fun _ later => ⟨rfl, lore', keeps.since later⟩

theorem ProcChildren.Keeps.free {reply : ChildReply} {b : Nat} (keeps : r.Keeps F ts lore lore' y)
    (has : Has ({.block b} + (heldBy r.children + (heldBy r.left + F)))
      (tasksOf r.children ++ (tasksOf r.left ++ ts)) lore' x) :
    Runs (LaunchCall.ask (.free b) >>= fun _ => Prog.done (reply, r))
      (fun a y => RegistryKept r F ts lore a.2 y) x :=
  Runs.free has keeps.has.uses fun _ has => (keeps.since has).reply

theorem startChild_runs {o : ChildOpts} {words : List Bytes} {env : Except (String × String) (Option (List UInt16))}
    {flags : ThreadFlags} (keeps : r.Keeps F ts lore lore' x) :
    Runs (startChild r o words env flags) (fun a y => RegistryKept r F ts lore a.2 y) x := by
  unfold startChild
  split
  · exact keeps.reply
  split
  · exact keeps.reply
  refine Runs.malloc keeps.has fun cargv y has => ?_
  cases cargv with
  | none => exact (keeps.since (Has.swap has (zero_add _))).reply
  | some cargv =>
    dsimp only
    split
    · exact keeps.free has
    cases env with
    | error err => exact keeps.free has
    | ok env =>
      have working := keeps.has.uses
      refine Safely.andThen (childLaunch_runs (F := {.block cargv} + (heldBy r.children + (heldBy r.left + F)))
        has (working.add _)
        ?_ fun inherit => by cases inherit) fun launched y done => ?_
      · simp only [Multiset.mem_add, keeps.root, or_true]
      cases launched with
      | error err =>
        obtain ⟨lore'', has, ends⟩ := done
        have confined : lore.Confined r.children lore'' :=
          keeps.confined.ends ends ((Multiset.le_add_right _ _).trans (Multiset.le_add_left _ _))
        refine Runs.free has working fun y has => ?_
        exact Safely.done has (Kernel.Knows.stable lore'') fun y later =>
          ⟨rfl, lore'', later, keeps.tracked, confined, keeps.counted, keeps.numbered, keeps.kept, keeps.root⟩
      | ok made =>
        obtain ⟨address, c⟩ := made
        obtain ⟨exe, G, lore'', has, started⟩ := done
        have order : ({ c := c } : ChildLocals).owned +
          ({.block address} + ({.block cargv} + (heldBy r.children + (heldBy r.left + F)))) =
            {.block cargv} + (({ c := c } : ChildLocals).owned +
              ({.block address} + (heldBy r.children + (heldBy r.left + F)))) := by
          abel
        have threads : Kept (c.tasks address) (({ c := c } : ChildLocals).owned +
            ({.block address} + (heldBy r.children + (heldBy r.left + F)))) := started.keeps (by simp)
        refine Runs.free (has.swap order) (threads.append ((working.add _).add _)) fun y has => ?_
        refine childTrack_runs (keeps.launched started has) fun channels => ?_
        obtain ⟨inW, outR, errR⟩ := started.pipes channels
        have bare := started.captured.bare (by rw [channels]; rfl)
        exact ⟨inW, outR, errR, bare.1, bare.2, started.reaped⟩

theorem waitChild_runs {ms : Option Nat} {flags : ThreadFlags} (keeps : r.Keeps F ts lore lore' x) {token : Bytes}
    (found : registryFind r token = some e) :
    Runs (waitChild r e ms flags) (fun a y => RegistryKept r F ts lore a.2 y) x := by
  obtain ⟨l, m, same, others⟩ := keeps.split found
  have beside := keeps.take same
  refine Safely.andThen (childReap_runs beside.has beside.own beside.others) fun reaped y done => ?_
  obtain ⟨has, kind⟩ := done
  obtain ⟨said, c⟩ := reaped
  have own : c.Tracked ∧ c.job = e.c.job := by
    rcases kind with ⟨rfl, -⟩ | ⟨rfl, -⟩ | ⟨rfl, -⟩
    · exact ⟨beside.own, rfl⟩
    · exact ⟨beside.own, rfl⟩
    · exact ⟨beside.own.reap, rfl⟩
  have later := beside.change own.1 own.2 rfl (fun _ known => known) rfl has
  have stored (reply : ChildReply) : Runs (Prog.done (reply, registryStore r e c))
    (fun a y => RegistryKept r F ts lore a.2 y) y := by
    rw [registryStore_split same others]
    exact later.done fun y later => ⟨rfl, lore', later.put rfl⟩
  cases said with
  | running => exact stored _
  | done => exact stored _
  | failed err => exact stored _

theorem killChild_runs (keeps : r.Keeps F ts lore lore' x) {token : Bytes} (found : registryFind r token = some e) :
    Runs (killChild r e) (fun a y => RegistryKept r F ts lore a.2 y) x := by
  obtain ⟨l, m, same, -⟩ := keeps.split found
  have beside := keeps.take same
  unfold killChild
  split
  · exact keeps.reply
  obtain ⟨j, job⟩ := Option.isSome_iff_exists.mp beside.own.job
  rw [job, Option.getD_some]
  refine Runs.jobTerminate keeps.has ?_ fun a numbers y _ has => ?_
  · refine Multiset.mem_add.mpr (.inl (mem_heldBy (e := e) ?_ (e.job_held job)))
    rw [same]
    exact List.mem_append_right _ List.mem_cons_self
  have later : r.Keeps F ts lore (lore'.end' numbers) y :=
    ⟨has, keeps.tracked, keeps.confined.later rfl (fun n known => List.mem_append_right _ known) rfl, keeps.counted,
      keeps.numbered, keeps.kept, keeps.root⟩
  cases a with
  | false => exact later.reply
  | true => exact later.reply

theorem infoChild_runs (keeps : r.Keeps F ts lore lore' x) {token : Bytes} (found : registryFind r token = some e) :
    Runs (infoChild r e) (fun a y => RegistryKept r F ts lore a.2 y) x := by
  obtain ⟨l, m, same, -⟩ := keeps.split found
  have beside := keeps.take same
  unfold infoChild
  dsimp only
  cases known : e.c.reaped with
  | true => exact keeps.reply
  | false =>
    obtain ⟨ev, done⟩ := Option.isSome_iff_exists.mp (beside.own.alive known).2.1
    rw [done, Option.getD_some]
    refine Runs.use (c := .waitEvent ev (some 0)) (P := fun _ => True) trivial keeps.has (fun _ _ => rfl)
      (fun h needed => ?_)
      (fun _ _ _ _ _ => trivial) fun a y _ _ has => (keeps.since has).reply
    rw [Multiset.mem_singleton.mp needed]
    refine Multiset.mem_add.mpr (.inl (mem_heldBy (e := e) ?_ ?_))
    · rw [same]
      exact List.mem_append_right _ List.mem_cons_self
    · simp only [ChildEntry.held, ChildRecord.held, ChildRecord.kept, done, heldHandle, Option.elim_some,
        Multiset.mem_add,
        Multiset.mem_singleton, true_or, or_true]

theorem closeChannels_runs {names : List (Option Nat)} (beside : r.Beside e F ts lore lore' x) :
    Runs (closeChannels names) (fun _ y => r.Beside e F ts lore lore' y) x := by
  induction names generalizing x with
  | nil => exact beside.done fun _ later => later
  | cons name names ih =>
    cases name with
    | none => exact ih beside
    | some ch =>
      refine ProcChildren.Beside.quiet (c := .getChannel ch) trivial beside (fun _ => rfl) fun a y beside => ?_
      cases a with
      | false => exact ih beside
      | true => exact unregister_runs (f := fun _ => closeChannels names) beside fun y beside => ih beside

theorem childChannelsFree_runs (beside : r.Beside e F ts lore lore' x) :
    Runs (childChannelsFree e.c) (fun c y => r.Beside { e with c := c } F ts lore lore' y) x := by
  unfold childChannelsFree
  split
  · refine Safely.andThen (closeChannels_runs beside) fun _ y beside => beside.done fun y beside => ?_
    obtain ⟨job, alive, done⟩ := beside.own
    refine beside.change ⟨job, fun known => ?_, fun known => ?_⟩ rfl rfl (fun _ known => known) rfl beside.has
    · obtain ⟨sound, rest⟩ := alive known
      exact ⟨⟨sound.writer, sound.reader, sound.errReader⟩, rest⟩
    · obtain ⟨still, rest⟩ := done known
      exact ⟨⟨still.tIn, still.tOut, still.tErr, still.monitor⟩, rest⟩
  · exact beside.done fun y later => later

theorem closeChild_runs {flags : ThreadFlags} (keeps : r.Keeps F ts lore lore' x) {token : Bytes}
    (found : registryFind r token = some e) :
    Runs (closeChild r e flags) (fun a y => RegistryKept r F ts lore a.2 y) x := by
  obtain ⟨l, m, same, others⟩ := keeps.split found
  refine Safely.andThen (childChannelsFree_runs (keeps.take same)) fun c y beside => ?_
  rw [registryRemove_split same others]
  refine Safely.andThen (childRelease_runs beside) fun r' y done => ?_
  obtain ⟨-, root, lore'', keeps⟩ := done
  exact Safely.done keeps.has (Kernel.Knows.stable lore'') fun y has => ⟨root, lore'', keeps.since has⟩

theorem withChild_runs {token : Bytes} {command : ChildEntry → LaunchM ChildResult}
    (keeps : r.Keeps F ts lore lore' x)
    (runs : ∀ e, registryFind r token = some e → Runs (command e) (fun a y => RegistryKept r F ts lore a.2 y) x) :
    Runs (withChild r token command) (fun a y => RegistryKept r F ts lore a.2 y) x := by
  unfold withChild
  cases found : registryFind r token with
  | none => exact keeps.reply
  | some e => exact runs e found

/-- What each command keeps. -/
theorem childCommand_runs {command : ChildCommand} (keeps : r.Keeps F ts lore lore' x) :
    Runs (childCommand r command) (fun a y => RegistryKept r F ts lore a.2 y) x := by
  cases command with
  | start o words env flags => exact startChild_runs keeps
  | list => exact keeps.reply
  | wait token ms flags => exact withChild_runs keeps fun e found => waitChild_runs keeps found
  | kill token => exact withChild_runs keeps fun e found => killChild_runs keeps found
  | info token => exact withChild_runs keeps fun e found => infoChild_runs keeps found
  | close token flags => exact withChild_runs keeps fun e found => closeChild_runs keeps found

/-- What a run of commands keeps. -/
theorem childSession_runs {commands : List ChildCommand} (keeps : r.Keeps F ts lore lore' x) :
    Runs (childSession r commands) (fun a y => RegistryKept r F ts lore a.2 y) x := by
  induction commands generalizing r lore' x with
  | nil => exact Safely.done keeps.has (Kernel.Knows.stable lore') fun _ later => ⟨rfl, lore', keeps.since later⟩
  | cons command commands ih =>
    refine Safely.andThen (childCommand_runs keeps) fun answer y done => ?_
    obtain ⟨root, lore'', keeps⟩ := done
    refine Safely.andThen (ih keeps) fun rest y done => ?_
    obtain ⟨root', lore''', keeps⟩ := done
    exact Safely.done keeps.has (Kernel.Knows.stable lore''') fun y has =>
      ⟨root'.trans root, lore''', keeps.since has⟩

/-- What is left when the children have been freed: those that were left to
their threads. -/
theorem childrenFree_runs {flags : ThreadFlags} {children : List ChildEntry} (same : r.children = children)
    (keeps : r.Keeps F ts lore lore' x) :
    Runs (childrenFree flags r children) (fun r' y => r'.children = [] ∧ RegistryKept r F ts lore r' y) x := by
  induction children generalizing r lore' x with
  | nil =>
    exact Safely.done keeps.has (Kernel.Knows.stable lore') fun _ later => ⟨same, rfl, lore', keeps.since later⟩
  | cons e children ih =>
    have beside := keeps.take (l := []) same
    refine Safely.andThen (childRelease_runs beside) fun r' y done => ?_
    obtain ⟨left, root, lore'', keeps⟩ := done
    refine (ih left keeps).mono fun r'' y done => ?_
    obtain ⟨none', root', lore''', keeps⟩ := done
    exact ⟨none', root'.trans root, lore''', keeps⟩

end

end Machteld
