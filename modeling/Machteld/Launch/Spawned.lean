import Machteld.Launch.Spawn

namespace Machteld

/-- What the threads of a child work with is there for them. -/
structure ChildRecord.Captured (c : ChildRecord) (o : ChildOpts) (stream : Bool) : Prop where
  sound : c.Sound
  buffers : (o.channels || o.inherit) = false → c.roBuf.isSome = true ∧ c.reBuf.isSome = true
  threads : (o.channels || o.inherit) = false → stream = false → c.tOut.isSome = true ∧ c.tErr.isSome = true
  bare : (o.channels || o.inherit) = true → c.tOut = none ∧ c.tErr = none

/-- A child that is being started, its process there and its job its own. -/
structure ChildLocals.Begun (s : ChildLocals) (o : ChildOpts) (j : Nat) (info : ProcessInfo) : Prop where
  still : s.c.Still
  buffers : s.c.roBuf = none ∧ s.c.reBuf = none ∧ s.c.wiBuf = none
  ends : s.c.wiWrite = none ∧ s.c.inW = none ∧ s.c.doneEv = none
  job : s.c.job = some j
  proc : s.c.proc = some info.handle
  pipes : o.inherit = false → s.c.outR.isSome = true ∧ s.c.errR.isSome = true
  input : o.inherit = false → (o.stdin.isSome || o.channels) = true → s.stdinW.isSome = true
  idle : (o.stdin.isSome || o.channels) = false → s.stdinW = none

section

variable {α β : Type} {x : LaunchWorld} {F : Multiset Asset} {ts : List (Task Asset)}
  {lore lore' : Lore} {address : Nat}
  {s : ChildLocals}

/-- The child's ends of the pipes are closed in the parent, so that a pipe
ends when the child's side does. No thread runs yet that could use them. -/
theorem closeEnds_steps (has : Has (s.owned + F) ts lore' x) (still : s.c.Still) (kept : Kept ts F) :
    ChildSteps F ts lore address closeEnds s (fun _ s' lore'' => lore'' = lore' ∧
      s' = { s with outW := none, errW := none, nul := none, stdinR := none }) x := by
  obtain ⟨outW, errW, nul, stdinR, stdinW, c⟩ := s
  have silent : c.tasks address ++ ts = ts := by rw [still.tasks, List.nil_append]
  simp only [ChildLocals.owned, add_assoc] at has
  have rest := kept.add (heldHandle stdinW + (heldHandle c.inW + (heldHandle c.writeEnd + (c.threads + c.kept))))
  simp only [add_assoc] at rest
  have second := (rest.add (heldHandle stdinR)).add (heldHandle nul)
  refine Steps.get (Steps.within (Safely.andThen (closeHeld_runs has (second.add (heldHandle errW)))
    fun _ y has => ?_))
  refine Steps.modify (Steps.within (Safely.andThen (closeHeld_runs has second) fun _ y has => ?_))
  refine Steps.modify (Steps.within (Safely.andThen (closeHeld_runs has (rest.add (heldHandle stdinR)))
    fun _ y has => ?_))
  refine Steps.modify (Steps.within (Safely.andThen (closeHeld_runs has rest) fun _ y has => ?_))
  refine ChildSteps.modify (silent.symm ▸ has.swap ?_) ⟨rfl, rfl⟩
  simp only [ChildLocals.owned, heldHandle, Option.elim_none, zero_add, add_assoc]

/-- Without a monitor the threads of a record are its writer and its
readers. -/
theorem ChildRecord.tasks_quiet {c : ChildRecord} (quiet : c.monitor = none) :
    c.tasks address = c.writer address ++ (c.reader address ++ c.errReader address) := by
  rw [ChildRecord.tasks, ChildRecord.observer, quiet]
  rfl

/-- A thread that reads works with its buffer and its end of the pipe. -/
theorem readerStarts {buf read : Nat} {f : Option Nat → LaunchM α} {post : α → LaunchWorld → Prop}
    {M : Multiset Asset}
    (has : Has M ts lore x) (own : .block address ∈ M) (buffer : .block buf ∈ M) (pipe : .handle read ∈ M)
    (failed : ∀ y, Has M ts lore y → Runs (f none) post y)
    (started : ∀ t y, Has ({.handle t} + M) ((ThreadBody.reader address buf read).task t :: ts) lore y →
      Runs (f (some t)) post y) : Runs (Prog.ask (.createThread (.reader address buf read)) >>= f) post x := by
  refine Runs.createThread (has.swap (zero_add M).symm) has.uses (fun r used => ?_)
    (fun y later => failed y (Has.swap later (zero_add M))) fun t lore' y known later => ?_
  · rcases Multiset.mem_add.mp used with here | here
    · rcases Multiset.mem_add.mp here with here | here <;> rw [Multiset.mem_singleton.mp here]
      · exact own
      · exact buffer
    · rw [Multiset.mem_singleton.mp here]
      exact pipe
  · obtain rfl : lore' = lore := known
    exact started t y later

theorem ChildRecord.tasks_reading {c : ChildRecord} (tIn : c.tIn = none) (monitor : c.monitor = none) :
    c.tasks address = c.reader address ++ c.errReader address := by
  simp only [ChildRecord.tasks, ChildRecord.observer, ChildRecord.writer, tIn, monitor, Option.map_none,
    Option.toList_none,
    List.nil_append]

/-- Two reader threads, each with the buffer and the pipe of its stream.
Where the second one does not start, the first is left to `fail:`, which
joins it before it frees what it works with. -/
theorem childReaderThreads_steps {ro re outR errR : Nat} (has : Has (s.owned + F) ts lore' x) (still : s.c.Still)
    (roBuf : s.c.roBuf = some ro) (reBuf : s.c.reBuf = some re) (out : s.c.outR = some outR)
    (err : s.c.errR = some errR)
    (own : .block address ∈ F) (under : lore.Under F s.c.job lore') :
    ChildSteps F ts lore address (childReaderThreads address ro re) s (fun _ s' lore'' => lore'' = lore' ∧
      ∃ tOut tErr, s' = { s with c := { s.c with tOut := some tOut, tErr := some tErr } } ∧ s'.c.Sound) x := by
  have held : ∀ r ∈ s.owned, r ∈ s.owned + F := fun r member => Multiset.mem_add.mpr (.inl member)
  have own' : .block address ∈ s.owned + F := Multiset.mem_add.mpr (.inr own)
  refine Steps.get (Steps.call (readerStarts has own' ?_ ?_ (fun y has => ?_) fun tOut y has => Steps.modify ?_))
  · refine held _ ?_
    simp only [ChildLocals.owned, ChildRecord.kept, roBuf, heldBlock, Option.elim_some, Multiset.mem_add,
      Multiset.mem_singleton, true_or, or_true]
  · refine held _ ?_
    simp only [ChildLocals.owned, ChildRecord.kept, out, heldHandle, Option.elim_some, Option.getD_some,
      Multiset.mem_add, Multiset.mem_singleton, true_or, or_true]
  · refine ChildSteps.throw ?_ still.sound still.monitor under
    rw [still.tasks, List.nil_append]
    exact has
  have has := Has.own has (owned_tOut still.tOut)
  obtain ⟨s₁, reading⟩ : ∃ s₁ : ChildLocals, s₁ = { s with c := { s.c with tOut := some tOut } } := ⟨_, rfl⟩
  rw [← reading] at has ⊢
  have quiet : s₁.c.monitor = none := by rw [reading]; exact still.monitor
  have bare : s₁.c.tErr = none := by rw [reading]; exact still.tErr
  have tIn : s₁.c.tIn = none := by rw [reading]; exact still.tIn
  have first : s₁.c.reader address = [(ThreadBody.reader address ro outR).task tOut] := by
    rw [reading]
    simp only [ChildRecord.reader, roBuf, out]
    rfl
  have sound : s₁.c.Sound := by
    refine ⟨fun some' => ?_, fun _ => ?_, fun some' => ?_⟩
    · rw [tIn] at some'
      cases some'
    · rw [reading]
      exact ⟨by rw [roBuf]; rfl, by rw [out]; rfl⟩
    · rw [bare] at some'
      cases some'
  have tasks : s₁.c.tasks address ++ ts = (ThreadBody.reader address ro outR).task tOut :: ts := by
    rw [ChildRecord.tasks_reading tIn quiet, first, ChildRecord.errReader, bare]
    rfl
  have under₁ : lore.Under F s₁.c.job lore' := by rw [reading]; exact under
  have held : ∀ r ∈ s₁.owned, r ∈ s₁.owned + F := fun r member => Multiset.mem_add.mpr (.inl member)
  have own₁ : .block address ∈ s₁.owned + F := Multiset.mem_add.mpr (.inr own)
  have err₁ : s₁.c.errR = some errR := by rw [reading]; exact err
  have reBuf₁ : s₁.c.reBuf = some re := by rw [reading]; exact reBuf
  rw [out] at has
  refine Steps.call (readerStarts has own₁ ?_ ?_ (fun y has => ?_) fun tErr y has => ?_)
  · refine held _ ?_
    simp only [ChildLocals.owned, ChildRecord.kept, reBuf₁, heldBlock, Option.elim_some, Multiset.mem_add,
      Multiset.mem_singleton, or_true]
  · refine held _ ?_
    simp only [err, ChildLocals.owned, ChildRecord.kept, err₁, heldHandle, Option.elim_some, Option.getD_some,
      Multiset.mem_add, Multiset.mem_singleton, true_or, or_true]
  · exact ChildSteps.throw (tasks.symm ▸ has) sound quiet under₁
  have has := Has.own has (owned_tErr bare)
  obtain ⟨s₂, both⟩ : ∃ s₂ : ChildLocals, s₂ = { s₁ with c := { s₁.c with tErr := some tErr } } := ⟨_, rfl⟩
  have sound₂ : s₂.c.Sound := by
    rw [both]
    exact ⟨sound.writer, sound.reader, fun _ => ⟨by rw [reBuf₁]; rfl, by rw [err₁]; rfl⟩⟩
  have tasks₂ : s₂.c.tasks address = [(ThreadBody.reader address ro outR).task tOut,
    (ThreadBody.reader address re errR).task tErr] := by
    have tIn₂ : s₂.c.tIn = none := by rw [both]; exact tIn
    have quiet₂ : s₂.c.monitor = none := by rw [both]; exact quiet
    have second : s₂.c.errReader address = [(ThreadBody.reader address re errR).task tErr] := by
      rw [both]
      simp only [ChildRecord.errReader, reBuf₁, err₁]
      rfl
    have first₂ : s₂.c.reader address = s₁.c.reader address := by rw [both]; rfl
    rw [ChildRecord.tasks_reading tIn₂ quiet₂, first₂, first, second]
    rfl
  refine ChildSteps.modify
    (?_ : Has (({ s₁ with c := { s₁.c with tErr := some tErr } } : ChildLocals).owned + F) _ _ _)
    ⟨rfl, tOut, tErr, by rw [reading], both ▸ sound₂⟩
  rw [← both] at has ⊢
  rw [tasks₂]
  rw [err] at has
  exact has.among fun t => by
    simp only [List.cons_append, List.nil_append, List.mem_cons, Option.getD_some]
    exact or_left_comm

/-- Readers run only where the output is captured; each of them works with a
buffer and a pipe that stay in the record until it is joined. -/
theorem childReaders_steps {o : ChildOpts} {stream : Bool} {j : Nat} {info : ProcessInfo}
    (has : Has (s.owned + F) ts lore' x)
    (begun : s.Begun o j info) (own : .block address ∈ F) (under : lore.Under F s.c.job lore') :
    ChildSteps F ts lore address (childReaders o address stream) s (fun _ s' lore'' => lore'' = lore' ∧
      ∃ ro re tOut tErr, s' = { s with c := { s.c with roBuf := ro, reBuf := re, tOut := tOut, tErr := tErr } } ∧
        s'.c.Captured o stream) x := by
  have still := begun.still
  obtain ⟨noOut, noErr, -⟩ := begun.buffers
  have silent : s.c.tasks address ++ ts = ts := by rw [still.tasks, List.nil_append]
  unfold childReaders
  split
  · rename_i bare
    refine ChildSteps.pure (silent.symm ▸ has) ⟨rfl, s.c.roBuf, s.c.reBuf, s.c.tOut, s.c.tErr, rfl, still.sound,
      fun captured => ?_, fun captured => ?_, fun _ => ⟨still.tOut, still.tErr⟩⟩
    · rw [bare] at captured
      cases captured
    · rw [bare] at captured
      cases captured
  rename_i captured
  have pipes := begun.pipes (by
    cases inherit : o.inherit with
    | false => rfl
    | true => rw [inherit, Bool.or_true] at captured; exact absurd rfl captured)
  refine Steps.call (Runs.malloc has fun ro y has => Steps.modify ?_)
  have has := Has.own has (owned_roBuf noOut)
  refine Steps.call (Runs.malloc has fun re y has => Steps.modify ?_)
  have has := Has.own has (owned_reBuf noErr)
  have still₂ : ({ s.c with roBuf := ro, reBuf := re } : ChildRecord).Still :=
    ⟨still.tIn, still.tOut, still.tErr, still.monitor⟩
  have silent₂ : ({ s.c with roBuf := ro, reBuf := re } : ChildRecord).tasks address ++ ts = ts := by
    rw [still₂.tasks, List.nil_append]
  cases ro with
  | none => exact ChildSteps.throw (silent₂.symm ▸ has) still₂.sound still₂.monitor under
  | some ro =>
    cases re with
    | none => exact ChildSteps.throw (silent₂.symm ▸ has) still₂.sound still₂.monitor under
    | some re =>
      dsimp only
      split
      · rename_i streamed
        refine ChildSteps.pure (silent₂.symm ▸ has) ⟨rfl, some ro, some re, s.c.tOut, s.c.tErr, rfl, still₂.sound,
          fun _ => ⟨rfl, rfl⟩, fun _ captured => ?_, fun bare => absurd bare captured⟩
        rw [streamed] at captured
        cases captured
      · obtain ⟨outR, out⟩ := Option.isSome_iff_exists.mp pipes.1
        obtain ⟨errR, err⟩ := Option.isSome_iff_exists.mp pipes.2
        refine (childReaderThreads_steps has still₂ rfl rfl out err own under).mono ?_
        rintro _ s' lore'' ⟨rfl, tOut, tErr, same, sound⟩
        refine ⟨rfl, some ro, some re, some tOut, some tErr, same, sound, fun _ => ?_, fun _ _ => ?_,
          fun bare => absurd bare captured⟩
        · rw [same]
          exact ⟨rfl, rfl⟩
        · rw [same]
          exact ⟨rfl, rfl⟩

theorem Kept.within {M N : Multiset Asset} (kept : Kept ts M) (part : M ≤ N) : Kept ts N :=
  fun task member r used => Multiset.mem_of_le part (kept task member r used)

/-- The end of the input can be handed over: no thread works with it. -/
theorem owned_writeEnd {k : Nat} (tIn : s.c.tIn = none) (write : s.c.wiWrite = some k) :
    ∃ R, s.owned = {.handle k} + R ∧
    s.c.kept ≤ R ∧ ∀ h, ({ s with c := { s.c with tIn := some h } } : ChildLocals).owned = {.handle h} + R := by
  refine ⟨heldHandle s.outW + (heldHandle s.errW + (heldHandle s.nul + (heldHandle s.stdinR + (heldHandle s.stdinW +
    (heldHandle s.c.inW + (s.c.threads + s.c.kept)))))), ?_, ?_, fun h => ?_⟩
  · simp only [ChildLocals.owned, ChildRecord.writeEnd, tIn, write, heldHandle, Option.isNone_none, if_true,
      Option.elim_some]
    abel
  · simp only [← add_assoc]
    exact Multiset.le_add_left _ _
  · have kept : ({ s.c with tIn := some h } : ChildRecord).kept = s.c.kept := rfl
    simp only [ChildLocals.owned, ChildRecord.writeEnd, ChildRecord.threads, kept, tIn, heldHandle,
      Option.isNone_some, if_false,
      Bool.false_eq_true, Option.elim_none, Option.elim_some]
    abel

theorem ChildRecord.kept_le_owned : s.c.kept ≤ s.owned := by
  simp only [ChildLocals.owned, ← add_assoc]
  exact Multiset.le_add_left _ _

theorem ChildRecord.working_le_owned : s.c.threads + s.c.kept ≤ s.owned := by
  simp only [ChildLocals.owned, ← add_assoc]
  simp only [add_assoc _ s.c.threads]
  exact Multiset.le_add_left _ _

/-- Threads work only with what the record and the caller keep. -/
theorem ChildRecord.Sound.keepsAll {c : ChildRecord} (sound : c.Sound) (quiet : c.monitor = none) (kept : Kept ts F)
    (own : .block address ∈ F) : Kept (c.tasks address ++ ts) (c.kept + F) := by
  rw [ChildRecord.tasks_quiet quiet]
  exact (sound.keeps own).append (kept.add _)

/-- The threads that read go on where the one that writes is started. -/
theorem childWriter_steps {wiBuf wiWrite : Nat} {o : ChildOpts} {stream : Bool}
    (has : Has (s.owned + F) (s.c.tasks address ++ ts) lore' x) (captured : s.c.Captured o stream)
    (tIn : s.c.tIn = none)
    (quiet : s.c.monitor = none) (buf : s.c.wiBuf = some wiBuf) (write : s.c.wiWrite = some wiWrite)
    (kept : Kept ts F)
    (own : .block address ∈ F) (under : lore.Under F s.c.job lore') :
    ChildSteps F ts lore address (childWriter address wiBuf) s (fun _ s' lore'' => lore'' = lore' ∧
      ∃ t, s' = { s with c := { s.c with tIn := some t } } ∧ s'.c.Captured o stream) x := by
  obtain ⟨R, split, part, after⟩ := owned_writeEnd tIn write
  have sound := captured.sound
  have rest : Kept (s.c.tasks address ++ ts) (R + F) := (sound.keepsAll quiet kept own).within (by gcongr)
  unfold childWriter
  refine Steps.get (Steps.call ?_)
  rw [write, Option.getD_some]
  refine Runs.createThread (b := .writer address wiBuf wiWrite) (F := R + F)
    (has.swap (by rw [split, add_assoc]; rfl)) rest
    (fun r used => ?_) (fun y has => ?_) fun t lore'' y known later => ?_
  · rcases Multiset.mem_add.mp used with here | here <;> rw [Multiset.mem_singleton.mp here]
    · exact Multiset.mem_add.mpr (.inr own)
    · refine Multiset.mem_add.mpr (.inl (Multiset.mem_of_le part ?_))
      simp only [ChildRecord.kept, buf, heldBlock, Option.elim_some, Multiset.mem_add, Multiset.mem_singleton,
        true_or, or_true]
  · exact ChildSteps.throw (Has.swap has (by rw [split, add_assoc]; rfl)) sound quiet under
  · obtain rfl : lore'' = lore' := known
    have tasks : ({ s.c with tIn := some t } : ChildRecord).tasks address ++ ts =
        (ThreadBody.writer address wiBuf wiWrite).task t :: (s.c.tasks address ++ ts) := by
      rw [ChildRecord.tasks_quiet quiet, ChildRecord.tasks_quiet (c := { s.c with tIn := some t }) quiet]
      simp only [ChildRecord.writer, tIn, buf, write]
      rfl
    refine ChildSteps.modify ?_ ⟨rfl, t, rfl, ⟨⟨fun _ => ?_, sound.reader, sound.errReader⟩, captured.buffers,
      captured.threads, captured.bare⟩⟩
    · dsimp only
      rw [tasks, after, add_assoc]
      exact later
    · rw [buf]
      rfl

/-- What is known of the input of a child that is being started. -/
structure ChildLocals.Fed (s : ChildLocals) (o : ChildOpts) : Prop where
  tIn : s.c.tIn = none
  wiBuf : s.c.wiBuf = none
  wiWrite : s.c.wiWrite = none
  inW : s.c.inW = none
  some' : (o.stdin.isSome || o.channels) = true → s.stdinW.isSome = true
  none' : (o.stdin.isSome || o.channels) = false → s.stdinW = none

/-- Input is written by a thread that has a copy of it and the writing end
of the pipe; an empty input closes that end at once, and with channels it is
kept for one of them. -/
theorem childInput_steps {o : ChildOpts} {stream : Bool} (has : Has (s.owned + F) (s.c.tasks address ++ ts) lore' x)
    (captured : s.c.Captured o stream) (quiet : s.c.monitor = none) (fed : s.Fed o) (kept : Kept ts F)
    (own : .block address ∈ F) (under : lore.Under F s.c.job lore') :
    ChildSteps F ts lore address (childInput o address) s (fun _ s' lore'' => lore'' = lore' ∧
      ∃ inW wiBuf wiLen wiWrite tIn,
      s' = { s with
        stdinW := none
        c := { s.c with inW := inW, wiBuf := wiBuf, wiLen := wiLen, wiWrite := wiWrite, tIn := tIn } } ∧
      s'.c.Captured o stream ∧ (o.channels = true → inW.isSome = true) ∧ s'.c.writeEnd = none) x := by
  have sound := captured.sound
  have idle : s.c.writeEnd = none := by rw [ChildRecord.writeEnd, fed.wiWrite, ite_self]
  unfold childInput
  split
  · rename_i channels
    exact ChildSteps.modify (has.swap (by rw [owned_inW fed.inW]))
      ⟨rfl, s.stdinW, s.c.wiBuf, s.c.wiLen, s.c.wiWrite, s.c.tIn, rfl,
        ⟨⟨sound.writer, sound.reader, sound.errReader⟩, captured.buffers, captured.threads, captured.bare⟩,
        fun _ => fed.some' (by rw [channels, Bool.or_true]), idle⟩
  rename_i channels
  cases given : o.stdin with
  | none =>
    have unused := fed.none' (by rw [given]; simpa using channels)
    refine ChildSteps.pure has ⟨rfl, s.c.inW, s.c.wiBuf, s.c.wiLen, s.c.wiWrite, s.c.tIn, ?_, captured,
      fun given => absurd given channels, idle⟩
    rw [← unused]
  | some bytes =>
    obtain ⟨stdinW, piped⟩ := Option.isSome_iff_exists.mp (fed.some' (by rw [given]; rfl))
    dsimp only
    split
    · refine Steps.call (Runs.malloc has fun b y has => ?_)
      cases b with
      | none => exact ChildSteps.throw (Has.swap has (zero_add _)) sound quiet under
      | some b =>
        have has := Has.own has (owned_wiBuf (n := bytes.length) fed.wiBuf)
        refine Steps.modify (Steps.modify ?_)
        obtain ⟨s₁, buffered⟩ : ∃ s₁ : ChildLocals, s₁ =
          { s with c := { s.c with wiBuf := some b, wiLen := bytes.length } } :=
          ⟨_, rfl⟩
        rw [← buffered] at has ⊢
        obtain ⟨s₂, handed⟩ : ∃ s₂ : ChildLocals, s₂ =
          { s₁ with stdinW := none, c := { s₁.c with wiWrite := s₁.stdinW } } :=
          ⟨_, rfl⟩
        have tIn₁ : s₁.c.tIn = none := by rw [buffered]; exact fed.tIn
        have tIn₂ : s₂.c.tIn = none := by rw [handed]; exact tIn₁
        have quiet₂ : s₂.c.monitor = none := by rw [handed, buffered]; exact quiet
        have tasks : s.c.tasks address = s₂.c.tasks address := by
          rw [ChildRecord.tasks_quiet quiet, ChildRecord.tasks_quiet quiet₂, ChildRecord.writer, fed.tIn,
            ChildRecord.writer, tIn₂,
            handed, buffered]
          rfl
        have owned : s₂.owned = s₁.owned := by
          rw [handed]
          exact owned_wiWrite tIn₁ (by rw [buffered]; exact fed.wiWrite)
        have captured₂ : s₂.c.Captured o stream := by
          rw [handed, buffered]
          exact ⟨⟨fun _ => rfl, sound.reader, sound.errReader⟩, captured.buffers, captured.threads, captured.bare⟩
        have write : s₂.c.wiWrite = some stdinW := by rw [handed, buffered]; exact piped
        have under₂ : lore.Under F s₂.c.job lore' := by rw [handed, buffered]; exact under
        rw [tasks, ← owned] at has
        rw [← handed]
        refine (childWriter_steps has captured₂ tIn₂ quiet₂ (by rw [handed, buffered]) write kept
          own under₂).mono ?_
        rintro _ s' lore'' ⟨rfl, t, same, captured'⟩
        refine ⟨rfl, s.c.inW, some b, bytes.length, some stdinW, some t, ?_, captured',
          fun given => absurd given channels,
          by rw [same]; rfl⟩
        rw [same, handed, buffered]
        dsimp only
        rw [piped]
    · refine Steps.get
        (Steps.within (Safely.andThen (closeHeld_runs (F := ({ s with stdinW := none } : ChildLocals).owned + F)
        (has.swap ?_) ?_) fun _ y has => ?_))
      · simp only [ChildLocals.owned, heldHandle, Option.elim_none, zero_add]
        abel
      · exact (sound.keepsAll quiet kept own).within
          (by gcongr; exact ChildRecord.kept_le_owned (s := { s with stdinW := none }))
      · exact ChildSteps.modify has ⟨rfl, s.c.inW, s.c.wiBuf, s.c.wiLen, s.c.wiWrite, s.c.tIn, rfl,
          ⟨⟨sound.writer, sound.reader, sound.errReader⟩, captured.buffers, captured.threads, captured.bare⟩,
          fun given => absurd given channels, idle⟩

/-- What a monitor works with is what its child holds. -/
theorem monitor_uses {c : ChildRecord} {j p ev : Nat} (job : c.job = some j) (proc : c.proc = some p)
    (done : c.doneEv = some ev)
    (own : .block address ∈ F) :
    ∀ r ∈ (ThreadBody.monitor address j p ev (c.tIn.toList ++ (c.tOut.toList ++ c.tErr.toList))).uses,
      r ∈ c.threads + c.kept + F := by
  intro r used
  rcases Multiset.mem_add.mp used with known | thread
  · have held : r = .block address ∨ r ∈ c.kept := by
      simp only [Multiset.mem_add, Multiset.mem_singleton] at known
      simp only [ChildRecord.kept, job, proc, done, heldHandle, heldJob, Option.elim_some, Multiset.mem_add,
        Multiset.mem_singleton]
      tauto
    rcases held with rfl | held
    · exact Multiset.mem_add.mpr (.inr own)
    · exact Multiset.mem_add.mpr (.inl (Multiset.mem_add.mpr (.inr held)))
  · obtain ⟨h, known, rfl⟩ := List.mem_map.mp (Multiset.mem_coe.mp thread)
    refine Multiset.mem_add.mpr (.inl (Multiset.mem_add.mpr (.inl ?_)))
    simp only [List.mem_append, Option.mem_toList] at known
    rcases known with here | here | here <;>
      simp only [ChildRecord.threads, here, heldHandle, Option.elim_some, Multiset.mem_add,
        Multiset.mem_singleton, true_or,
        or_true]

/-- The monitor shares the child's job and process with the record, and is
told of the event that it sets. It starts last, so that no stage fails
behind it. -/
theorem childMonitor_steps {j p : Nat} (has : Has (s.owned + F) (s.c.tasks address ++ ts) lore' x)
    (sound : s.c.Sound)
    (quiet : s.c.monitor = none) (job : s.c.job = some j) (proc : s.c.proc = some p) (empty : s.c.doneEv = none)
    (own : .block address ∈ F) (under : lore.Under F s.c.job lore') :
    ChildSteps F ts lore address (childMonitor address) s
      (fun _ s' lore'' => ∃ ev t o, jobAt lore'.jobs j = some o ∧
      lore'' = lore'.share o.number ∧
        s' = { s with c := { s.c with doneEv := some ev, monitor := some t } }) x := by
  refine Steps.call (Runs.take (c := .createEvent) trivial has (fun _ => rfl) fun ev y has => ?_)
  cases ev with
  | none => exact ChildSteps.throw (Has.swap has (zero_add _)) sound quiet under
  | some ev =>
    have has := Has.own has (owned_doneEv empty)
    refine Steps.modify ?_
    obtain ⟨s₁, signalled⟩ : ∃ s₁ : ChildLocals, s₁ = { s with c := { s.c with doneEv := some ev } } := ⟨_, rfl⟩
    have tasks : s.c.tasks address = s₁.c.tasks address := by
      rw [ChildRecord.tasks_quiet quiet, ChildRecord.tasks_quiet (c := s₁.c)
        (by rw [signalled]; exact quiet), signalled]
      rfl
    have job₁ : s₁.c.job = some j := by rw [signalled]; exact job
    have proc₁ : s₁.c.proc = some p := by rw [signalled]; exact proc
    have done₁ : s₁.c.doneEv = some ev := by rw [signalled]
    have quiet₁ : s₁.c.monitor = none := by rw [signalled]; exact quiet
    rw [tasks] at has
    rw [← signalled] at has ⊢
    refine Steps.get ?_
    dsimp only
    rw [job₁, proc₁, Option.getD_some, Option.getD_some]
    refine Steps.call (Runs.createThread (b := .monitor address j p ev _) (has.swap (zero_add _).symm) has.uses
      (fun r used => ?_) (fun y has => ?_) fun t lore'' y known later => ?_)
    · refine Multiset.mem_of_le ?_ (monitor_uses job₁ proc₁ done₁ own r used)
      gcongr
      exact ChildRecord.working_le_owned
    · refine ChildSteps.throw (Has.swap has (zero_add _)) ?_ quiet₁ (by rw [signalled]; exact under)
      rw [signalled]
      exact ⟨sound.writer, sound.reader, sound.errReader⟩
    · obtain ⟨o, found, rfl⟩ := known
      refine ChildSteps.modify ?_ ⟨ev, t, o, found, rfl, by rw [signalled]⟩
      have has := Has.own later (owned_monitor quiet₁)
      have tasks : ({ s₁.c with monitor := some t } : ChildRecord).tasks address ++ ts =
        (ThreadBody.monitor address j p ev
          (s₁.c.tIn.toList ++ (s₁.c.tOut.toList ++ s₁.c.tErr.toList))).task t :: (s₁.c.tasks address ++ ts) := by
        rw [ChildRecord.tasks_quiet quiet₁, ChildRecord.tasks, ChildRecord.observer]
        dsimp only
        rw [job₁, proc₁, done₁]
        rfl
      rw [← tasks] at has
      exact has

end

/-- A child that was started: nothing of it is held beside what its record
says, its threads run, and its process was born into the root job and its
own. -/
structure ChildStarted (o : ChildOpts) (root : Nat) (exe : Bytes) (cargv : List Bytes) (stream : Bool)
    (F : Multiset Asset)
    (lore : Lore) (s : ChildLocals) (lore' : Lore) : Prop where
  locals : s = { c := s.c }
  captured : s.c.Captured o stream
  monitor : s.c.monitor.isSome = true
  doneEv : s.c.doneEv.isSome = true
  writeEnd : s.c.writeEnd = none
  pipes : o.channels = true → s.c.inW.isSome = true ∧ s.c.outR.isSome = true ∧ s.c.errR.isSome = true
  reaped : s.c.reaped = false
  born : ∃ j b, s.c.job = some j ∧ s.c.proc = some b.info.handle ∧ s.c.pid = b.info.pid ∧
    ChildBorn o root exe cargv F j (lore.jobNew j) b ∧
      lore' = ((lore.jobNew j).create b false).share lore.jobs.length

section

variable {x : LaunchWorld} {F : Multiset Asset} {ts : List (Task Asset)} {lore lore' : Lore} {address : Nat}
  {s : ChildLocals}

theorem jobAt_jobNew (lore : Lore) (j : Nat) : jobAt (lore.jobNew j).jobs j = some ⟨lore.jobs.length, j⟩ := by
  rw [Lore.jobNew, jobAt, List.find?_cons, beq_self_eq_true]

/-- Up to the launch a record has streams and a job but no buffer and no thread.
-/
theorem ChildLocals.Streamed.begun {o : ChildOpts} (streamed : s.Streamed o) (stream : Bool) (j deadline : Nat)
    (info : ProcessInfo) :
    ({ s with c := ({ s.c with job := some j } : ChildRecord).running o stream info deadline } :
      ChildLocals).Begun o j info := by
  have bare := streamed.bare
  obtain ⟨c, same⟩ : ∃ c, c = s.c := ⟨_, rfl⟩
  refine ⟨⟨?_, ?_, ?_, ?_⟩, ⟨?_, ?_, ?_⟩, ⟨?_, ?_, ?_⟩, rfl, rfl, streamed.pipes, streamed.input, streamed.idle⟩ <;>
    (simp only [ChildRecord.running]; rw [bare]; rfl)

/-- The body of `child_launch` from its first allocation up to its last
stage. The record tells at every point what `fail:` has to take back, the
threads that run already included. -/
theorem childBody_steps {o : ChildOpts} {root : Nat} {exe : Bytes} {cargv : List Bytes} {stream : Bool}
    (has : Has F ts lore x)
    (kept : Kept ts F) (rootHeld : .job root ∈ F) (own : .block address ∈ F)
    (exclusive : o.inherit = true → o.stdin = none ∧ o.channels = false) :
    ChildSteps F ts lore address (childBody o root address exe cargv stream) {}
      (fun _ s lore' => ChildStarted o root exe cargv stream F lore s lore') x := by
  refine ChildSteps.andThen (childStreams_steps has) ?_
  rintro _ s₁ lore₁ y₁ has₁ ⟨rfl, streamed⟩
  have still₁ : s₁.c.Still := by rw [streamed.bare]; exact ⟨rfl, rfl, rfl, rfl⟩
  rw [still₁.tasks, List.nil_append] at has₁
  refine ChildSteps.andThen (childJob_steps has₁ streamed.bare) ?_
  rintro j s₂ lore₂ y₂ has₂ ⟨rfl, same₂⟩
  have still₂ : s₂.c.Still := by rw [same₂]; exact ⟨still₁.tIn, still₁.tOut, still₁.tErr, still₁.monitor⟩
  have job₂ : s₂.c.job = some j := by rw [same₂]
  have bare₂ : s₂.c.proc = none := by rw [same₂, streamed.bare]; rfl
  rw [still₂.tasks, List.nil_append] at has₂
  have fresh : .job j ∉ F := has₂.apart (by
    simp only [ChildLocals.owned, ChildRecord.kept, job₂, heldJob, Option.elim_some, Multiset.mem_add,
      Multiset.mem_singleton,
      true_or, or_true])
  refine ChildSteps.andThen (childProcess_steps has₂ still₂ job₂ bare₂ rootHeld (.jobNew fresh)) ?_
  rintro _ s₃ lore₃ y₃ has₃ ⟨b, deadline, same₃, born, rfl⟩
  have begun : s₃.Begun o j b.info := by
    rw [same₃, same₂]
    exact streamed.begun stream j deadline b.info
  have under : lore₁.Under F s₃.c.job ((lore₁.jobNew j).create b false) := by
    obtain ⟨rootJob, job, -, found, numbers⟩ := born.jobs
    rw [begun.job]
    exact (Lore.Under.jobNew fresh).create found (by rw [numbers]; exact List.mem_cons_of_mem _ List.mem_cons_self)
  rw [begun.still.tasks, List.nil_append] at has₃
  refine ChildSteps.andThen (closeEnds_steps has₃ begun.still kept) ?_
  rintro _ s₄ lore₄ y₄ has₄ ⟨rfl, same₄⟩
  have begun₄ : s₄.Begun o j b.info := by
    rw [same₄]
    exact ⟨begun.still, begun.buffers, begun.ends, begun.job, begun.proc, begun.pipes, begun.input, begun.idle⟩
  have under₄ : lore₁.Under F s₄.c.job ((lore₁.jobNew j).create b false) := by rw [same₄]; exact under
  rw [begun₄.still.tasks, List.nil_append] at has₄
  refine ChildSteps.andThen (childReaders_steps has₄ begun₄ own under₄) ?_
  rintro _ s₅ lore₅ y₅ has₅ ⟨rfl, ro, re, tOut, tErr, same₅, captured⟩
  have under₅ : lore₁.Under F s₅.c.job ((lore₁.jobNew j).create b false) := by rw [same₅]; exact under₄
  have quiet₅ : s₅.c.monitor = none := by rw [same₅]; exact begun₄.still.monitor
  have fed : s₅.Fed o := by
    rw [same₅]
    refine ⟨begun₄.still.tIn, begun₄.buffers.2.2, begun₄.ends.1, begun₄.ends.2.1,
      fun given => begun₄.input ?_ given,
      begun₄.idle⟩
    cases inherit : o.inherit with
    | false => rfl
    | true =>
      obtain ⟨stdin, channels⟩ := exclusive inherit
      rw [stdin, channels] at given
      cases given
  refine ChildSteps.andThen (childInput_steps has₅ captured quiet₅ fed kept own under₅) ?_
  rintro _ s₆ lore₆ y₆ has₆ ⟨rfl, inW, wiBuf, wiLen, wiWrite, tIn, same₆, captured₆, given, writeEnd⟩
  have job₆ : s₆.c.job = some j := by rw [same₆, same₅]; exact begun₄.job
  have proc₆ : s₆.c.proc = some b.info.handle := by rw [same₆, same₅]; exact begun₄.proc
  have empty₆ : s₆.c.doneEv = none := by rw [same₆, same₅]; exact begun₄.ends.2.2
  have under₆ : lore₁.Under F s₆.c.job ((lore₁.jobNew j).create b false) := by rw [same₆]; exact under₅
  have quiet₆ : s₆.c.monitor = none := by rw [same₆]; exact quiet₅
  refine (childMonitor_steps has₆ captured₆.sound quiet₆ job₆ proc₆ empty₆ own under₆).mono ?_
  rintro _ s₇ lore₇ ⟨ev, t, job, found, rfl, same₇⟩
  have number : job = ⟨lore₁.jobs.length, j⟩ := Option.some.inj (found.symm.trans (jobAt_jobNew lore₁ j))
  have fresh : s₁.c.reaped = false := by rw [streamed.bare]; rfl
  refine ⟨?_, ?_, by rw [same₇]; rfl, by rw [same₇]; rfl, ?_, fun channels => ?_, ?_, j, b, ?_, ?_, ?_, born,
    by rw [number]⟩
  · rw [same₇, same₆, same₅, same₄]
  · rw [same₇]
    exact ⟨⟨captured₆.sound.writer, captured₆.sound.reader, captured₆.sound.errReader⟩, captured₆.buffers,
      captured₆.threads,
      captured₆.bare⟩
  · rw [same₇]
    exact writeEnd
  · have captive : o.inherit = false := by
      cases inherit : o.inherit with
      | false => rfl
      | true => rw [(exclusive inherit).2] at channels; cases channels
    rw [same₇, same₆, same₅]
    exact ⟨given channels, begun₄.pipes captive⟩
  · rw [same₇, same₆, same₅, same₄, same₃, same₂]
    exact fresh
  · rw [same₇]
    exact job₆
  · rw [same₇]
    exact proc₆
  · rw [same₇, same₆, same₅, same₄, same₃]
    rfl

theorem Lore.Ends.refl (lore : Lore) (F : Multiset Asset) : lore.Ends F lore :=
  ⟨⟨[], rfl, fun _ none' => absurd none' List.not_mem_nil⟩, fun _ known => known, ⟨[], rfl⟩, fun _ known _ => known,
    fun _ _ => rfl⟩

theorem Lore.Ends.within {M N : Multiset Asset} (ends : lore.Ends N lore') (part : M ≤ N) : lore.Ends M lore' :=
  ⟨ends.births, ends.dead, ends.jobs, ends.held, fun a held => ends.others a (Multiset.mem_of_le part held)⟩

/-- What the threads of a child work with is held by it. -/
theorem ChildStarted.keeps {o : ChildOpts} {root : Nat} {exe : Bytes} {cargv : List Bytes} {stream : Bool}
    {G : Multiset Asset}
    (started : ChildStarted o root exe cargv stream G lore s lore') (own : .block address ∈ F) :
    Kept (s.c.tasks address) (s.owned + F) := by
  obtain ⟨j, b, job, proc, -⟩ := started.born
  obtain ⟨ev, done⟩ := Option.isSome_iff_exists.mp started.doneEv
  refine Kept.append (fun task member r used => ?_) ((started.captured.sound.keeps own).within (by
    gcongr
    exact ChildRecord.kept_le_owned))
  obtain ⟨t, -, rfl⟩ := Option.map_eq_some_iff.mp (Option.mem_toList.mp member)
  rw [job, proc, done] at used
  refine Multiset.mem_of_le ?_ (monitor_uses job proc done own r used)
  gcongr
  exact ChildRecord.working_le_owned

/-- What `child_launch` leaves: a child that was started and its `child_t`,
or nothing. -/
def ChildLaunched (o : ChildOpts) (root : Nat) (cargv : List Bytes) (stream : Bool) (F : Multiset Asset)
    (ts : List (Task Asset))
    (lore : Lore) : Except (String × Option String) (Nat × ChildRecord) → LaunchWorld → Prop
  | .error _, y => ∃ lore', Has F ts lore' y ∧ lore.Ends F lore'
  | .ok (address, c), y => ∃ exe G lore',
      Has (({ c := c } : ChildLocals).owned + ({.block address} + F)) (c.tasks address ++ ts) lore' y ∧
        ChildStarted o root exe cargv stream ({.block address} + (G + F)) lore { c := c } lore'

/-- `child_launch` with its failing paths: what it holds when it returns is
the child, or nothing more than before, and behind a failure no thread of
its making runs. -/
theorem childLaunch_runs {o : ChildOpts} {root : Nat} {cargv : List Bytes} {stream : Bool} (has : Has F ts lore x)
    (kept : Kept ts F) (rootHeld : .job root ∈ F) (exclusive : o.inherit = true → o.stdin = none ∧
      o.channels = false) :
    Runs (childLaunch o root cargv stream) (ChildLaunched o root cargv stream F ts lore) x := by
  refine Runs.take (c := .resolveExe (cargv.headD [])) trivial has (fun _ => rfl) fun exe y has => ?_
  cases exe with
  | none =>
    exact Safely.done (Has.swap has (zero_add F)) (Kernel.Knows.stable lore) fun _ later =>
      ⟨lore, later, .refl lore F⟩
  | some exe =>
    refine Runs.malloc has fun address y has => ?_
    cases address with
    | none =>
      refine Runs.free (Has.swap has (zero_add _)) kept fun y has => ?_
      exact Safely.done has (Kernel.Knows.stable lore) fun _ later => ⟨lore, later, .refl lore F⟩
    | some address =>
      have kept' : Kept ts ({.block address} + ({.block exe.1} + F)) := (kept.add _).add _
      refine Safely.andThen (childBody_steps has kept' (by simp [rootHeld]) (by simp) exclusive)
        fun r y done => ?_
      obtain ⟨r, s⟩ := r
      obtain ⟨lore', has, done⟩ := done
      cases r with
      | ok _ =>
        have order : s.owned + ({.block address} + ({.block exe.1} + F)) = {.block exe.1} +
          (s.owned + ({.block address} + F)) := by
          abel
        have started : ChildStarted o root exe.2 cargv stream
          ({.block address} + ({.block exe.1} + F)) lore s lore' := done
        have working : Kept (s.c.tasks address ++ ts) (s.owned + ({.block address} + F)) :=
          (started.keeps (by simp)).append ((kept.add _).add _)
        refine Runs.free (has.swap order) working fun y has => ?_
        refine Safely.done has (Kernel.Knows.stable lore') fun y later => ⟨exe.2, {.block exe.1}, lore', ?_, ?_⟩
        · rw [← started.locals]
          exact later
        · rw [← started.locals]
          exact started
      | error err =>
        obtain ⟨sound, quiet, under⟩ := done
        refine Safely.andThen (childFail_runs has sound quiet kept' (by simp)) fun _ y done => ?_
        obtain ⟨lore'', has, closes⟩ := done
        have order : ({.block address} + ({.block exe.1} + F) : Multiset Asset) = {.block exe.1} +
          ({.block address} + F) := by abel
        refine Runs.free (has.swap order) (kept.add _) fun y has => ?_
        refine Runs.free has kept fun y has => ?_
        refine Safely.done has (Kernel.Knows.stable lore'') fun _ later =>
          ⟨lore'', later, (under.closes closes).within ?_⟩
        exact (Multiset.le_add_left _ _).trans (Multiset.le_add_left _ _)

end

end Machteld
