import Machteld.Log.Configure

namespace Machteld

/-- A channel that is opened has a name of its own. -/
def LogHost.Fits (host : LogHost) (channels : List Bytes) : Prop :=
  ∀ path name, host.opens path = some name → name ∉ channels ∧ name ≠ []

def LogState.held (s : LogState) : List Bytes := if s.owned then [s.chan] else []

/-- The states between calls: others open and close channels, but not the
one that the logger owns, and its records only count what is dropped. -/
inductive LogReach : LogWorld → Prop
  | start (channels : List Bytes) (named : [] ∉ channels) : LogReach ⟨.start, channels, [], []⟩
  | configure {w : LogWorld} (reach : LogReach w) (host : LogHost) (fits : host.Fits w.channels)
    (rest : List Bytes) :
    LogReach (logConfigure host rest w).2
  | others {w : LogWorld} (reach : LogReach w) (channels : List Bytes) (named : [] ∉ channels)
    (kept : ∀ ch ∈ w.log.held, ch ∈ channels) : LogReach { w with channels := channels }
  | dropped {w : LogWorld} (reach : LogReach w) (n : Nat) : LogReach { w with log := { w.log with dropped := n } }

/-- There is a sink among the options. -/
def LogSinkGiven (pairs : List (Bytes × Bytes)) : Prop := ∃ p ∈ pairs, p.1 = ascii "-channel" ∨ p.1 = ascii "-file"

/-- What a call leaves: all of it or nothing, a sink that is open, and the
channel that the logger owned closed once where another replaces it. -/
structure LogAtomic (rest : List Bytes) (w : LogWorld) (done : Except TclError (List (Bytes × Bytes)) × LogWorld) :
    Prop where
  raised : ∀ e, done.1 = .error e → done.2.log = w.log ∧ done.2.channels = w.channels
  level : ∀ d, done.1 = .ok d → done.2.log.level = (dictValues (ascii "-level")
    (logPairs rest)).getLast?.getD w.log.level
  sink : ∀ d, done.1 = .ok d → LogSinkGiven (logPairs rest) → logChan done.2.log ∈ done.2.channels
  replaced : ∀ d, done.1 = .ok d → LogSinkGiven (logPairs rest) →
    done.2.closed = w.closed ++ w.log.held ∧ ∀ ch ∈ w.log.held, ch ∉ done.2.channels
  unreplaced : ∀ d, done.1 = .ok d → ¬ LogSinkGiven (logPairs rest) →
    done.2.closed = w.closed ∧ done.2.log.held = w.log.held ∧ done.2.channels = w.channels
  balanced : done.2.opened.Perm (done.2.closed ++ done.2.log.held)

/-- The request is not for the channel that the logger owns. -/
def LogAnother (rest : List Bytes) (w : LogWorld) : Prop :=
  ¬ (w.log.owned = true ∧ rest.length % 2 = 0 ∧
    ∃ level, logOptions w.channels (logPairs rest) w.log.level .current = .ok (level, .channel w.log.chan))

variable {w : LogWorld} {host : LogHost} {rest : List Bytes}

/-- What holds of the logger between calls. -/
structure LogHeld (w : LogWorld) : Prop where
  named : [] ∉ w.channels
  kept : ∀ ch ∈ w.log.held, ch ∈ w.channels
  balanced : w.opened.Perm (w.closed ++ w.log.held)

/-- What the options ask for. -/
structure LogAsked (channels : List Bytes) (pairs : List (Bytes × Bytes)) (level level' : Bytes)
    (sink sink' : LogSink) : Prop where
  level : level' = (dictValues (ascii "-level") pairs).getLast?.getD level
  unasked : ¬ LogSinkGiven pairs → sink' = sink
  asked : LogSinkGiven pairs → (∃ path, sink' = .file path) ∨ ∃ v ∈ channels, sink' = .channel v

theorem LogSinkGiven.cons_iff {p : Bytes × Bytes} {pairs : List (Bytes × Bytes)} :
    LogSinkGiven (p :: pairs) ↔ (p.1 = ascii "-channel" ∨ p.1 = ascii "-file") ∨ LogSinkGiven pairs :=
  List.exists_mem_cons_iff ..

/-- A sink option before others, with what it asks for. -/
theorem LogAsked.cons_sink {channels : List Bytes} {o v : Bytes} {pairs : List (Bytes × Bytes)}
    {level level' : Bytes}
    {sink first sink' : LogSink} (later : LogAsked channels pairs level level' first sink')
    (other : ¬ o = ascii "-level")
    (own : o = ascii "-channel" ∨ o = ascii "-file") (known : (∃ path, first = .file path) ∨
      ∃ v ∈ channels, first = .channel v) :
    LogAsked channels ((o, v) :: pairs) level level' sink sink' where
  level := by rw [later.level, @dictValues_other _ _ _ _ (o, v) _ other]
  unasked absent := absurd (LogSinkGiven.cons_iff.mpr (.inl own)) absent
  asked _ := by
    by_cases given : LogSinkGiven pairs
    · exact later.asked given
    · rw [later.unasked given]
      exact known

theorem logOptions_asked {channels : List Bytes} {pairs : List (Bytes × Bytes)} {level level' : Bytes}
    {sink sink' : LogSink}
    (passed : logOptions channels pairs level sink = .ok (level', sink')) :
    LogAsked channels pairs level level' sink sink' := by
  have apart : ¬ ascii "-level" = ascii "-channel" ∧ ¬ ascii "-level" = ascii "-file" := by decide
  fun_induction logOptions channels pairs level sink with
  | case1 level sink =>
    obtain ⟨rfl, rfl⟩ := Prod.mk.inj (Except.ok.inj passed)
    refine ⟨rfl, fun _ => rfl, fun given => ?_⟩
    obtain ⟨p, bad, -⟩ := given
    exact absurd bad List.not_mem_nil
  | case2 v rest level sink known ih =>
    have later := ih passed
    have given : LogSinkGiven ((ascii "-level", v) :: rest) ↔ LogSinkGiven rest :=
      LogSinkGiven.cons_iff.trans (or_iff_right (not_or.mpr apart))
    refine ⟨?_, fun absent => later.unasked fun inside => absent (given.mpr inside),
      fun inside => later.asked (given.mp inside)⟩
    rw [later.level, @dictValues_here _ _ _ _ (ascii "-level", v) _ rfl, List.getLast?_cons]
    rfl
  | case3 v rest level sink unknown => cases passed
  | case4 v rest level sink known other ih =>
    exact (ih passed).cons_sink other (.inl rfl) (.inr ⟨v, List.contains_iff_mem.mp known, rfl⟩)
  | case5 v rest level sink unknown other => cases passed
  | case6 v rest level sink other other' ih => exact (ih passed).cons_sink other (.inr rfl) (.inl ⟨v, rfl⟩)
  | case7 o v rest level sink other other' other'' => cases passed

theorem release_closed (w : LogWorld) : w.release.closed = w.closed ++ w.log.held := by
  unfold LogWorld.release LogState.held
  cases w.log.owned with
  | true => rfl
  | false => exact (List.append_nil _).symm

theorem release_opened (w : LogWorld) : w.release.opened = w.opened := by
  unfold LogWorld.release
  split <;> rfl

theorem mem_release {ch : Bytes} : ch ∈ w.release.channels ↔ ch ∈ w.channels ∧ ch ∉ w.log.held := by
  unfold LogWorld.release LogState.held
  cases w.log.owned with
  | true => simp [LogWorld.close]
  | false => simp

theorem filter_other {ch : Bytes} {channels : List Bytes} (absent : ch ∉ channels) :
    (channels ++ [ch]).filter (fun c => c != ch) = channels := by
  have all : ∀ c ∈ channels, (c != ch) = true := fun c member => bne_iff_ne.mpr fun same => absent (same ▸ member)
  rw [List.filter_append, List.filter_eq_self.mpr all]
  simp

/-- A request for the sink that there is. -/
theorem LogHeld.commit_current (held : LogHeld w) (level : Bytes) :
    LogHeld (logCommit host w level .current).2 := ⟨held.named, held.kept, held.balanced⟩

theorem LogHeld.commit_channel (held : LogHeld w) (level v : Bytes) :
    LogHeld (logCommit host w level (.channel v)).2 where
  named member := held.named (mem_release.mp member).1
  kept _ bad := absurd bad List.not_mem_nil
  balanced := by
    change w.release.opened.Perm (w.release.closed ++ [])
    rw [release_opened, release_closed, List.append_nil]
    exact held.balanced

/-- A file becomes the sink, or is closed again, or was not opened. -/
theorem logCommit_file (level path : Bytes) :
    (∃ staged, host.opens path = some staged ∧ logCommit host w level (.file path) =
      (.ok [], { (w.opening staged).release with log := ⟨level, staged, path, true, w.log.dropped⟩ })) ∨
    (∃ staged e, host.opens path = some staged ∧
      logCommit host w level (.file path) = (.error e, (w.opening staged).close staged)) ∨
    ∃ e, logCommit host w level (.file path) = (.error e, w) := by
  rw [logCommit]
  cases opened : host.opens path with
  | none => exact .inr (.inr ⟨_, rfl⟩)
  | some staged =>
    dsimp only
    by_cases configures : host.configures staged = true
    · rw [if_pos configures]
      exact .inl ⟨staged, rfl, rfl⟩
    · rw [if_neg configures]
      exact .inr (.inl ⟨staged, _, rfl, rfl⟩)

theorem LogHeld.commit_file (held : LogHeld w) (fits : host.Fits w.channels) (level path : Bytes) :
    LogHeld (logCommit host w level (.file path)).2 := by
  rcases logCommit_file level path with ⟨staged, opened, commit⟩ | ⟨staged, e, opened, commit⟩ | ⟨e, commit⟩
  · obtain ⟨fresh, named⟩ := fits path staged opened
    rw [commit]
    refine ⟨fun member => ?_, fun ch own => ?_, ?_⟩
    · rcases List.mem_append.mp (mem_release.mp member).1 with old | same
      · exact held.named old
      · exact named (List.mem_singleton.mp same).symm
    · obtain rfl := List.mem_singleton.mp own
      exact mem_release.mpr ⟨List.mem_append_right _ (List.mem_singleton_self _),
        fun own => fresh (held.kept _ own)⟩
    · change (w.opening staged).release.opened.Perm ((w.opening staged).release.closed ++ [staged])
      rw [release_opened, release_closed]
      exact held.balanced.append_right [staged]
  · obtain ⟨fresh, -⟩ := fits path staged opened
    have back : ((w.opening staged).close staged).channels = w.channels := filter_other fresh
    rw [commit]
    refine ⟨fun member => held.named (back ▸ member), fun ch own => back.symm ▸ held.kept ch own, ?_⟩
    change (w.opened ++ [staged]).Perm ((w.closed ++ [staged]) ++ w.log.held)
    rw [List.append_assoc]
    exact (held.balanced.append_right [staged]).trans (by
      rw [List.append_assoc]
      exact List.perm_append_comm.append_left _)
  · rw [commit]
    exact held

theorem LogHeld.configure (held : LogHeld w) (fits : host.Fits w.channels) :
    LogHeld (logConfigure host rest w).2 := by
  unfold logConfigure
  split
  · exact held
  split
  · exact held
  split
  · exact held
  · rename_i level sink _
    cases sink with
    | current => exact held.commit_current level
    | channel v => exact held.commit_channel level v
    | file path => exact held.commit_file fits level path

theorem LogReach.held (reach : LogReach w) : LogHeld w := by
  induction reach with
  | start channels named => exact ⟨named, fun _ bad => absurd bad List.not_mem_nil, List.Perm.nil⟩
  | configure reach host fits rest ih => exact ih.configure fits
  | others reach channels named kept ih => exact ⟨named, kept, ih.balanced⟩
  | dropped reach n ih => exact ⟨ih.named, ih.kept, ih.balanced⟩

theorem LogAtomic.refused (held : LogHeld w) (e : TclError) : LogAtomic rest w (.error e, w) where
  raised _ _ := ⟨rfl, rfl⟩
  level _ bad := absurd bad Except.error_ne_ok
  sink _ bad := absurd bad Except.error_ne_ok
  replaced _ bad := absurd bad Except.error_ne_ok
  unreplaced _ bad := absurd bad Except.error_ne_ok
  balanced := held.balanced

theorem LogAtomic.unasked (held : LogHeld w) (given : ¬ LogSinkGiven (logPairs rest))
    {d : List (Bytes × Bytes)} {level : Bytes}
    (known : level = (dictValues (ascii "-level") (logPairs rest)).getLast?.getD w.log.level) :
    LogAtomic rest w (.ok d, { w with log := { w.log with level := level } }) where
  raised _ bad := absurd bad.symm Except.error_ne_ok
  level _ _ := known
  sink _ _ asked := absurd asked given
  replaced _ _ asked := absurd asked given
  unreplaced _ _ _ := ⟨rfl, rfl, rfl⟩
  balanced := held.balanced

theorem LogHeld.atomic_file (held : LogHeld w) (fits : host.Fits w.channels) {level path : Bytes}
    (given : LogSinkGiven (logPairs rest))
    (known : level = (dictValues (ascii "-level") (logPairs rest)).getLast?.getD w.log.level) :
    LogAtomic rest w (logCommit host w level (.file path)) := by
  have balanced := (held.commit_file fits level path).balanced
  rcases logCommit_file level path with ⟨staged, opened, commit⟩ | ⟨staged, e, opened, commit⟩ | ⟨e, commit⟩
  · obtain ⟨fresh, named⟩ := fits path staged opened
    rw [commit] at balanced ⊢
    refine ⟨fun _ bad => absurd bad.symm Except.error_ne_ok, fun _ _ => known, fun _ _ _ => ?_,
      fun _ _ _ => ⟨?_, ?_⟩,
      fun _ _ absent => absurd given absent, balanced⟩
    · change logChan ⟨level, staged, path, true, w.log.dropped⟩ ∈ (w.opening staged).release.channels
      rw [logChan, if_pos named]
      exact mem_release.mpr ⟨List.mem_append_right _ (List.mem_singleton_self _),
        fun own => fresh (held.kept _ own)⟩
    · exact release_closed (w.opening staged)
    · exact fun ch own member => (mem_release.mp member).2 own
  · obtain ⟨fresh, -⟩ := fits path staged opened
    rw [commit] at balanced ⊢
    exact ⟨fun _ _ => ⟨rfl, filter_other fresh⟩, fun _ bad => absurd bad Except.error_ne_ok,
      fun _ bad => absurd bad Except.error_ne_ok,
      fun _ bad => absurd bad Except.error_ne_ok, fun _ bad => absurd bad Except.error_ne_ok, balanced⟩
  · rw [commit]
    exact .refused held e

theorem LogHeld.atomic_channel_iff (held : LogHeld w) {level v : Bytes} (open' : v ∈ w.channels)
    (given : LogSinkGiven (logPairs rest))
    (known : level = (dictValues (ascii "-level") (logPairs rest)).getLast?.getD w.log.level) :
    LogAtomic rest w (logCommit host w level (.channel v)) ↔ v ∉ w.log.held := by
  have named : v ≠ [] := by
    rintro rfl
    exact held.named open'
  have sink : logChan ⟨level, v, [], false, w.log.dropped⟩ = v := if_pos named
  constructor
  · intro atomic own
    have member : v ∈ w.release.channels := sink ▸ atomic.sink [] rfl given
    exact (mem_release.mp member).2 own
  · intro another
    refine ⟨fun _ bad => absurd bad.symm Except.error_ne_ok, fun _ _ => known, fun _ _ _ => ?_,
      fun _ _ _ => ⟨release_closed w, ?_⟩,
      fun _ _ absent => absurd given absent, (held.commit_channel level v).balanced⟩
    · change logChan ⟨level, v, [], false, w.log.dropped⟩ ∈ w.release.channels
      rw [sink]
      exact mem_release.mpr ⟨open', another⟩
    · exact fun ch own member => (mem_release.mp member).2 own

theorem mem_held {s : LogState} {ch : Bytes} : ch ∈ s.held ↔ s.owned = true ∧ ch = s.chan := by
  unfold LogState.held
  cases s.owned <;> simp

/-- In every state between calls, a call is atomic and leaves a sink that
is open, but where it asks for the channel that the logger owns. -/
theorem logConfigure_atomic_iff (reach : LogReach w) (fits : host.Fits w.channels) (rest : List Bytes) :
    LogAtomic rest w (logConfigure host rest w) ↔ LogAnother rest w := by
  have held := reach.held
  unfold logConfigure LogAnother
  by_cases empty : rest = []
  · subst empty
    rw [if_pos rfl]
    refine iff_of_true (.unasked held ?_ rfl) ?_
    · rintro ⟨p, bad, -⟩
      cases bad
    · rintro ⟨-, -, level, bad⟩
      cases bad
  rw [if_neg empty]
  by_cases odd : rest.length % 2 ≠ 0
  · rw [if_pos odd]
    exact iff_of_true (.refused held _) fun bad => odd bad.2.1
  have even := not_not.mp odd
  rw [if_neg odd]
  cases asks : logOptions w.channels (logPairs rest) w.log.level .current with
  | error e =>
    refine iff_of_true (.refused held e) ?_
    rintro ⟨-, -, level, bad⟩
    exact absurd bad Except.error_ne_ok
  | ok asked =>
    obtain ⟨level, sink⟩ := asked
    obtain ⟨known, unasked, asked⟩ := logOptions_asked asks
    dsimp only
    by_cases given : LogSinkGiven (logPairs rest)
    · rcases asked given with ⟨path, rfl⟩ | ⟨v, open', rfl⟩
      · refine iff_of_true (held.atomic_file fits given known) ?_
        rintro ⟨-, -, level', bad⟩
        cases bad
      · rw [held.atomic_channel_iff open' given known, mem_held]
        refine not_congr (and_congr_right fun _ => ⟨?_, ?_⟩)
        · rintro rfl
          exact ⟨even, level, rfl⟩
        · rintro ⟨-, level', same⟩
          cases same
          rfl
    · obtain rfl := unasked given
      refine iff_of_true (.unasked held given known) ?_
      rintro ⟨-, -, level', bad⟩
      cases bad

/-- A host that opens every path as one channel. -/
def logHost : LogHost := ⟨fun _ => some (ascii "file1"), fun _ => true⟩

theorem logHost_fits : logHost.Fits [ascii "stderr"] := by
  intro path name opened
  obtain rfl := Option.some.inj opened
  decide

/-- The logger has the file that it was given first. -/
def ownedWorld : LogWorld :=
  (logConfigure logHost [ascii "-file", ascii "a.log"] ⟨.start, [ascii "stderr"], [], []⟩).2

def otherHost : LogHost := ⟨fun _ => some (ascii "file2"), fun _ => true⟩

/-- Another file takes its place, at another level. -/
theorem logConfigure_atomic_sample : ownedWorld.log.owned = true ∧ ownedWorld.log.chan = ascii "file1" ∧
    LogAtomic [ascii "-level", ascii "debug", ascii "-file", ascii "b.log"] ownedWorld
      (logConfigure otherHost [ascii "-level", ascii "debug", ascii "-file", ascii "b.log"] ownedWorld) := by
  have reach : LogReach ownedWorld :=
    .configure (.start [ascii "stderr"] (by decide)) logHost logHost_fits [ascii "-file", ascii "a.log"]
  have fits : otherHost.Fits ownedWorld.channels := by
    intro path name opened
    obtain rfl := Option.some.inj opened
    decide
  refine ⟨rfl, rfl, (logConfigure_atomic_iff reach fits _).mpr ?_⟩
  rintro ⟨-, -, level, asked⟩
  cases asked

/-- The logger's own file, given to it as a channel, is closed and left for
the sink. -/
theorem logConfigure_own_channel : ∃ w, LogReach w ∧ w.log.chan = ascii "file1" ∧
    ¬ LogAtomic [ascii "-channel", ascii "file1"] w (logConfigure logHost [ascii "-channel", ascii "file1"] w) := by
  refine ⟨_, .configure (.start [ascii "stderr"] (by decide)) logHost logHost_fits [ascii "-file",
    ascii "a.log"], rfl, ?_⟩
  intro atomic
  have given : LogSinkGiven (logPairs [ascii "-channel", ascii "file1"]) := ⟨_, List.mem_singleton_self _, .inl rfl⟩
  exact absurd (atomic.sink [] rfl given) (by decide)

end Machteld
