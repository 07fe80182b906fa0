import Machteld.Publish.Kept

namespace Machteld

open Host PublishWorld

variable {Path : Type} [DecidableEq Path]

/-- Whether a name stands for nothing but a marker. -/
def PublishWorld.spare (w : PublishWorld Path) (path : Path) : Bool :=
  (w.names path).all fun f => decide (f ∈ w.made)

/-- Whether every file that is open still has this name, or no name. -/
def PublishWorld.retainsOnly (w : PublishWorld Path) (path : Path) : Bool :=
  (List.range w.nextHandle).all fun h => (w.handles h).all fun r => r.2.all fun followed => decide (followed = path)

/-- A name that is overwritten or deleted stands for nothing but a marker,
and the file that is replaced is the one that has been retained. -/
def publishMeets (c : PublishCall Path) (choice : PublishChoice) (w : PublishWorld Path) : Bool :=
  match c, choice with
  | .deleteFile path, .works => w.spare path
  | .replaceFile destination _ backup, .works => w.spare backup && w.retainsOnly destination
  | .replaceFile _ _ backup, .loses _ => w.spare backup
  | .replaceFile _ _ backup, .moves _ => w.spare backup
  | _, _ => true

/-- What has been deleted was a marker, or has been displaced. -/
structure PublishWorld.Safe (w : PublishWorld Path) : Prop where
  deleted : ∀ f ∈ w.deleted, f ∈ w.made ∨ f ∈ w.displaced
  displaced : w.displaced.length ≤ 1

/-- Nothing has been displaced, and only markers have been deleted. -/
structure PublishTidy (w : PublishWorld Path) : Prop where
  sound : w.Sound
  deleted : ∀ f ∈ w.deleted, f ∈ w.made
  displaced : w.displaced = []

structure PublishTidyMarked (b : Path) (m : FileId) (w : PublishWorld Path) : Prop extends PublishTidy w where
  made : m ∈ w.made

structure PublishTidyHeld (x : PublishHeld Path) (w : PublishWorld Path) : Prop
    extends PublishTidyMarked x.backup x.marker w, w.Retains x

/-- The retained file has been displaced, or its name is gone. -/
structure PublishDisplaced (x : PublishHeld Path) (w : PublishWorld Path) : Prop extends w.Safe where
  sound : w.Sound
  older : x.handle < w.nextHandle
  follows : ∀ f path, w.handles x.handle = some (f, some path) → f ∈ w.displaced

abbrev PublishHarmlessAmong (first : Nat) (I : PublishWorld Path → Prop) : Prop :=
  PublishHarmless true publishMeets PublishWorld.Safe first I

variable {w v : PublishWorld Path} {b : Path} {m : FileId} {x : PublishHeld Path} {h : Nat}

omit [DecidableEq Path] in
theorem PublishTidy.safe (tidy : PublishTidy w) : w.Safe :=
  ⟨fun f deleted => .inl (tidy.deleted f deleted), by rw [tidy.displaced]; exact Nat.zero_le _⟩

theorem PublishTidy.moves {move : PublishMove Path} (tidy : PublishTidy w) (moves : publishMove move w = some v) :
    PublishTidy v := by
  obtain ⟨made, displaced, deleted, -⟩ := publishMove_record moves
  exact ⟨publishMove_sound tidy.sound moves,
    by rw [made, deleted]; exact tidy.deleted, displaced.trans tidy.displaced⟩

theorem PublishTidyMarked.moves {move : PublishMove Path} (marked : PublishTidyMarked b m w)
    (moves : publishMove move w = some v) : PublishTidyMarked b m v :=
  ⟨marked.toPublishTidy.moves moves, by rw [(publishMove_record moves).1]; exact marked.made⟩

theorem PublishWorld.Retains.moves {move : PublishMove Path} (retains : w.Retains x)
    (moves : publishMove move w = some v) : v.Retains x :=
  ⟨Holds.moves retains.file moves, by rw [(publishMove_record moves).2.2.2]; exact retains.older⟩

/-- What other programs do to names leaves the replaced file where it is
held. -/
theorem PublishDisplaced.moves {move : PublishMove Path} (replaced : PublishDisplaced x w)
    (moves : publishMove move w = some v) : PublishDisplaced x v := by
  obtain ⟨made, displaced, deleted, next⟩ := publishMove_record moves
  refine ⟨⟨by rw [made, displaced, deleted]; exact replaced.deleted, displaced ▸ replaced.toSafe.displaced⟩,
    publishMove_sound replaced.sound moves, next ▸ replaced.older, fun f path later => ?_⟩
  obtain ⟨p, before, gone⟩ := publishMove_file moves later
  rw [displaced]
  cases p with
  | none => cases gone rfl
  | some p => exact replaced.follows f p before

theorem remove_made {path : Path} : (w.remove path).made = w.made := by
  obtain ⟨-, same⟩ | ⟨f, -, same⟩ := w.remove_cases path <;> rw [same]
  rfl

theorem remove_displaced {path : Path} : (w.remove path).displaced = w.displaced := by
  obtain ⟨-, same⟩ | ⟨f, -, same⟩ := w.remove_cases path <;> rw [same]
  rfl

/-- A name that stands for nothing but a marker may be deleted. -/
theorem PublishTidy.removed (tidy : PublishTidy w) {path : Path} (spare : ∀ f, w.names path = some f → f ∈ w.made) :
    PublishTidy (w.remove path) := by
  refine ⟨remove_sound tidy.sound path, ?_, remove_displaced.trans tidy.displaced⟩
  rw [remove_made]
  obtain ⟨-, same⟩ | ⟨f, named, same⟩ := w.remove_cases path
  · rw [same]
    exact tidy.deleted
  · rw [same]
    intro g deleted
    cases deleted with
    | head => exact spare f named
    | tail _ before => exact tidy.deleted g before

omit [DecidableEq Path] in
theorem spare_made {path : Path} (spare : w.spare path = true) {f : FileId} (named : w.names path = some f) :
    f ∈ w.made := by
  simp only [PublishWorld.spare, named, Option.all_some, decide_eq_true_eq] at spare
  exact spare

theorem retainsOnly_follows {path : Path} (retains : w.retainsOnly path = true)
    (older : h < w.nextHandle) {f : FileId}
    {followed : Path} (open' : w.handles h = some (f, some followed)) : followed = path := by
  have each := List.all_eq_true.mp retains h (List.mem_range.mpr older)
  simp only [open', Option.all_some, decide_eq_true_eq] at each
  exact each

/-- The file of a marker's handle is a marker. -/
theorem PublishTidy.disposed (tidy : PublishTidy w) (made : m ∈ w.made) (has : w.Holds h m) :
    PublishTidy (w.disposed h) ∧ (w.disposed h).made = w.made := by
  obtain same | ⟨f, path, open', same⟩ := w.disposed_cases h
  · rw [same]
    exact ⟨tidy, rfl⟩
  · have named := tidy.sound.links h f path open'
    rw [has f _ open'] at named
    rw [same]
    exact ⟨tidy.removed fun g known => Option.some.inj (named.symm.trans known) ▸ made, remove_made⟩

/-- Deleting the marker by its handle leaves nothing behind. -/
theorem PublishTidyHeld.disposed (held : PublishTidyHeld x w) (has : w.Holds h x.marker) :
    PublishTidyHeld x (w.disposed h) := by
  have tidy := held.toPublishTidy.disposed held.made has
  refine ⟨⟨tidy.1, tidy.2 ▸ held.made⟩, ?_⟩
  obtain same | ⟨f, path, -, same⟩ := w.disposed_cases h
  · rw [same]
    exact held.toRetains
  · rw [same]
    exact held.toRetains.removed path

theorem PublishTidyHeld.overwritten (held : PublishTidyHeld x w) (spare : w.spare x.backup = true) :
    PublishTidyHeld x (w.remove x.backup) :=
  ⟨⟨held.toPublishTidy.removed fun _ named => spare_made spare named, by rw [remove_made]; exact held.made⟩,
    held.toRetains.removed x.backup⟩

/-- What `ReplaceFileW` replaces is the retained file, or that has no name.
-/
theorem PublishTidyHeld.replaced {destination candidate : Path} (held : PublishTidyHeld x w)
    (spare : w.spare x.backup = true) (retains : w.retainsOnly destination = true)
    (apart : x.backup ≠ destination) {f : FileId} (old : w.names destination = some f) :
    PublishDisplaced x (w.replaced destination candidate x.backup f) := by
  have tidy := held.toPublishTidy.removed fun g named => spare_made spare named
  refine ⟨⟨fun g deleted => .inl (tidy.deleted g deleted), ?_⟩, replaced_sound held.sound f apart, ?_, ?_⟩
  · change (f :: w.displaced).length ≤ 1
    rw [held.displaced]
    exact Nat.le_refl 1
  · exact (held.toRetains.removed x.backup).older
  · intro g path later
    obtain ⟨p, before, follows⟩ := rename_file (w := w.backedUp destination x.backup) later
    obtain ⟨q, before, same⟩ := rename_file before
    obtain ⟨r, before, gone⟩ := remove_file before
    have known : r = some destination := by
      cases r with
      | none =>
        obtain rfl : q = none := gone.elim (fun same => same) fun same => same
        rw [if_neg nofun] at same
        subst same
        rw [if_neg nofun] at follows
        cases follows
      | some followed => rw [retainsOnly_follows retains held.older before]
    subst known
    rw [Option.some.inj (old.symm.trans (held.sound.links x.handle g destination before))]
    exact List.mem_cons_self

theorem PublishDisplaced.disposed (replaced : PublishDisplaced x w) : PublishDisplaced x (w.disposed x.handle) := by
  obtain same | ⟨f, path, open', same⟩ := w.disposed_cases x.handle
  · rwa [same]
  rw [same, replaced.sound.removed open']
  have sound := unlink_sound replaced.sound path
  refine ⟨⟨fun g deleted => ?_, replaced.toSafe.displaced⟩, ⟨sound.links, sound.files⟩, replaced.older,
    fun g p later => ?_⟩
  · cases deleted with
    | head => exact .inr (replaced.follows f path open')
    | tail _ before => exact replaced.deleted g before
  · obtain ⟨q, before, follows⟩ := unlink_file later
    split_ifs at follows
    subst follows
    exact replaced.follows g p before

theorem PublishTidy.harmless : PublishHarmlessAmong 0 (PublishTidy : PublishWorld Path → Prop) where
  moves _ _ _ tidy moves := tidy.moves (publishHost_move moves).2
  inside _ tidy := tidy.safe
  fresh _ _ := Nat.zero_le _
  opened _ _ _ tidy known := ⟨opened_sound tidy.sound known, tidy.deleted, tidy.displaced⟩
  closed _ h tidy _ := ⟨closed_sound tidy.sound h, tidy.deleted, tidy.displaced⟩
  writable _ _ tidy := ⟨⟨tidy.sound.links, tidy.sound.files⟩, tidy.deleted, tidy.displaced⟩

theorem PublishTidyMarked.harmless : PublishHarmlessAmong 0 (PublishTidyMarked b m) where
  moves _ _ _ marked moves := marked.moves (publishHost_move moves).2
  inside _ marked := marked.safe
  fresh _ _ := Nat.zero_le _
  opened w path f marked known := ⟨PublishTidy.harmless.opened w path f marked.toPublishTidy known, marked.made⟩
  closed w h marked later := ⟨PublishTidy.harmless.closed w h marked.toPublishTidy later, marked.made⟩
  writable w f marked := ⟨PublishTidy.harmless.writable w f marked.toPublishTidy, marked.made⟩

theorem PublishTidyHeld.harmless : PublishHarmlessAmong (x.handle + 1) (PublishTidyHeld x) where
  moves _ _ _ held moves :=
    have moved := (publishHost_move moves).2
    ⟨held.toPublishTidyMarked.moves moved, held.toRetains.moves moved⟩
  inside _ held := held.safe
  fresh _ held := held.older
  opened w path f held known :=
    ⟨PublishTidyMarked.harmless.opened w path f held.toPublishTidyMarked known, held.toRetains.opened path f⟩
  closed w h held _ :=
    ⟨PublishTidyMarked.harmless.closed w h held.toPublishTidyMarked (Nat.zero_le _), held.toRetains.closed h⟩
  writable w f held := ⟨PublishTidyMarked.harmless.writable w f held.toPublishTidyMarked, ⟨held.file, held.older⟩⟩

/-- The calls that only look keep the replaced file where it is. -/
theorem PublishDisplaced.harmless : PublishHarmlessAmong (x.handle + 1) (PublishDisplaced x) where
  moves _ _ _ replaced moves := replaced.moves (publishHost_move moves).2
  inside _ replaced := replaced.toSafe
  fresh _ replaced := replaced.older
  opened w path g replaced known := by
    refine ⟨⟨replaced.deleted, replaced.toSafe.displaced⟩, opened_sound replaced.sound known,
      Nat.lt_succ_of_lt replaced.older, fun f p later => ?_⟩
    simp only [PublishWorld.opened, Function.update_of_ne (Nat.ne_of_lt replaced.older)] at later
    exact replaced.follows f p later
  closed w h replaced later := by
    refine ⟨⟨replaced.deleted, replaced.toSafe.displaced⟩, closed_sound replaced.sound h, replaced.older,
      fun f p still => ?_⟩
    simp only [PublishWorld.closed, Function.update_of_ne (Nat.ne_of_lt later)] at still
    exact replaced.follows f p still
  writable _ _ replaced := ⟨⟨replaced.deleted, replaced.toSafe.displaced⟩,
    ⟨replaced.sound.links, replaced.sound.files⟩, replaced.older, replaced.follows⟩

/-- A new marker is a file of its own under a name that was free. -/
theorem PublishTidy.reserves (tidy : PublishTidy w) {path : Path} (free : w.names path = none) :
    PublishTidyMarked path w.nextFile (w.marked path) where
  sound := by
    have sound : (w.made' path regularAttrs).Sound := made_sound tidy.sound free
    exact ⟨sound.links, sound.files⟩
  deleted f deleted := List.mem_cons_of_mem _ (tidy.deleted f deleted)
  displaced := tidy.displaced
  made := List.mem_cons_self

theorem PublishWorld.Safe.stable :
    PublishStable true publishMeets PublishWorld.Safe (PublishWorld.Safe : PublishWorld Path → Prop) where
  moves _ _ _ safe moves := by
    obtain ⟨made, displaced, deleted, -⟩ := publishMove_record (publishHost_move moves).2
    exact ⟨by rw [made, displaced, deleted]; exact safe.deleted, displaced ▸ safe.displaced⟩
  inside _ safe := safe

/-- The phases of a publication among other processes. -/
def publishTidyRules (paths : PublishPaths Path) : PublishRules paths true publishMeets PublishWorld.Safe where
  idle := PublishTidy
  marked := PublishTidyMarked
  held := PublishTidyHeld
  failed _ := PublishTidyHeld
  replaced := PublishDisplaced
  ended _ := PublishWorld.Safe
  idleHarmless := PublishTidy.harmless
  markedHarmless _ _ := PublishTidyMarked.harmless
  heldHarmless _ := PublishTidyHeld.harmless
  failedHarmless _ _ := PublishTidyHeld.harmless
  replacedHarmless _ := PublishDisplaced.harmless
  endedStable _ := PublishWorld.Safe.stable
  moves _ _ tidy _ _ := ⟨tidy.safe.deleted, tidy.safe.displaced⟩
  reserves _ _ _ _ tidy free := tidy.reserves free
  forgets _ _ _ marked := marked.toPublishTidy
  unreserves _ _ _ marked spare := marked.toPublishTidy.removed fun _ named => spare_made spare named
  discards _ _ _ _ marked has :=
    have tidy := marked.toPublishTidy.disposed marked.made has
    ⟨tidy.1, tidy.2 ▸ marked.made⟩
  retains b m w f marked named :=
    have begins := PublishTidyMarked.harmless.begins marked named
    ⟨begins.1, begins.2.1, begins.2.2⟩
  releases x w held := PublishTidyMarked.harmless.closed w x.handle held.toPublishTidyMarked (Nat.zero_le _)
  replaces x w choice v held allowed acts := by
    obtain ⟨e, same, -⟩ | ⟨f, g, old, -, -, apart, -, ⟨rfl, -, rfl⟩ | ⟨e, same, -⟩⟩ := publishReplaces_cases acts
    · cases same
    · have both := Bool.and_eq_true_iff.mp allowed
      exact held.replaced both.1 both.2 apart old
    · cases same
  fails x w choice e v held allowed acts := by
    obtain ⟨e, -, rfl⟩ | ⟨f, g, -, -, -, apart, -, ⟨-, same, -⟩ | ⟨e, -, ⟨rfl, rfl⟩ | ⟨rfl, rfl⟩⟩⟩ :=
      publishReplaces_cases acts
    · exact ⟨false, held⟩
    · cases same
    · exact ⟨false, held.overwritten allowed⟩
    · have removed := held.overwritten allowed
      exact ⟨false, ⟨⟨⟨backedUp_sound held.sound _ _, removed.deleted, removed.displaced⟩, removed.made⟩,
        removed.toRetains.renamed _ _⟩⟩
  retained _ _ _ held := held.file
  failedDiscards _ _ _ _ held _ has := held.disposed has
  restores _ x _ w _ _ held free :=
    ⟨⟨⟨rename_sound held.sound free, held.deleted, held.displaced⟩, held.made⟩, held.toRetains.renamed x.backup _⟩
  there _ _ _ _ _ _ held := held
  resumes x w held := PublishTidy.harmless.closed w x.handle held.toPublishTidy (Nat.zero_le _)
  stops _ x w _ held := (PublishTidy.harmless.closed w x.handle held.toPublishTidy (Nat.zero_le _)).safe
  refuses _ _ tidy := tidy.safe
  deletes _ _ replaced := replaced.disposed
  finishes _ _ replaced := ⟨replaced.deleted, replaced.toSafe.displaced⟩

/-- Among other processes, a publication that replaces the file it retains
and overwrites markers alone deletes only those and what it has displaced.
-/
theorem publish_deletes {paths : PublishPaths Path} {p : PublishProg Path (Except TclError Unit)} (start : w.Start)
    (run : (publishHost true publishMeets).Reaches (publishCmd paths) w p v) :
    (∀ f ∈ v.deleted, f ∈ v.made ∨ f ∈ v.displaced) ∧ v.displaced.length ≤ 1 := by
  have tidy : PublishTidy w := by
    refine ⟨start.sound, ?_, start.displaced⟩
    rw [start.deleted]
    exact nofun
  have safe : v.Safe := (((publishTidyRules paths).publishCmd tidy).reaches run).now
  exact ⟨safe.deleted, safe.displaced⟩

/-- The old destination is replaced and deleted. -/
theorem publish_deletes_sample : ∃ v,
    (publishHost true publishMeets).Reaches (publishCmd samplePaths) sampleWorld (.done (.ok ())) v ∧
      v.deleted = [2, 3] ∧ v.displaced = [2] ∧
      (∀ f ∈ v.deleted, f ∈ v.made ∨ f ∈ v.displaced) ∧ v.displaced.length ≤ 1 := by
  have reaches := play_reaches (S := publishHost true publishMeets) (p := publishCmd samplePaths) (w := sampleWorld)
    (e := sampleWorks 30 ++ (.inr (.random []) :: sampleWorks 31)) rfl
  exact ⟨_, reaches, rfl, rfl, publish_deletes sampleWorld_start reaches⟩

/-- Behind the last check another process moves the old destination away and
puts a file in its place: the one that was moved away is deleted. -/
theorem publish_deletes_other : ∃ v,
    (publishHost true fun _ _ _ => true).Reaches (publishCmd samplePaths) sampleWorld (.done (.ok ())) v ∧
      2 ∈ v.deleted ∧ 2 ∉ v.made ∧ 2 ∉ v.displaced := by
  have reaches := play_reaches (S := publishHost true fun _ _ _ => true) (p := publishCmd samplePaths)
    (w := sampleWorld)
    (e := sampleWorks 30 ++ (.inr (.random []) :: sampleWorks 24 ++
      ([.inl (.rename 2 100 false), .inl (.create 2 regularAttrs)] ++ sampleWorks 7))) rfl
  exact ⟨_, reaches, by decide, by decide, by decide⟩

end Machteld
