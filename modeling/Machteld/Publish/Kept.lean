import Machteld.Publish.Rules

namespace Machteld

open Host PublishWorld

variable {Path : Type} [DecidableEq Path] {paths : PublishPaths Path} {w₀ w : PublishWorld Path}

/-- The system calls of a publication that nobody interferes with. -/
abbrev publishAlone (Path : Type) [DecidableEq Path] : Host (PublishCall Path) PublishCall.Answer :=
  publishHost false fun _ _ _ => true

/-- Both files are where they were. -/
structure PublishKept (paths : PublishPaths Path) (w₀ w : PublishWorld Path) : Prop where
  sound : w.Sound
  candidate : w.names paths.candidate = w₀.names paths.candidate
  destination : w.names paths.destination = w₀.names paths.destination

/-- The backup name stands for the marker alone, or is the last one
reserved. -/
structure PublishReserved (paths : PublishPaths Path) (w₀ : PublishWorld Path) (b : Path) (m : FileId)
    (w : PublishWorld Path) : Prop where
  reserved : ∃ random, b = paths.backup random ∧ w.reserved.head? = some b
  fromCandidate : b ≠ paths.candidate
  fromDestination : b ≠ paths.destination
  notCandidate : w₀.names paths.candidate ≠ some m
  notDestination : w₀.names paths.destination ≠ some m

structure PublishMarked (paths : PublishPaths Path) (w₀ : PublishWorld Path) (b : Path) (m : FileId)
    (w : PublishWorld Path) : Prop extends PublishKept paths w₀ w, PublishReserved paths w₀ b m w where
  marker : ∀ f, w.names b = some f → f = m

/-- A handle that is open on a file. -/
structure PublishWorld.Retains (w : PublishWorld Path) (x : PublishHeld Path) : Prop where
  file : w.Holds x.handle x.file
  older : x.handle < w.nextHandle

structure PublishHeldKept (paths : PublishPaths Path) (w₀ : PublishWorld Path) (x : PublishHeld Path)
    (w : PublishWorld Path) : Prop extends PublishMarked paths w₀ x.backup x.marker w, w.Retains x where
  held : w.names paths.destination = some x.file

/-- The old destination has only the backup name. -/
structure PublishMoved (paths : PublishPaths Path) (w₀ : PublishWorld Path) (x : PublishHeld Path)
    (w : PublishWorld Path) : Prop extends PublishReserved paths w₀ x.backup x.marker w, w.Retains x where
  sound : w.Sound
  candidate : w.names paths.candidate = w₀.names paths.candidate
  gone : w.names paths.destination = none
  held : w.names x.backup = some x.file
  before : w₀.names paths.destination = some x.file

/-- The candidate has been published, and the retained file is not it. -/
structure PublishReplaced (paths : PublishPaths Path) (w₀ : PublishWorld Path) (x : PublishHeld Path)
    (w : PublishWorld Path) : Prop extends w.Retains x where
  sound : w.Sound
  published : ∃ f, w₀.names paths.candidate = some f ∧ w.names paths.destination = some f ∧ f ≠ x.file

/-- No file is lost. -/
structure PublishOutcome (paths : PublishPaths Path) (w₀ : PublishWorld Path) (r : Except TclError Unit)
    (w : PublishWorld Path) : Prop where
  published : r = .ok () → ∃ f, w₀.names paths.candidate = some f ∧ w.names paths.destination = some f
  candidate : ∀ e, r = .error e → w.names paths.candidate = w₀.names paths.candidate
  destination : ∀ e, r = .error e → ∀ f, w₀.names paths.destination = some f →
    w.names paths.destination = some f ∨ ∃ random, w.reserved.head? = some (paths.backup random) ∧
      w.names (paths.backup random) = some f

theorem publishAlone_moves {I : PublishWorld Path → Prop} (m : PublishMove Path) (w v : PublishWorld Path) (_ : I w)
    (moves : (publishAlone Path).move m w = some v) : I v := by
  obtain ⟨alone, -⟩ := publishHost_move moves
  cases alone

omit [DecidableEq Path] in
theorem PublishWorld.Retains.opened {x : PublishHeld Path} (retains : w.Retains x) (path : Path) (f : FileId) :
    (w.opened path f).Retains x :=
  ⟨Holds.opened retains.file retains.older path f, Nat.lt_succ_of_lt retains.older⟩

omit [DecidableEq Path] in
theorem PublishWorld.Retains.closed {x : PublishHeld Path} (retains : w.Retains x) (h : Nat) :
    (w.closed h).Retains x :=
  ⟨Holds.closed retains.file h, retains.older⟩

theorem PublishWorld.Retains.removed {x : PublishHeld Path} (retains : w.Retains x) (path : Path) :
    (w.remove path).Retains x :=
  ⟨Holds.removed retains.file path, by rw [remove_nextHandle]; exact retains.older⟩

theorem PublishWorld.Retains.renamed {x : PublishHeld Path} (retains : w.Retains x) (source target : Path) :
    (w.rename source target).Retains x :=
  ⟨Holds.renamed retains.file source target, retains.older⟩

omit [DecidableEq Path] in
theorem PublishKept.opened (kept : PublishKept paths w₀ w) {path : Path} {f : FileId}
    (known : w.names path = some f) :
    PublishKept paths w₀ (w.opened path f) :=
  ⟨opened_sound kept.sound known, kept.candidate, kept.destination⟩

omit [DecidableEq Path] in
theorem PublishKept.closed (kept : PublishKept paths w₀ w) (h : Nat) : PublishKept paths w₀ (w.closed h) :=
  ⟨closed_sound kept.sound h, kept.candidate, kept.destination⟩

/-- A name that is neither of the two may be deleted. -/
theorem PublishKept.removed (kept : PublishKept paths w₀ w) {path : Path} (candidate : path ≠ paths.candidate)
    (destination : path ≠ paths.destination) : PublishKept paths w₀ (w.remove path) where
  sound := remove_sound kept.sound path
  candidate := by rw [remove_names, if_neg candidate.symm]; exact kept.candidate
  destination := by rw [remove_names, if_neg destination.symm]; exact kept.destination

theorem remove_reserved {path : Path} : (w.remove path).reserved = w.reserved := by
  obtain ⟨-, same⟩ | ⟨f, -, same⟩ := w.remove_cases path <;> rw [same]
  rfl

theorem PublishReserved.removed {b : Path} {m : FileId} (reserved : PublishReserved paths w₀ b m w) (path : Path) :
    PublishReserved paths w₀ b m (w.remove path) where
  reserved := by rw [remove_reserved]; exact reserved.reserved
  fromCandidate := reserved.fromCandidate
  fromDestination := reserved.fromDestination
  notCandidate := reserved.notCandidate
  notDestination := reserved.notDestination

/-- Removing a name that is neither the candidate's nor the destination's
keeps both of them. -/
theorem PublishMarked.removed {b : Path} {m : FileId} (marked : PublishMarked paths w₀ b m w) {path : Path}
    (candidate : path ≠ paths.candidate) (destination : path ≠ paths.destination) :
    PublishMarked paths w₀ b m (w.remove path) where
  toPublishKept := marked.toPublishKept.removed candidate destination
  toPublishReserved := marked.toPublishReserved.removed path
  marker f known := by
    rw [remove_names] at known
    split_ifs at known
    exact marked.marker f known

omit [DecidableEq Path] in
theorem PublishMarked.opened {b : Path} {m : FileId} (marked : PublishMarked paths w₀ b m w)
    {path : Path} {f : FileId}
    (known : w.names path = some f) : PublishMarked paths w₀ b m (w.opened path f) :=
  ⟨marked.toPublishKept.opened known, ⟨marked.reserved, marked.fromCandidate, marked.fromDestination,
    marked.notCandidate, marked.notDestination⟩, marked.marker⟩

omit [DecidableEq Path] in
theorem PublishMarked.closed {b : Path} {m : FileId} (marked : PublishMarked paths w₀ b m w) (h : Nat) :
    PublishMarked paths w₀ b m (w.closed h) :=
  ⟨marked.toPublishKept.closed h, ⟨marked.reserved, marked.fromCandidate, marked.fromDestination,
    marked.notCandidate, marked.notDestination⟩, marked.marker⟩

/-- A marker's handle follows neither of the two names. -/
theorem PublishMarked.disposed {b : Path} {m : FileId} (marked : PublishMarked paths w₀ b m w) {h : Nat}
    (has : w.Holds h m) : w.disposed h = w ∨
      ∃ path, path ≠ paths.candidate ∧ path ≠ paths.destination ∧ w.names path = some m ∧
        w.disposed h = w.remove path := by
  obtain same | ⟨f, path, open', same⟩ := w.disposed_cases h
  · exact .inl same
  · have named := marked.sound.links h f path open'
    rw [has f _ open'] at named
    refine .inr ⟨path, ?_, ?_, named, same⟩
    · rintro rfl
      exact marked.notCandidate (marked.candidate.symm.trans named)
    · rintro rfl
      exact marked.notDestination (marked.destination.symm.trans named)

theorem PublishMarked.discard {b : Path} {m : FileId} (marked : PublishMarked paths w₀ b m w) {h : Nat}
    (has : w.Holds h m) : PublishMarked paths w₀ b m (w.disposed h) := by
  obtain same | ⟨path, candidate, destination, -, same⟩ := marked.disposed has
  · rwa [same]
  · rw [same]
    exact marked.removed candidate destination

theorem PublishHeldKept.removed {x : PublishHeld Path} (held : PublishHeldKept paths w₀ x w) {path : Path}
    (candidate : path ≠ paths.candidate) (destination : path ≠ paths.destination) :
    PublishHeldKept paths w₀ x (w.remove path) where
  toPublishMarked := held.toPublishMarked.removed candidate destination
  toRetains := held.toRetains.removed path
  held := by rw [remove_names, if_neg destination.symm]; exact held.held

theorem PublishHeldKept.discard {x : PublishHeld Path} (held : PublishHeldKept paths w₀ x w) {h : Nat}
    (has : w.Holds h x.marker) : PublishHeldKept paths w₀ x (w.disposed h) := by
  obtain same | ⟨path, candidate, destination, -, same⟩ := held.toPublishMarked.disposed has
  · rwa [same]
  · rw [same]
    exact held.removed candidate destination

/-- The old destination has got the backup name. -/
theorem PublishHeldKept.moved {x : PublishHeld Path} (held : PublishHeldKept paths w₀ x w) {f g : FileId}
    (old : w.names paths.destination = some f) (new : w.names paths.candidate = some g) (apart : f ≠ g) :
    PublishMoved paths w₀ x (w.backedUp paths.destination x.backup) where
  toPublishReserved := by
    have reserved := held.toPublishReserved.removed x.backup
    exact ⟨reserved.reserved, reserved.fromCandidate, reserved.fromDestination, reserved.notCandidate,
      reserved.notDestination⟩
  toRetains := (held.toRetains.removed x.backup).renamed paths.destination x.backup
  sound := backedUp_sound held.sound ..
  candidate := by
    have distinct : paths.candidate ≠ paths.destination := by
      intro same
      rw [same, old] at new
      exact apart (Option.some.inj new)
    rw [backedUp, rename_names, if_neg held.fromCandidate.symm, if_neg distinct, remove_names,
      if_neg held.fromCandidate.symm]
    exact held.candidate
  gone := by rw [backedUp, rename_names, if_neg held.fromDestination.symm, if_pos rfl]
  held := by rw [backedUp, rename_names, if_pos rfl, remove_names, if_neg held.fromDestination.symm, held.held]
  before := held.destination.symm.trans held.held

/-- And back. -/
theorem PublishMoved.restored {x : PublishHeld Path} (moved : PublishMoved paths w₀ x w) :
    PublishHeldKept paths w₀ x (w.rename x.backup paths.destination) := by
  have there : (w.rename x.backup paths.destination).names paths.destination = some x.file := by
    rw [rename_names, if_pos rfl, moved.held]
  refine ⟨⟨⟨rename_sound moved.sound moved.gone, ?_, there.trans moved.before.symm⟩, ⟨moved.reserved,
    moved.fromCandidate, moved.fromDestination, moved.notCandidate, moved.notDestination⟩, ?_⟩,
    moved.toRetains.renamed .., there⟩
  · by_cases same : paths.candidate = paths.destination
    · rw [same, there, moved.before]
    · rw [rename_names, if_neg same, if_neg moved.fromCandidate.symm]
      exact moved.candidate
  · intro f known
    rw [rename_names, if_neg moved.fromDestination, if_pos rfl] at known
    cases known

/-- Deleting the marker by its handle keeps the file that was moved to the backup.
-/
theorem PublishMoved.discard {x : PublishHeld Path} (moved : PublishMoved paths w₀ x w) {h : Nat}
    (has : w.Holds h x.marker) : PublishMoved paths w₀ x (w.disposed h) := by
  obtain same | ⟨f, path, open', same⟩ := w.disposed_cases h
  · rwa [same]
  have named := moved.sound.links h f path open'
  rw [has f _ open'] at named
  have candidate : paths.candidate ≠ path := by
    rintro rfl
    exact moved.notCandidate (moved.candidate.symm.trans named)
  have backup : x.backup ≠ path := by
    rintro rfl
    rw [moved.held] at named
    exact moved.notDestination (moved.before.trans named)
  rw [same]
  refine ⟨moved.toPublishReserved.removed path, moved.toRetains.removed path,
    remove_sound moved.sound path, ?_, ?_, ?_,
    moved.before⟩
  · rw [remove_names, if_neg candidate]
    exact moved.candidate
  · rw [remove_names, moved.gone, ite_self]
  · rw [remove_names, if_neg backup]
    exact moved.held

/-- A replacement that succeeds puts the candidate in the destination's
place and the old file under the backup's name. -/
theorem PublishHeldKept.replaced {x : PublishHeld Path} (held : PublishHeldKept paths w₀ x w) {f g : FileId}
    (old : w.names paths.destination = some f) (new : w.names paths.candidate = some g) (apart : f ≠ g) :
    PublishReplaced paths w₀ x (w.replaced paths.destination paths.candidate x.backup f) where
  toRetains := by
    have retains := ((held.toRetains.removed x.backup).renamed paths.destination x.backup).renamed paths.candidate
      paths.destination
    exact ⟨retains.file, retains.older⟩
  sound := replaced_sound held.sound f held.fromDestination
  published := by
    have moved := held.moved old new apart
    have same : f = x.file := Option.some.inj (old.symm.trans held.held)
    refine ⟨g, held.candidate.symm.trans new, ?_, same ▸ apart.symm⟩
    change ((w.backedUp paths.destination x.backup).rename paths.candidate paths.destination).names _ = _
    rw [rename_names, if_pos rfl, moved.candidate, ← held.candidate]
    exact new

/-- Deleting the old file by its handle keeps the new one in its place. -/
theorem PublishReplaced.disposed {x : PublishHeld Path} (replaced : PublishReplaced paths w₀ x w) :
    PublishReplaced paths w₀ x (w.disposed x.handle) := by
  obtain same | ⟨f, path, open', same⟩ := w.disposed_cases x.handle
  · rwa [same]
  obtain ⟨g, candidate, destination, apart⟩ := replaced.published
  have named := replaced.sound.links x.handle f path open'
  have elsewhere : paths.destination ≠ path := by
    rintro rfl
    rw [destination, replaced.file f _ open'] at named
    exact apart (Option.some.inj named)
  rw [same]
  refine ⟨replaced.toRetains.removed path, remove_sound replaced.sound path, g, candidate, ?_, apart⟩
  rw [remove_names, if_neg elsewhere]
  exact destination

omit [DecidableEq Path] in
theorem PublishKept.refused (kept : PublishKept paths w₀ w) (e : TclError) :
    PublishOutcome paths w₀ (.error e) w where
  published same := by cases same
  candidate _ _ := kept.candidate
  destination _ _ f known := .inl (kept.destination.trans known)

omit [DecidableEq Path] in
/-- Where the old destination has only the backup's name, an error loses no file.
-/
theorem PublishMoved.refused {x : PublishHeld Path} (moved : PublishMoved paths w₀ x w) (e : TclError) :
    PublishOutcome paths w₀ (.error e) w where
  published same := by cases same
  candidate _ _ := moved.candidate
  destination _ _ f known := by
    obtain ⟨random, same, reserved⟩ := moved.reserved
    have file := Option.some.inj (known.symm.trans moved.before)
    exact .inr ⟨random, same ▸ reserved, by rw [← same, moved.held, file]⟩

/-- What a failed `ReplaceFileW` leaves. -/
def PublishFailed (paths : PublishPaths Path) (w₀ : PublishWorld Path) :
    Bool → PublishHeld Path → PublishWorld Path → Prop
  | false => PublishHeldKept paths w₀
  | true => PublishMoved paths w₀

abbrev PublishHarmlessAlone (first : Nat) (I : PublishWorld Path → Prop) : Prop :=
  PublishHarmless false (fun _ _ _ => true) (fun _ => True) first I

theorem PublishKept.harmless : PublishHarmlessAlone 0 (PublishKept paths w₀) where
  moves := publishAlone_moves
  inside _ _ := trivial
  fresh _ _ := Nat.zero_le _
  opened _ _ _ kept known := kept.opened known
  closed _ h kept _ := kept.closed h
  writable _ _ kept := ⟨⟨kept.sound.links, kept.sound.files⟩, kept.candidate, kept.destination⟩

theorem PublishMarked.harmless {b : Path} {m : FileId} : PublishHarmlessAlone 0 (PublishMarked paths w₀ b m) where
  moves := publishAlone_moves
  inside _ _ := trivial
  fresh _ _ := Nat.zero_le _
  opened _ _ _ marked known := marked.opened known
  closed _ h marked _ := marked.closed h
  writable w f marked := ⟨PublishKept.harmless.writable w f marked.toPublishKept, ⟨marked.reserved,
    marked.fromCandidate, marked.fromDestination, marked.notCandidate, marked.notDestination⟩, marked.marker⟩

theorem PublishHeldKept.harmless {x : PublishHeld Path} :
    PublishHarmlessAlone (x.handle + 1) (PublishHeldKept paths w₀ x) where
  moves := publishAlone_moves
  inside _ _ := trivial
  fresh _ held := held.older
  opened _ path f held known := ⟨held.toPublishMarked.opened known, held.toRetains.opened path f, held.held⟩
  closed _ h held _ := ⟨held.toPublishMarked.closed h, held.toRetains.closed h, held.held⟩
  writable w f held :=
    ⟨PublishMarked.harmless.writable w f held.toPublishMarked, ⟨held.file, held.older⟩, held.held⟩

/-- The calls that only look keep what a partial replacement has left. -/
theorem PublishMoved.harmless {x : PublishHeld Path} :
    PublishHarmlessAlone (x.handle + 1) (PublishMoved paths w₀ x) where
  moves := publishAlone_moves
  inside _ _ := trivial
  fresh _ moved := moved.older
  opened _ path f moved known := ⟨⟨moved.reserved, moved.fromCandidate, moved.fromDestination, moved.notCandidate,
    moved.notDestination⟩, moved.toRetains.opened path f, opened_sound moved.sound known,
      moved.candidate, moved.gone,
    moved.held, moved.before⟩
  closed _ h moved _ := ⟨⟨moved.reserved, moved.fromCandidate, moved.fromDestination, moved.notCandidate,
    moved.notDestination⟩, moved.toRetains.closed h, closed_sound moved.sound h, moved.candidate, moved.gone,
    moved.held, moved.before⟩
  writable _ _ moved := ⟨⟨moved.reserved, moved.fromCandidate, moved.fromDestination, moved.notCandidate,
    moved.notDestination⟩, ⟨moved.file, moved.older⟩, ⟨moved.sound.links, moved.sound.files⟩, moved.candidate,
    moved.gone, moved.held, moved.before⟩

theorem PublishReplaced.harmless {x : PublishHeld Path} :
    PublishHarmlessAlone (x.handle + 1) (PublishReplaced paths w₀ x) where
  moves := publishAlone_moves
  inside _ _ := trivial
  fresh _ replaced := replaced.older
  opened _ path f replaced known :=
    ⟨replaced.toRetains.opened path f, opened_sound replaced.sound known, replaced.published⟩
  closed _ h replaced _ := ⟨replaced.toRetains.closed h, closed_sound replaced.sound h, replaced.published⟩
  writable _ _ replaced :=
    ⟨⟨replaced.file, replaced.older⟩, ⟨replaced.sound.links, replaced.sound.files⟩, replaced.published⟩

omit [DecidableEq Path] in
theorem PublishMoved.closed {x : PublishHeld Path} (moved : PublishMoved paths w₀ x w) (h : Nat) :
    PublishMoved paths w₀ x (w.closed h) :=
  ⟨⟨moved.reserved, moved.fromCandidate, moved.fromDestination, moved.notCandidate, moved.notDestination⟩,
    moved.toRetains.closed h, closed_sound moved.sound h, moved.candidate, moved.gone, moved.held, moved.before⟩

omit [DecidableEq Path] in
/-- A name that has been seen is not free. -/
theorem PublishKept.seen {path : Path} (seen : PublishSeen (PublishKept paths w₀) path)
    (same : ∀ v, PublishKept paths w₀ v → v.names path = w₀.names path) (kept : PublishKept paths w₀ w) :
    ∃ f, w.names path = some f ∧ w₀.names path = some f := by
  obtain ⟨v, f, before, named⟩ := seen
  rw [same v before] at named
  exact ⟨f, (same w kept).trans named, named⟩

/-- A new marker is neither of the two files. -/
theorem PublishKept.reserves (kept : PublishKept paths w₀ w) (random : Bytes)
    (candidate : PublishSeen (PublishKept paths w₀) paths.candidate)
    (destination : PublishSeen (PublishKept paths w₀) paths.destination)
    (free : w.names (paths.backup random) = none) :
    PublishMarked paths w₀ (paths.backup random) w.nextFile (w.marked (paths.backup random)) := by
  obtain ⟨f, candidateNow, candidateBefore⟩ := PublishKept.seen candidate (fun _ kept => kept.candidate) kept
  obtain ⟨g, destinationNow, destinationBefore⟩ :=
    PublishKept.seen destination (fun _ kept => kept.destination) kept
  have fromCandidate : paths.backup random ≠ paths.candidate :=
    fun same => by rw [same, candidateNow] at free; cases free
  have fromDestination : paths.backup random ≠ paths.destination := fun same => by
    rw [same, destinationNow] at free
    cases free
  have sound : (w.made' (paths.backup random) regularAttrs).Sound := made_sound kept.sound free
  have old : ∀ path f, w.names path = some f → some f ≠ some w.nextFile := fun path f known same =>
    Nat.lt_irrefl _ (Option.some.inj same ▸ kept.sound.files path f known)
  refine ⟨⟨⟨sound.links, sound.files⟩, ?_, ?_⟩, ⟨⟨random, rfl, rfl⟩, fromCandidate, fromDestination, ?_, ?_⟩, ?_⟩
  · rw [marked_names, if_neg fromCandidate.symm]
    exact kept.candidate
  · rw [marked_names, if_neg fromDestination.symm]
    exact kept.destination
  · rw [candidateBefore]
    exact old _ f candidateNow
  · rw [destinationBefore]
    exact old _ g destinationNow
  · intro f known
    rw [marked_names, if_pos rfl] at known
    exact (Option.some.inj known).symm

variable (paths) in
/-- The phases of a publication that nobody interferes with. -/
def publishKeptRules (w₀ : PublishWorld Path) : PublishRules paths false (fun _ _ _ => true) (fun _ => True) where
  idle := PublishKept paths w₀
  marked := PublishMarked paths w₀
  held := PublishHeldKept paths w₀
  failed := PublishFailed paths w₀
  replaced := PublishReplaced paths w₀
  ended := PublishOutcome paths w₀
  idleHarmless := PublishKept.harmless
  markedHarmless _ _ := PublishMarked.harmless
  heldHarmless _ := PublishHeldKept.harmless
  failedHarmless moved _ := by
    cases moved with
    | false => exact PublishHeldKept.harmless
    | true => exact PublishMoved.harmless
  replacedHarmless _ := PublishReplaced.harmless
  endedStable _ := ⟨publishAlone_moves, fun _ _ => trivial⟩
  moves w f kept known free :=
    ⟨fun _ => ⟨f, kept.candidate.symm.trans known, by rw [rename_names, if_pos rfl, known]⟩,
    nofun, nofun⟩
  reserves w random candidate destination kept free := kept.reserves random candidate destination free
  forgets _ _ _ marked := marked.toPublishKept
  unreserves _ _ _ marked _ := marked.toPublishKept.removed marked.fromCandidate marked.fromDestination
  discards _ _ _ _ marked has := marked.discard has
  retains b m w f marked known := ⟨marked.opened known, ⟨(PublishMarked.harmless.begins marked known).2.1,
    Nat.lt_succ_self _⟩, known⟩
  releases x _ held := held.toPublishMarked.closed x.handle
  replaces x w choice v held _ acts := by
    obtain ⟨e, same, -⟩ | ⟨f, g, old, new, apart, -, -, ⟨-, -, rfl⟩ | ⟨e, same, -⟩⟩ := publishReplaces_cases acts
    · cases same
    · exact held.replaced old new apart
    · cases same
  fails x w choice e v held _ acts := by
    obtain ⟨e, -, rfl⟩ | ⟨f, g, old, new, apart, -, -, ⟨-, same, -⟩ | ⟨e, -, ⟨-, rfl⟩ | ⟨-, rfl⟩⟩⟩ :=
      publishReplaces_cases acts
    · exact ⟨false, held⟩
    · cases same
    · exact ⟨false, held.removed held.fromCandidate held.fromDestination⟩
    · exact ⟨true, held.moved old new apart⟩
  retained moved x w failed := by
    cases moved with
    | false =>
      have held : PublishHeldKept paths w₀ x w := failed
      exact held.file
    | true =>
      have moved : PublishMoved paths w₀ x w := failed
      exact moved.file
  failedDiscards moved x w h failed _ has := by
    cases moved with
    | false => exact PublishHeldKept.discard failed has
    | true => exact PublishMoved.discard failed has
  restores moved x v w before named failed free := by
    cases moved with
    | false =>
      have held : w.names paths.destination = some x.file := PublishHeldKept.held failed
      rw [free] at held
      cases held
    | true => exact PublishMoved.restored failed
  there moved x v w before named failed := by
    cases moved with
    | false => exact failed
    | true =>
      have gone : v.names paths.destination = none := PublishMoved.gone before
      rw [gone] at named
      cases named
  resumes x w held := by
    have held : PublishHeldKept paths w₀ x w := held
    exact held.toPublishMarked.toPublishKept.closed x.handle
  stops moved x w e failed := by
    cases moved with
    | false =>
      have held : PublishHeldKept paths w₀ x w := failed
      exact (held.toPublishMarked.toPublishKept.closed x.handle).refused e
    | true =>
      have moved : PublishMoved paths w₀ x w := failed
      exact (moved.closed x.handle).refused e
  refuses _ e kept := kept.refused e
  deletes _ _ replaced := replaced.disposed
  finishes x w replaced := by
    obtain ⟨f, candidate, destination, -⟩ := replaced.published
    exact ⟨fun _ => ⟨f, candidate, destination⟩, nofun, nofun⟩

/-- Whatever calls of a publication fail, no file is lost. -/
theorem publish_keeps {w : PublishWorld Path} {paths : PublishPaths Path} {v : PublishWorld Path}
    {result : Except TclError Unit} (start : w.Start)
    (run : (publishAlone Path).Reaches (publishCmd paths) w (.done result) v) :
    (result = .ok () → ∃ f, w.names paths.candidate = some f ∧ v.names paths.destination = some f) ∧
    ∀ e, result = .error e → v.names paths.candidate = w.names paths.candidate ∧
      ∀ f, w.names paths.destination = some f → v.names paths.destination = some f ∨
        ∃ random, v.reserved.head? = some (paths.backup random) ∧ v.names (paths.backup random) = some f := by
  have kept : PublishKept paths w w := ⟨start.sound, rfl, rfl⟩
  have outcome : PublishOutcome paths w result v :=
    ((publishKeptRules paths w).publishCmd kept).result run
  exact ⟨outcome.published, fun e same => ⟨outcome.candidate e same, outcome.destination e same⟩⟩

/-- Candidate 1 and destination 2 in directory 0, with backup names from 3
on. -/
def samplePaths : PublishPaths Nat := ⟨1, 2, 0, 0, fun random => 3 + random.length, fun _ => []⟩

/-- Each name stands for the file of the same number. -/
def sampleWorld : PublishWorld Nat where
  names path := if path < 3 then some path else none
  attrs f := ⟨true, f == 0, false, false⟩
  volume _ := 0
  handles _ := none
  nextHandle := 0
  nextFile := 3
  made := []
  reserved := []
  displaced := []
  deleted := []

theorem sampleWorld_start : sampleWorld.Start where
  closed _ := rfl
  files path f known := by
    simp only [sampleWorld] at known ⊢
    split_ifs at known with few
    exact Option.some.inj known ▸ few
  made := rfl
  reserved := rfl
  displaced := rfl
  deleted := rfl

/-- So many calls that work. -/
def sampleWorks (n : Nat) : List (PublishMove Nat ⊕ PublishChoice) := List.replicate n (.inr .works)

/-- The old destination gets the backup name, and cannot be moved back. -/
theorem publish_keeps_sample :
    ∃ e v, (publishAlone Nat).Reaches (publishCmd samplePaths) sampleWorld (.done (.error e)) v ∧
    v.names 1 = some 1 ∧ v.names 2 = none ∧ v.names 3 = some 2 ∧
    (v.names 2 = some 2 ∨ ∃ random, v.reserved.head? = some (samplePaths.backup random) ∧
      v.names (samplePaths.backup random) = some 2) := by
  have reaches := play_reaches (S := publishAlone Nat) (p := publishCmd samplePaths) (w := sampleWorld)
    (e := sampleWorks 30 ++ (.inr (.random []) :: sampleWorks 24 ++ (.inr (.moves 5) :: sampleWorks 10 ++
      [.inr (.fails 2), .inr (.fails 5), .inr .works]))) rfl
  exact ⟨_, _, reaches, rfl, rfl, rfl, ((publish_keeps sampleWorld_start reaches).2 _ rfl).2 2 rfl⟩

end Machteld
