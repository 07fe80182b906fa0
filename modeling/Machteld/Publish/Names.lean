import Machteld.Publish.World

namespace Machteld

variable {Path : Type} [DecidableEq Path]

/-- The name a handle follows is a name of its file, and new files are new.
-/
structure PublishWorld.Sound (w : PublishWorld Path) : Prop where
  links : ∀ h f path, w.handles h = some (f, some path) → w.names path = some f
  files : ∀ path f, w.names path = some f → f < w.nextFile

/-- A world before publication: it has opened, made and deleted nothing. -/
structure PublishWorld.Start (w : PublishWorld Path) : Prop where
  closed : ∀ h, w.handles h = none
  files : ∀ path f, w.names path = some f → f < w.nextFile
  made : w.made = []
  reserved : w.reserved = []
  displaced : w.displaced = []
  deleted : w.deleted = []

namespace PublishWorld

variable {w : PublishWorld Path}

omit [DecidableEq Path] in
theorem Start.sound (start : w.Start) : w.Sound where
  links h f path open' := by rw [start.closed h] at open'; cases open'
  files := start.files

/-- A handle keeps its file through whatever happens to names. -/
theorem unlink_file {h : Nat} {path : Path} {f : FileId} {q : Option Path}
    (holds : (w.unlink path).handles h = some (f, q)) :
    ∃ p, w.handles h = some (f, p) ∧ q = if p = some path then none else p := by
  obtain ⟨⟨g, p⟩, before, same⟩ := Option.map_eq_some_iff.mp holds
  obtain ⟨rfl, rfl⟩ := Prod.mk.inj same
  exact ⟨p, before, rfl⟩

theorem rename_file {h : Nat} {source target : Path} {f : FileId} {q : Option Path}
    (holds : (w.rename source target).handles h = some (f, q)) :
    ∃ p, w.handles h = some (f, p) ∧ q = if p = some source then some target else p := by
  obtain ⟨⟨g, p⟩, before, same⟩ := Option.map_eq_some_iff.mp holds
  obtain ⟨rfl, rfl⟩ := Prod.mk.inj same
  exact ⟨p, before, rfl⟩

theorem unlink_names {path other : Path} :
    (w.unlink path).names other = if other = path then none else w.names other :=
  Function.update_apply ..

theorem rename_names {source target other : Path} : (w.rename source target).names other =
    if other = target then w.names source else if other = source then none else w.names other := by
  simp only [rename, Function.update_apply]

/-- Taking a name from a file keeps the world consistent: the file lives on
while a handle holds it. -/
theorem unlink_sound (sound : w.Sound) (path : Path) : (w.unlink path).Sound where
  links h f other holds := by
    obtain ⟨p, before, now⟩ := unlink_file holds
    split_ifs at now with gone
    subst now
    rw [unlink_names, if_neg fun same => gone (congrArg some same)]
    exact sound.links h f other before
  files other f known := by
    rw [unlink_names] at known
    split_ifs at known
    exact sound.files other f known

/-- A rename to a free name keeps the world consistent. -/
theorem rename_sound (sound : w.Sound) {source target : Path} (free : w.names target = none) :
    (w.rename source target).Sound where
  links h f other holds := by
    obtain ⟨p, before, now⟩ := rename_file holds
    rw [rename_names]
    split_ifs at now with follows
    · subst follows
      obtain rfl := Option.some.inj now
      rw [if_pos rfl]
      exact sound.links h f source before
    · subst now
      have known := sound.links h f other before
      have elsewhere : other ≠ target := fun same => by rw [same, free] at known; cases known
      rw [if_neg elsewhere, if_neg fun same => follows (congrArg some same)]
      exact known
  files other f known := by
    rw [rename_names] at known
    split_ifs at known
    · exact sound.files source f known
    · exact sound.files other f known

omit [DecidableEq Path] in
/-- An open adds a handle to an existing file. -/
theorem opened_sound (sound : w.Sound) {path : Path} {f : FileId} (known : w.names path = some f) :
    (w.opened path f).Sound where
  links h g other holds := by
    by_cases new : h = w.nextHandle
    · subst new
      simp only [opened, Function.update_self] at holds
      obtain ⟨rfl, same⟩ := Prod.mk.inj (Option.some.inj holds)
      obtain rfl := Option.some.inj same
      exact known
    · simp only [opened, Function.update_of_ne new] at holds
      exact sound.links h g other holds
  files := sound.files

omit [DecidableEq Path] in
/-- A close lets the file of the handle go where no name leads to it. -/
theorem closed_sound (sound : w.Sound) (h : Nat) : (w.closed h).Sound where
  links k f path holds := by
    by_cases same : k = h
    · subst same
      simp only [closed, Function.update_self] at holds
      cases holds
    · simp only [closed, Function.update_of_ne same] at holds
      exact sound.links k f path holds
  files := sound.files

/-- A new file has a number that no file had before. -/
theorem made_sound (sound : w.Sound) {path : Path} {attrs : FileAttrs} (free : w.names path = none) :
    (w.made' path attrs).Sound where
  links h f other holds := by
    have known := sound.links h f other holds
    have elsewhere : other ≠ path := fun same => by rw [same, free] at known; cases known
    simp only [made', Function.update_of_ne elsewhere]
    exact known
  files other f known := by
    simp only [made'] at known ⊢
    rw [Function.update_apply] at known
    split_ifs at known
    · obtain rfl := Option.some.inj known
      exact Nat.lt_succ_self _
    · exact Nat.lt_succ_of_lt (sound.files other f known)

theorem marked_names {path other : Path} :
    (w.marked path).names other = if other = path then some w.nextFile else w.names other :=
  Function.update_apply ..

theorem remove_cases (w : PublishWorld Path) (path : Path) :
    (w.names path = none ∧ w.remove path = w) ∨
      ∃ f, w.names path = some f ∧ w.remove path = { w.unlink path with deleted := f :: w.deleted } := by
  unfold remove
  cases known : w.names path with
  | none => exact .inl ⟨rfl, rfl⟩
  | some f => exact .inr ⟨f, rfl, rfl⟩

theorem remove_names {path other : Path} :
    (w.remove path).names other = if other = path then none else w.names other := by
  obtain ⟨free, same⟩ | ⟨f, -, same⟩ := w.remove_cases path
  · rw [same]
    split_ifs with equal
    · rw [equal, free]
    · rfl
  · rw [same]
    exact unlink_names

theorem remove_nextHandle {path : Path} : (w.remove path).nextHandle = w.nextHandle := by
  obtain ⟨-, same⟩ | ⟨f, -, same⟩ := w.remove_cases path <;> rw [same]
  rfl

theorem remove_sound (sound : w.Sound) (path : Path) : (w.remove path).Sound := by
  obtain ⟨-, same⟩ | ⟨f, -, same⟩ := w.remove_cases path
  · rwa [same]
  · rw [same]
    exact ⟨(unlink_sound sound path).links, (unlink_sound sound path).files⟩

/-- A handle keeps its file, and follows the name it followed or none. -/
theorem remove_file {h : Nat} {path : Path} {f : FileId} {q : Option Path}
    (holds : (w.remove path).handles h = some (f, q)) :
    ∃ p, w.handles h = some (f, p) ∧ (q = p ∨ q = none) := by
  obtain ⟨-, same⟩ | ⟨g, -, same⟩ := w.remove_cases path
  · rw [same] at holds
    exact ⟨q, holds, .inl rfl⟩
  · rw [same] at holds
    obtain ⟨p, before, rfl⟩ := unlink_file holds
    refine ⟨p, before, ?_⟩
    split_ifs
    · exact .inr rfl
    · exact .inl rfl

/-- Through a handle goes the name it follows. -/
theorem disposed_cases (w : PublishWorld Path) (h : Nat) :
    w.disposed h = w ∨ ∃ f path, w.handles h = some (f, some path) ∧ w.disposed h = w.remove path := by
  unfold disposed
  cases holds : w.handles h with
  | none => exact .inl rfl
  | some r =>
    obtain ⟨f, p⟩ := r
    cases p with
    | none => exact .inl rfl
    | some path => exact .inr ⟨f, path, rfl, rfl⟩

theorem Sound.removed (sound : w.Sound) {h : Nat} {f : FileId} {path : Path}
    (holds : w.handles h = some (f, some path)) :
    w.remove path = { w.unlink path with deleted := f :: w.deleted } := by
  simp only [remove, sound.links h f path holds]

theorem backedUp_sound (sound : w.Sound) (destination backup : Path) : (w.backedUp destination backup).Sound :=
  rename_sound (remove_sound sound backup) (by rw [remove_names, if_pos rfl])

theorem replaced_sound (sound : w.Sound) {destination candidate backup : Path} (f : FileId)
    (apart : backup ≠ destination) : (w.replaced destination candidate backup f).Sound := by
  have whole : ((w.backedUp destination backup).rename candidate destination).Sound := by
    refine rename_sound (backedUp_sound sound destination backup) ?_
    rw [backedUp, rename_names, if_neg apart.symm, if_pos rfl]
  exact ⟨whole.links, whole.files⟩

end PublishWorld

open PublishWorld

variable {w v : PublishWorld Path}

/-- All that `ReplaceFileW` can do. -/
theorem publishReplaces_cases {destination candidate backup : Path} {choice : PublishChoice} {a : Except Nat Unit}
    (acts : publishReplaces w destination candidate backup choice = some (a, v)) :
    (∃ e, a = .error e ∧ v = w) ∨ ∃ f g, w.names destination = some f ∧ w.names candidate = some g ∧ f ≠ g ∧
      backup ≠ destination ∧ backup ≠ candidate ∧
      ((choice = .works ∧ a = .ok () ∧ v = w.replaced destination candidate backup f) ∨
        ∃ e, a = .error e ∧ ((choice = .loses e ∧ v = w.remove backup) ∨
          (choice = .moves e ∧ v = w.backedUp destination backup))) := by
  cases old : w.names destination with
  | none =>
    cases choice with
    | fails e =>
      obtain ⟨rfl, rfl⟩ := Prod.mk.inj (Option.some.inj acts)
      exact .inl ⟨e, rfl, rfl⟩
    | _ => simp only [publishReplaces, old, reduceCtorEq] at acts
  | some f =>
    cases new : w.names candidate with
    | none =>
      cases choice with
      | fails e =>
        obtain ⟨rfl, rfl⟩ := Prod.mk.inj (Option.some.inj acts)
        exact .inl ⟨e, rfl, rfl⟩
      | _ => simp only [publishReplaces, old, new, reduceCtorEq] at acts
    | some g =>
      cases choice with
      | fails e =>
        obtain ⟨rfl, rfl⟩ := Prod.mk.inj (Option.some.inj acts)
        exact .inl ⟨e, rfl, rfl⟩
      | works =>
        simp only [publishReplaces, old, new] at acts
        split_ifs at acts with apart
        obtain ⟨rfl, rfl⟩ := Prod.mk.inj (Option.some.inj acts)
        exact .inr ⟨f, g, rfl, rfl, apart.1, apart.2.1, apart.2.2, .inl ⟨rfl, rfl, rfl⟩⟩
      | loses e =>
        simp only [publishReplaces, old, new] at acts
        split_ifs at acts with apart
        obtain ⟨rfl, rfl⟩ := Prod.mk.inj (Option.some.inj acts)
        exact .inr ⟨f, g, rfl, rfl, apart.1, apart.2.1, apart.2.2, .inr ⟨e, rfl, .inl ⟨rfl, rfl⟩⟩⟩
      | moves e =>
        simp only [publishReplaces, old, new] at acts
        split_ifs at acts with apart
        obtain ⟨rfl, rfl⟩ := Prod.mk.inj (Option.some.inj acts)
        exact .inr ⟨f, g, rfl, rfl, apart.1, apart.2.1, apart.2.2, .inr ⟨e, rfl, .inr ⟨rfl, rfl⟩⟩⟩
      | random bytes =>
        simp only [publishReplaces, old, new] at acts
        split_ifs at acts

/-- What another process does keeps worlds sound. -/
theorem publishMove_sound {m : PublishMove Path} (sound : w.Sound) (moves : publishMove m w = some v) :
    v.Sound := by
  cases m with
  | create path attrs =>
    simp only [publishMove] at moves
    split_ifs at moves with free
    obtain rfl := Option.some.inj moves
    exact made_sound sound free
  | delete path =>
    simp only [publishMove] at moves
    split_ifs at moves
    obtain rfl := Option.some.inj moves
    exact unlink_sound sound path
  | rename source target replace =>
    simp only [publishMove] at moves
    split_ifs at moves with same free replaces
    · obtain rfl := Option.some.inj moves
      exact rename_sound sound free
    · obtain rfl := Option.some.inj moves
      exact rename_sound (unlink_sound sound target) (by rw [unlink_names, if_pos rfl])

/-- Another process leaves handles their files, opens none and can give no
name to a handle that has lost its own. -/
theorem publishMove_file {m : PublishMove Path} (moves : publishMove m w = some v) {h : Nat} {f : FileId}
    {q : Option Path} (holds : v.handles h = some (f, q)) :
    ∃ p, w.handles h = some (f, p) ∧ (p = none → q = none) := by
  cases m with
  | create path attrs =>
    simp only [publishMove] at moves
    split_ifs at moves
    obtain rfl := Option.some.inj moves
    exact ⟨q, holds, fun gone => gone⟩
  | delete path =>
    simp only [publishMove] at moves
    split_ifs at moves
    obtain rfl := Option.some.inj moves
    obtain ⟨p, before, rfl⟩ := unlink_file holds
    exact ⟨p, before, by rintro rfl; rfl⟩
  | rename source target replace =>
    simp only [publishMove] at moves
    split_ifs at moves
    · obtain rfl := Option.some.inj moves
      obtain ⟨p, before, rfl⟩ := rename_file holds
      exact ⟨p, before, by rintro rfl; rfl⟩
    · obtain rfl := Option.some.inj moves
      obtain ⟨p, later, rfl⟩ := rename_file holds
      obtain ⟨r, before, rfl⟩ := unlink_file later
      exact ⟨r, before, by rintro rfl; rfl⟩

/-- Another process changes nothing that is recorded of publication. -/
theorem publishMove_record {m : PublishMove Path} (moves : publishMove m w = some v) :
    v.made = w.made ∧ v.displaced = w.displaced ∧ v.deleted = w.deleted ∧ v.nextHandle = w.nextHandle := by
  cases m with
  | create path attrs =>
    simp only [publishMove] at moves
    split_ifs at moves
    obtain rfl := Option.some.inj moves
    exact ⟨rfl, rfl, rfl, rfl⟩
  | delete path =>
    simp only [publishMove] at moves
    split_ifs at moves
    obtain rfl := Option.some.inj moves
    exact ⟨rfl, rfl, rfl, rfl⟩
  | rename source target replace =>
    simp only [publishMove] at moves
    split_ifs at moves
    all_goals
      obtain rfl := Option.some.inj moves
      exact ⟨rfl, rfl, rfl, rfl⟩

end Machteld
