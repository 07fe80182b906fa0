import Machteld.Watch.Renames

namespace Machteld

/-- The place of an action in the order removed, added, renamed, modified.
-/
def watchRank (action : Nat) : Nat :=
  if action = fileActionRemoved then 4
  else if action = fileActionAdded then 3
  else if action = fileActionRenamedOldName ∨ action = fileActionRenamedNewName then 2
  else if action = fileActionModified then 1
  else 0

/-- The texts of a row whose action has a rank. -/
def rankTexts : Nat → List Bytes
  | 4 => [ascii "removed"]
  | 3 => [ascii "added"]
  | 2 => [ascii "renamed", ascii "renamed-old", ascii "renamed-new"]
  | 1 => [ascii "modified"]
  | _ => [ascii "unknown"]

/-- The events of a batch that the pairing leaves. -/
def watchRemaining : List WatchEvent → List WatchEvent
  | [] => []
  | event :: rest =>
    if event.action = fileActionRenamedOldName ∧ (rest.any fun later => later.action ==
      fileActionRenamedNewName) = true
    then watchRemaining rest
    else event :: watchRemaining rest

/-- The action is one of those that set a flag. -/
def Flagged (action : Nat) : Prop :=
  action = fileActionRemoved ∨ action = fileActionAdded ∨ action = fileActionRenamedNewName

/-- Of every path, the remaining events have one that sets a flag or begin
with one of the highest rank. -/
def FirstHighest (batch : List WatchEvent) : Prop :=
  ∀ first rest, (watchRemaining batch).filter (fun event => event.path == first.path) = first :: rest →
    (∃ event ∈ first :: rest, Flagged event.action) ∨ ∀ event ∈ rest, watchRank event.action ≤
      watchRank first.action

/-- There is one row for each path with an event left, in order of first
appearance, and its action is the highest of the path's events. -/
structure ByPrecedence (batch : List WatchEvent) : Prop where
  paths : (watchCoalesce batch).map WatchChange.path = ((watchLive (watchPaired batch)).map Wevent.path).eraseDups
  action : ∀ change ∈ watchCoalesce batch, ∃ event ∈ watchGroup (watchPaired batch) change.path,
    change.action ∈ rankTexts (watchRank event.action) ∧
      ∀ other ∈ watchGroup (watchPaired batch) change.path, watchRank other.action ≤ watchRank event.action

/-- The loop over later events finds a new name where there is one. -/
theorem any_isNew {batch : List WatchEvent} {k : Nat} :
    ((batch.drop k).any fun later => later.action == fileActionRenamedNewName) = true ↔ ∃ m, k ≤ m ∧
      IsNew batch m := by
  rw [List.any_eq_true]
  constructor
  · intro ⟨later, member, new⟩
    obtain ⟨m, here⟩ := List.mem_iff_getElem?.mp member
    rw [List.getElem?_drop] at here
    exact ⟨k + m, Nat.le_add_right k m, later, here, beq_iff_eq.mp new⟩
  · intro ⟨m, after, later, here, new⟩
    refine ⟨later, List.mem_iff_getElem?.mpr ⟨m - k, ?_⟩, beq_iff_eq.mpr new⟩
    rw [List.getElem?_drop, Nat.add_sub_cancel' after, here]

/-- The events left after the pairing. -/
theorem watchLive_paired (batch : List WatchEvent) :
    (watchLive (watchPaired batch)).map Wevent.queued = watchRemaining batch := by
  have paired := pairedTo batch batch.length
  have suffix : ∀ n k, batch.length = k + n →
      (watchLive ((watchPaired batch).drop k)).map Wevent.queued = watchRemaining (batch.drop k) := by
    intro n
    induction n with
    | zero =>
      intro k all
      have upto : (watchPaired batch).length ≤ k := Nat.le_of_eq (paired.length.trans (by omega))
      rw [List.drop_eq_nil_of_le upto, List.drop_eq_nil_of_le (by omega)]
      rfl
    | succ n ih =>
      intro k all
      have inside : k < batch.length := by omega
      have inside' : k < (watchPaired batch).length := paired.length.symm ▸ inside
      have rest := ih (k + 1) (by omega)
      have here := List.getElem?_eq_getElem inside'
      have queued := paired.event here
      have item : batch[k] = (watchPaired batch)[k].queued :=
        Option.some.inj ((List.getElem?_eq_getElem inside).symm.trans queued)
      rw [List.drop_eq_getElem_cons inside', List.drop_eq_getElem_cons inside, watchRemaining]
      have done := paired.done k _ here
      by_cases consumed : (watchPaired batch)[k].done = true
      · obtain ⟨_, ⟨old, found, action⟩, m, after, new⟩ := done.mp consumed
        cases Option.some.inj ((List.getElem?_eq_getElem inside).symm.trans found)
        rw [watchLive_consumed consumed, rest, if_pos ⟨action, any_isNew.mpr ⟨m, after, new⟩⟩]
      · rw [watchLive_cons (Bool.eq_false_iff.mpr consumed), List.map_cons, rest, ← item, if_neg]
        intro ⟨action, later⟩
        obtain ⟨m, after, new⟩ := any_isNew.mp later
        exact consumed (done.mpr ⟨inside, ⟨_, List.getElem?_eq_getElem inside, action⟩, m, after, new⟩)
  exact suffix batch.length 0 (Nat.zero_add _).symm

theorem watchGroup_queued (batch : List WatchEvent) (path : Bytes) :
    (watchGroup (watchPaired batch) path).map Wevent.queued =
      (watchRemaining batch).filter fun event => event.path == path := by
  rw [← watchLive_paired, List.filter_map]
  rfl

/-- One event sets the flag of its action and clears none, so that the flags
of a path do not depend on the order of its events. -/
theorem observe_flags (flags : WatchFlags) (event : Wevent) :
    ((flags.observe event).removed = true ↔ flags.removed = true ∨ event.action = fileActionRemoved) ∧
    ((flags.observe event).added = true ↔ flags.added = true ∨ event.action = fileActionAdded) ∧
    ((flags.observe event).renamed = true ↔ flags.renamed = true ∨ event.action = fileActionRenamedNewName) := by
  rw [WatchFlags.observe]
  split
  next removed => simp [removed, fileActionRemoved, fileActionAdded, fileActionRenamedNewName]
  next kept =>
    split
    next added => simp [added, fileActionRemoved, fileActionAdded, fileActionRenamedNewName]
    next kept' =>
      split
      next renamed => simp [renamed, fileActionRemoved, fileActionAdded, fileActionRenamedNewName]
      next kept'' => simp [kept, kept', kept'']

/-- The flags tell which actions there are. -/
theorem foldl_observe_flags (group : List Wevent) (flags : WatchFlags) :
    ((group.foldl WatchFlags.observe flags).removed = true ↔
      flags.removed = true ∨ ∃ event ∈ group, event.action = fileActionRemoved) ∧
    ((group.foldl WatchFlags.observe flags).added = true ↔
      flags.added = true ∨ ∃ event ∈ group, event.action = fileActionAdded) ∧
    ((group.foldl WatchFlags.observe flags).renamed = true ↔
      flags.renamed = true ∨ ∃ event ∈ group, event.action = fileActionRenamedNewName) := by
  induction group generalizing flags with
  | nil => simp
  | cons event group ih =>
    obtain ⟨removed, added, renamed⟩ := ih (flags.observe event)
    obtain ⟨removed', added', renamed'⟩ := observe_flags flags event
    simp only [List.foldl_cons, removed, added, renamed, removed', added', renamed',
      List.exists_mem_cons_iff, or_assoc,
      true_and]

/-- After the events of a path a flag is set where one of them had its
action. This is what makes the action of a row one of precedence. -/
theorem clear_observed (group : List Wevent) :
    ((group.foldl WatchFlags.observe WatchFlags.clear).removed = true ↔
      ∃ event ∈ group, event.action = fileActionRemoved) ∧
    ((group.foldl WatchFlags.observe WatchFlags.clear).added = true ↔
      ∃ event ∈ group, event.action = fileActionAdded) ∧
    ((group.foldl WatchFlags.observe WatchFlags.clear).renamed = true ↔
      ∃ event ∈ group, event.action = fileActionRenamedNewName) := by
  simpa only [WatchFlags.clear, Bool.false_eq_true, false_or] using foldl_observe_flags group WatchFlags.clear

theorem watchRank_le_four (action : Nat) : watchRank action ≤ 4 := by
  rw [watchRank]
  repeat' split
  all_goals omega

theorem watchRank_le_three {action : Nat} (kept : action ≠ fileActionRemoved) : watchRank action ≤ 3 := by
  rw [watchRank, if_neg kept]
  repeat' split
  all_goals omega

theorem watchRank_le_two {action : Nat} (kept : action ≠ fileActionRemoved) (seen : action ≠ fileActionAdded) :
    watchRank action ≤ 2 := by
  rw [watchRank, if_neg kept, if_neg seen]
  repeat' split
  all_goals omega

/-- The actions that set no flag. -/
theorem plain_cases {action : Nat} (plain : ¬ Flagged action) :
    (watchRank action = 2 ∧ watchActionName action = ascii "renamed-old") ∨
    (watchRank action = 1 ∧ watchActionName action = ascii "modified") ∨
    (watchRank action = 0 ∧ watchActionName action = ascii "unknown") := by
  match action with
  | 0 => exact .inr (.inr ⟨rfl, rfl⟩)
  | 1 => exact absurd (.inr (.inl rfl)) plain
  | 2 => exact absurd (.inl rfl) plain
  | 3 => exact .inr (.inl ⟨rfl, rfl⟩)
  | 4 => exact .inl ⟨rfl, rfl⟩
  | 5 => exact absurd (.inr (.inr rfl)) plain
  | n + 6 => exact .inr (.inr ⟨rfl, rfl⟩)

/-- What a row says of an action that sets no flag tells the action's rank.
-/
theorem watchActionName_rank {action action' : Nat} (plain : ¬ Flagged action) (plain' : ¬ Flagged action') :
    (watchActionName action ∈ rankTexts (watchRank action') ↔ watchRank action = watchRank action') ∧
    (watchRank action = watchRank action' → watchActionName action = watchActionName action') := by
  rcases plain_cases plain with ⟨rank, text⟩ | ⟨rank, text⟩ | ⟨rank, text⟩ <;>
    rcases plain_cases plain' with ⟨rank', text'⟩ | ⟨rank', text'⟩ | ⟨rank', text'⟩ <;>
    rw [rank, rank', text, text'] <;> decide

/-- The text of a row, from the events of its path. -/
theorem watchAct_cases (group : List Wevent) (action : Nat) :
    (∃ event ∈ group, Flagged event.action ∧ (∀ other ∈ group, watchRank other.action ≤ watchRank event.action) ∧
      (rankTexts (watchRank event.action)).head? =
        some (watchAct (group.foldl WatchFlags.observe WatchFlags.clear) action)) ∨
    (∀ event ∈ group, ¬ Flagged event.action) ∧
      watchAct (group.foldl WatchFlags.observe WatchFlags.clear) action = watchActionName action := by
  obtain ⟨removed, added, renamed⟩ := clear_observed group
  rw [watchAct]
  by_cases gone : (group.foldl WatchFlags.observe WatchFlags.clear).removed = true
  · obtain ⟨event, member, action⟩ := removed.mp gone
    refine .inl ⟨event, member, .inl action, fun other _ => ?_, ?_⟩
    · rw [action]
      exact watchRank_le_four _
    · rw [if_pos gone, action]
      rfl
  rw [if_neg gone]
  have kept : ∀ event ∈ group, event.action ≠ fileActionRemoved := fun event member action =>
    gone (removed.mpr ⟨event, member, action⟩)
  by_cases appeared : (group.foldl WatchFlags.observe WatchFlags.clear).added = true
  · obtain ⟨event, member, action⟩ := added.mp appeared
    refine .inl ⟨event, member, .inr (.inl action), fun other inside => ?_, ?_⟩
    · rw [action]
      exact watchRank_le_three (kept other inside)
    · rw [if_pos appeared, action]
      rfl
  rw [if_neg appeared]
  have seen : ∀ event ∈ group, event.action ≠ fileActionAdded := fun event member action =>
    appeared (added.mpr ⟨event, member, action⟩)
  by_cases moved : (group.foldl WatchFlags.observe WatchFlags.clear).renamed = true
  · obtain ⟨event, member, action⟩ := renamed.mp moved
    refine .inl ⟨event, member, .inr (.inr action), fun other inside => ?_, ?_⟩
    · rw [action]
      exact watchRank_le_two (kept other inside) (seen other inside)
    · rw [if_pos moved, action]
      rfl
  · refine .inr ⟨fun event member flagged => ?_, if_neg moved⟩
    rcases flagged with action | action | action
    · exact kept event member action
    · exact seen event member action
    · exact moved (renamed.mpr ⟨event, member, action⟩)

theorem head_mem_rankTexts {rank : Nat} {text : Bytes} (head : (rankTexts rank).head? = some text) :
    text ∈ rankTexts rank := List.mem_of_mem_head? head

/-- The row of a path, with the events of the path. -/
theorem mem_watchCoalesce {batch : List WatchEvent} {change : WatchChange} (member : change ∈ watchCoalesce batch) :
    ∃ first rest, watchGroup (watchPaired batch) change.path = first :: rest ∧ change.action =
      watchAct ((first :: rest).foldl WatchFlags.observe WatchFlags.clear) first.action := by
  rw [watchCoalesce, watchChanges_eq] at member
  obtain ⟨path, inside, rfl⟩ := List.mem_map.mp member
  obtain ⟨event, live, rfl⟩ := List.mem_map.mp (List.mem_eraseDups.mp inside)
  have here : event ∈ watchGroup (watchPaired batch) event.path := mem_watchGroup.mpr ⟨live, rfl⟩
  cases group : watchGroup (watchPaired batch) event.path with
  | nil =>
    rw [group] at here
    cases here
  | cons first rest =>
    exact ⟨first, rest, group,
      by simp only [watchChangeOf, group, List.head?_cons, Option.map_some, Option.getD_some]⟩

theorem group_path {events : List Wevent} {path : Bytes} {first : Wevent} {rest : List Wevent}
    (group : watchGroup events path = first :: rest) : first.path = path :=
  (mem_watchGroup.mp (group ▸ List.mem_cons_self)).2

/-- The group of a path as the batch has it. -/
theorem group_queued {batch : List WatchEvent} {path : Bytes} {first : Wevent} {rest : List Wevent}
    (group : watchGroup (watchPaired batch) path = first :: rest) :
    (watchRemaining batch).filter (fun event => event.path == path) = first.queued :: rest.map Wevent.queued := by
  rw [← watchGroup_queued, group, List.map_cons]

/-- When no event of a path sets a flag, the condition says that its first
one is the highest. -/
theorem FirstHighest.highest {batch : List WatchEvent} (firsts : FirstHighest batch) {path : Bytes} {first : Wevent}
    {rest : List Wevent} (group : watchGroup (watchPaired batch) path = first :: rest)
    (plain : ∀ event ∈ first :: rest, ¬ Flagged event.action) :
    ∀ other ∈ first :: rest, watchRank other.action ≤ watchRank first.action := by
  have same := group_path group
  subst same
  rcases firsts first.queued (rest.map Wevent.queued) (group_queued group) with ⟨event, member, flagged⟩ | highest
  · rw [← List.map_cons] at member
    obtain ⟨event, inside, rfl⟩ := List.mem_map.mp member
    exact absurd flagged (plain event inside)
  · intro other inside
    rcases List.mem_cons.mp inside with rfl | later
    · exact Nat.le_refl _
    · exact highest other.queued (List.mem_map_of_mem later)

theorem perm_actions {group group' : List Wevent}
    (perms : (group.map Wevent.queued).Perm (group'.map Wevent.queued)) :
    ∀ event ∈ group, ∃ event' ∈ group', event'.action = event.action := by
  intro event inside
  obtain ⟨event', inside', same⟩ := List.mem_map.mp (perms.subset (List.mem_map_of_mem inside))
  exact ⟨event', inside', congrArg WatchEvent.action same⟩

/-- The text of a row does not depend on the order of the path's events when
the first one is the highest if none sets a flag. -/
theorem watchAct_perm {first first' : Wevent} {rest rest' : List Wevent}
    (perms : ((first :: rest).map Wevent.queued).Perm ((first' :: rest').map Wevent.queued))
    (highest : (∀ event ∈ first :: rest, ¬ Flagged event.action) →
      ∀ other ∈ first :: rest, watchRank other.action ≤ watchRank first.action)
    (highest' : (∀ event ∈ first' :: rest', ¬ Flagged event.action) →
      ∀ other ∈ first' :: rest', watchRank other.action ≤ watchRank first'.action) :
    watchAct ((first :: rest).foldl WatchFlags.observe WatchFlags.clear) first.action =
      watchAct ((first' :: rest').foldl WatchFlags.observe WatchFlags.clear) first'.action := by
  have carried := perm_actions perms
  have back := perm_actions perms.symm
  rcases watchAct_cases (first :: rest) first.action with ⟨event, inside, flagged, most, text⟩ | ⟨plain, named⟩ <;>
    rcases watchAct_cases (first' :: rest') first'.action with ⟨event', inside', flagged', most',
      text'⟩ | ⟨plain', named'⟩
  · obtain ⟨other, member, same⟩ := carried event inside
    obtain ⟨other', member', same'⟩ := back event' inside'
    have upper := most' other member
    have lower := most other' member'
    rw [same] at upper
    rw [same'] at lower
    rw [Nat.le_antisymm upper lower] at text
    exact Option.some.inj (text.symm.trans text')
  · obtain ⟨other, member, same⟩ := carried event inside
    exact absurd (same ▸ flagged) (plain' other member)
  · obtain ⟨other, member, same⟩ := back event' inside'
    exact absurd (same ▸ flagged') (plain other member)
  · rw [named, named']
    refine (watchActionName_rank (plain _ List.mem_cons_self) (plain' _ List.mem_cons_self)).2
      (Nat.le_antisymm ?_ ?_)
    · obtain ⟨other, member, same⟩ := carried first List.mem_cons_self
      exact same ▸ highest' plain' other member
    · obtain ⟨other, member, same⟩ := back first' List.mem_cons_self
      exact same ▸ highest plain other member

/-- The action of a path is the highest one just when the remaining events
of every path have one that sets a flag or begin with the highest; and the
order of the events then does not matter. -/
theorem watchCoalesce_byPrecedence (batch : List WatchEvent) :
    (ByPrecedence batch ↔ FirstHighest batch) ∧
    ∀ batch', (watchRemaining batch).Perm (watchRemaining batch') → FirstHighest batch → FirstHighest batch' →
      ∀ change ∈ watchCoalesce batch, ∀ change' ∈ watchCoalesce batch', change.path = change'.path →
        change.action = change'.action := by
  refine ⟨⟨fun precedence first rest group => ?_, fun firsts => ⟨?_, fun change member => ?_⟩⟩, ?_⟩
  · have queued := watchGroup_queued batch first.path
    rw [group] at queued
    obtain ⟨first', rest', grouped, rfl, rfl⟩ := List.map_eq_cons_iff.mp queued
    have live : first' ∈ watchLive (watchPaired batch) := (mem_watchGroup.mp (grouped ▸ List.mem_cons_self)).1
    obtain ⟨event, inside, text, highest⟩ := precedence.action _ (mem_watchCoalesce_path live)
    have grouped' : watchGroup (watchPaired batch) first'.path = first' :: rest' := grouped
    rw [show (watchChangeOf (watchPaired batch) first'.path).path = first'.path from rfl,
      grouped'] at inside highest
    rcases watchAct_cases (first' :: rest') first'.action with ⟨flagged, member, sets, _⟩ | ⟨plain, named⟩
    · exact .inl ⟨flagged.queued, List.map_cons ▸ List.mem_map_of_mem member, sets⟩
    · refine .inr fun other later => ?_
      obtain ⟨other', inside', rfl⟩ := List.mem_map.mp later
      have acted : (watchChangeOf (watchPaired batch) first'.path).action = watchActionName first'.action := by
        simp only [watchChangeOf, grouped', List.head?_cons, Option.map_some, Option.getD_some, named]
      rw [acted] at text
      have rank := (watchActionName_rank (plain _ List.mem_cons_self) (plain event inside)).1.mp text
      rw [show watchRank first'.queued.action = watchRank first'.action from rfl, rank]
      exact highest other' (List.mem_cons_of_mem _ inside')
  · rw [watchCoalesce, watchChanges_eq, List.map_map]
    exact List.map_id _
  · obtain ⟨first, rest, group, acted⟩ := mem_watchCoalesce member
    rw [group, acted]
    rcases watchAct_cases (first :: rest) first.action with ⟨event, inside, _, highest, text⟩ | ⟨plain, named⟩
    · exact ⟨event, inside, head_mem_rankTexts text, highest⟩
    · refine ⟨first, List.mem_cons_self, ?_, firsts.highest group plain⟩
      rw [named]
      exact (watchActionName_rank (plain _ List.mem_cons_self) (plain _ List.mem_cons_self)).1.mpr rfl
  · intro batch' perm firsts firsts' change member change' member' same
    obtain ⟨first, rest, group, acted⟩ := mem_watchCoalesce member
    obtain ⟨first', rest', group', acted'⟩ := mem_watchCoalesce member'
    rw [← same] at group'
    have perms := perm.filter fun event => event.path == change.path
    rw [group_queued group, group_queued group', ← List.map_cons, ← List.map_cons] at perms
    rw [acted, acted']
    exact watchAct_perm perms (firsts.highest group) (firsts'.highest group')

/-- The condition, at the events that there are. -/
theorem firstHighest_iff {batch : List WatchEvent} : FirstHighest batch ↔ ∀ event ∈ watchRemaining batch,
    (∃ other ∈ (watchRemaining batch).filter (fun other => other.path == event.path), Flagged other.action) ∨
      ∀ other ∈ ((watchRemaining batch).filter (fun other => other.path == event.path)).tail,
        ∀ first ∈ ((watchRemaining batch).filter (fun other => other.path == event.path)).head?,
          watchRank other.action ≤ watchRank first.action := by
  constructor
  · intro firsts event inside
    have here : event ∈ (watchRemaining batch).filter fun other => other.path == event.path :=
      List.mem_filter.mpr ⟨inside, beq_self_eq_true _⟩
    cases group : (watchRemaining batch).filter fun other => other.path == event.path with
    | nil =>
      rw [group] at here
      cases here
    | cons first rest =>
      have member : first ∈ (watchRemaining batch).filter fun other => other.path == event.path :=
        group ▸ List.mem_cons_self
      have path : first.path = event.path := beq_iff_eq.mp (List.mem_filter.mp member).2
      refine (firsts first rest (path.symm ▸ group)).imp id fun highest other later first' same => ?_
      exact Option.some.inj same ▸ highest other later
  · intro each first rest group
    have member := (List.mem_filter.mp (group ▸ List.mem_cons_self)).1
    have here := each first member
    rw [group] at here
    exact here.imp id fun highest other later => highest other later first rfl

instance (action : Nat) : Decidable (Flagged action) := inferInstanceAs (Decidable (_ ∨ _ ∨ _))

instance (batch : List WatchEvent) : Decidable (FirstHighest batch) := decidable_of_iff _ firstHighest_iff.symm

/-- A file rewritten, one moved and one only written, with other files
between. -/
def saveSample : List WatchEvent :=
  [⟨fileActionModified, ascii "a"⟩, ⟨fileActionAdded, ascii "a"⟩, ⟨fileActionModified, ascii "b"⟩,
    ⟨fileActionModified, ascii "c"⟩, ⟨fileActionRenamedNewName, ascii "b"⟩, ⟨fileActionRemoved, ascii "a"⟩,
    ⟨fileActionModified, ascii "c"⟩]

def savedSample : List WatchEvent :=
  [⟨fileActionRemoved, ascii "a"⟩, ⟨fileActionModified, ascii "c"⟩, ⟨fileActionRenamedNewName, ascii "b"⟩,
    ⟨fileActionAdded, ascii "a"⟩, ⟨fileActionModified, ascii "a"⟩, ⟨fileActionModified, ascii "c"⟩,
    ⟨fileActionModified, ascii "b"⟩]

theorem watchCoalesce_byPrecedence_sample : saveSample ≠ savedSample ∧
    watchCoalesce saveSample = [⟨ascii "a", ascii "removed", none⟩, ⟨ascii "b", ascii "renamed", none⟩,
      ⟨ascii "c", ascii "modified", none⟩] ∧
    ∀ change ∈ watchCoalesce saveSample, ∀ change' ∈ watchCoalesce savedSample, change.path = change'.path →
      change.action = change'.action := by
  refine ⟨by decide, ?_, (watchCoalesce_byPrecedence _).2 _ (by decide) (by decide) (by decide)⟩
  rw [watchCoalesce, watchChanges_eq]
  rfl

/-- A file written and then renamed away. -/
def leaveSample : List WatchEvent := [⟨fileActionModified, ascii "a"⟩, ⟨fileActionRenamedOldName, ascii "a"⟩]

theorem watchCoalesce_leaveSample : watchCoalesce leaveSample = [⟨ascii "a", ascii "modified", none⟩] := by
  rw [watchCoalesce, watchChanges_eq]
  rfl

/-- The highest action does not win, and the order of the events matters. -/
theorem watchCoalesce_firstWins : ¬ ByPrecedence leaveSample ∧
    watchCoalesce leaveSample = [⟨ascii "a", ascii "modified", none⟩] ∧
    watchCoalesce leaveSample.reverse = [⟨ascii "a", ascii "renamed-old", none⟩] := by
  refine ⟨fun precedence => ?_, watchCoalesce_leaveSample, ?_⟩
  · obtain ⟨event, inside, text, highest⟩ := precedence.action _ (watchCoalesce_leaveSample ▸ List.mem_cons_self)
    have paired : watchPaired leaveSample =
        [⟨fileActionModified, ascii "a", none, false⟩, ⟨fileActionRenamedOldName, ascii "a", none, false⟩] := rfl
    have member := (mem_watchLive.mp (mem_watchGroup.mp inside).1).1
    have renamed : ⟨fileActionRenamedOldName, ascii "a", none, false⟩ ∈ watchPaired leaveSample := by
      rw [paired]
      exact List.mem_cons_of_mem _ List.mem_cons_self
    have below := highest _ (mem_watchGroup.mpr ⟨mem_watchLive.mpr ⟨renamed, rfl⟩, rfl⟩)
    rw [paired] at member
    rcases List.mem_cons.mp member with rfl | later
    · exact absurd below (by decide)
    · rcases List.mem_cons.mp later with rfl | none
      · exact absurd text (by decide)
      · cases none
  · rw [watchCoalesce, watchChanges_eq]
    rfl

end Machteld
