import Machteld.Watch.Groups
import Mathlib.Data.Nat.Find

namespace Machteld

def IsOld (batch : List WatchEvent) (i : Nat) : Prop :=
  ∃ event, batch[i]? = some event ∧ event.action = fileActionRenamedOldName

def IsNew (batch : List WatchEvent) (j : Nat) : Prop :=
  ∃ event, batch[j]? = some event ∧ event.action = fileActionRenamedNewName

/-- The renamed-new event is the first one after the renamed-old event. -/
def Claims (batch : List WatchEvent) (i j : Nat) : Prop :=
  IsOld batch i ∧ i < j ∧ IsNew batch j ∧ ∀ m, i < m → m < j → ¬ IsNew batch m

/-- An old name claims one new name. -/
theorem Claims.unique {batch : List WatchEvent} {i j j' : Nat} (claims : Claims batch i j)
    (claims' : Claims batch i j') :
    j = j' := by
  obtain ⟨_, later, new, first⟩ := claims
  obtain ⟨_, later', new', first'⟩ := claims'
  rcases Nat.lt_trichotomy j j' with before | same | after
  · exact absurd new (first' j later before)
  · exact same
  · exact absurd new' (first j' later' after)

/-- An old name claims the first new name behind it, if there is one. -/
theorem exists_claims {batch : List WatchEvent} {i j : Nat} (old : IsOld batch i) (later : i < j)
    (new : IsNew batch j) :
    ∃ j', Claims batch i j' ∧ j' ≤ j := by
  classical
  have found : ∃ m, i < m ∧ IsNew batch m := ⟨j, later, new⟩
  refine ⟨Nat.find found, ⟨old, (Nat.find_spec found).1, (Nat.find_spec found).2, ?_⟩,
    Nat.find_min' found ⟨later, new⟩⟩
  intro m after before here
  exact Nat.find_min found before ⟨after, here⟩

/-- The event as it was queued. -/
def Wevent.queued (event : Wevent) : WatchEvent := ⟨event.action, event.path⟩

/-- What holds of the batch when the pairing loop has come to an event. -/
structure PairedTo (batch : List WatchEvent) (k : Nat) (events : List Wevent) : Prop where
  same : ∀ j : Nat, events[j]?.map Wevent.queued = batch[j]?
  done : ∀ (j : Nat) event, events[j]? = some event →
    (event.done = true ↔ j < k ∧ IsOld batch j ∧ ∃ m, j < m ∧ IsNew batch m)
  source : ∀ (j : Nat) event i, events[j]? = some event →
    (event.source = some i ↔ i < k ∧ Claims batch i j ∧ ∀ i', i < i' → i' < k → ¬ Claims batch i' j)

theorem PairedTo.event {batch : List WatchEvent} {k j : Nat} {events : List Wevent}
    (paired : PairedTo batch k events)
    {event : Wevent} (here : events[j]? = some event) : batch[j]? = some event.queued := by
  rw [← paired.same, here, Option.map_some]

theorem PairedTo.at {batch : List WatchEvent} {k j : Nat} {events : List Wevent} (paired : PairedTo batch k events)
    {event : WatchEvent} (here : batch[j]? = some event) :
    ∃ event', events[j]? = some event' ∧ event'.action = event.action ∧ event'.path = event.path := by
  rw [← paired.same] at here
  obtain ⟨event', found, rfl⟩ := Option.map_eq_some_iff.mp here
  exact ⟨event', found, rfl, rfl⟩

/-- Before the loop no event is paired. -/
theorem pairedTo_zero (batch : List WatchEvent) : PairedTo batch 0 (wevents batch) where
  same j := by
    rw [wevents, List.getElem?_map, Option.map_map]
    exact Option.map_id'
  done j event here := by
    obtain ⟨_, _, rfl⟩ := Option.map_eq_some_iff.mp (List.getElem?_map.symm.trans here)
    simp
  source j event i here := by
    obtain ⟨_, _, rfl⟩ := Option.map_eq_some_iff.mp (List.getElem?_map.symm.trans here)
    simp

/-- The old names of the batch are those of the loop's events. -/
theorem PairedTo.isOld {batch : List WatchEvent} {k j : Nat} {events : List Wevent}
    (paired : PairedTo batch k events) :
    IsOld batch j ↔ ∃ event, events[j]? = some event ∧ event.action = fileActionRenamedOldName := by
  constructor
  · intro ⟨event, here, old⟩
    obtain ⟨event', found, action, _⟩ := paired.at here
    exact ⟨event', found, action.trans old⟩
  · intro ⟨event, here, old⟩
    exact ⟨_, paired.event here, old⟩

/-- The new names of the batch are those of the loop's events that are not done.
-/
theorem PairedTo.isNew {batch : List WatchEvent} {k j : Nat} {events : List Wevent}
    (paired : PairedTo batch k events) :
    IsNew batch j ↔ ∃ event, events[j]? = some event ∧ event.done = false ∧
      event.action = fileActionRenamedNewName := by
  constructor
  · intro ⟨event, here, new⟩
    obtain ⟨event', found, action, _⟩ := paired.at here
    refine ⟨event', found, Bool.eq_false_iff.mpr fun consumed => ?_, action.trans new⟩
    obtain ⟨_, ⟨event'', here', old⟩, _⟩ := (paired.done j event' found).mp consumed
    cases Option.some.inj (here.symm.trans here')
    rw [new] at old
    exact absurd old (by decide)
  · intro ⟨event, here, _, new⟩
    exact ⟨_, paired.event here, new⟩

theorem IsNew.lt_length {batch : List WatchEvent} {j : Nat} (new : IsNew batch j) : j < batch.length := by
  obtain ⟨_, here, _⟩ := new
  exact (List.getElem?_eq_some_iff.mp here).1

theorem PairedTo.length {batch : List WatchEvent} {k : Nat} {events : List Wevent}
    (paired : PairedTo batch k events) :
    events.length = batch.length := by
  refine Nat.le_antisymm ?_ ?_
  · refine List.getElem?_eq_none_iff.mp ?_
    have none := paired.same batch.length
    rw [List.getElem?_eq_none (Nat.le_refl _)] at none
    exact Option.map_eq_none_iff.mp none
  · refine List.getElem?_eq_none_iff.mp ?_
    rw [← paired.same, List.getElem?_eq_none (Nat.le_refl _), Option.map_none]

/-- A turn of the loop pairs a renamed-old event with the first renamed-new
event after it. -/
theorem PairedTo.pairing {batch : List WatchEvent} {k j : Nat} {events : List Wevent}
    (paired : PairedTo batch k events) :
    watchPairing events k = some j ↔ Claims batch k j := by
  have candidate : ∀ m, (events[m]?.any fun event => !event.done && event.action ==
    fileActionRenamedNewName) = true ↔
      IsNew batch m := by
    intro m
    rw [paired.isNew]
    cases events[m]? with
    | none => simp
    | some event => simp
  have partner : watchPartner events k = some j ↔ k < j ∧ IsNew batch j ∧ ∀ m, k < m → m < j → ¬ IsNew batch m := by
    rw [watchPartner, List.find?_range_eq_some]
    constructor
    · intro ⟨found, _, first⟩
      rw [Bool.and_eq_true, decide_eq_true_eq, candidate] at found
      refine ⟨found.1, found.2, fun m after before new => ?_⟩
      have skipped := first m before
      rw [Bool.not_eq_true', Bool.and_eq_false_iff, decide_eq_false_iff_not] at skipped
      rcases skipped with outside | other
      · exact outside after
      · rw [(candidate m).mpr new] at other
        exact Bool.noConfusion other
    · intro ⟨after, new, first⟩
      refine ⟨?_, List.mem_range.mpr (paired.length ▸ new.lt_length), fun m before => ?_⟩
      · rw [Bool.and_eq_true, decide_eq_true_eq, candidate]
        exact ⟨after, new⟩
      · rw [Bool.not_eq_true', Bool.and_eq_false_iff, decide_eq_false_iff_not]
        by_cases inside : k < m
        · exact .inr (Bool.eq_false_iff.mpr fun here => first m inside before ((candidate m).mp here))
        · exact .inl inside
  rw [Claims, watchPairing, paired.isOld]
  cases here : events[k]? with
  | none => simp
  | some event =>
    have fresh : event.done = false :=
      Bool.eq_false_iff.mpr fun consumed => Nat.lt_irrefl k ((paired.done k event here).mp consumed).1
    simp only [fresh, Bool.false_eq_true, or_false]
    by_cases old : event.action = fileActionRenamedOldName
    · rw [if_neg (not_not.mpr old), partner]
      simp [old]
    · rw [if_pos old]
      simp [old]

/-- What a turn that pairs leaves of an event. -/
theorem pairTurn_at {events : List Wevent} {k partner j : Nat} {event : Wevent}
    (here : ((events.modify partner fun event => { event with source := some k }).modify k
      fun event => { event with done := true })[j]? = some event) :
    ∃ before, events[j]? = some before ∧ event.queued = before.queued ∧
      (event.done = true ↔ j = k ∨ before.done = true) ∧
      ∀ i, event.source = some i ↔ if partner = j then i = k else before.source = some i := by
  rw [List.getElem?_modify, List.getElem?_modify] at here
  obtain ⟨middle, rest, rfl⟩ := Option.map_eq_some_iff.mp here
  obtain ⟨before, found, rfl⟩ := Option.map_eq_some_iff.mp rest
  refine ⟨before, found, ?_, ?_, fun i => ?_⟩
  · split <;> split <;> rfl
  · by_cases own : k = j
    · simp [own]
    · rw [if_neg own]
      split <;> simp [Ne.symm own]
  · split <;> split <;> simp [eq_comm]

/-- One turn of the outer loop pairs its event with the new name that it
claims, and with no other. This is the invariant of the pairing of
`watch_coalesce`: what is paired so far, and which events are done. -/
theorem PairedTo.turn {batch : List WatchEvent} {k : Nat} {events : List Wevent}
    (paired : PairedTo batch k events) :
    PairedTo batch (k + 1) (watchPairTurn events k) := by
  rw [watchPairTurn]
  cases pairing : watchPairing events k with
  | none =>
    have idle : ∀ j, ¬ Claims batch k j := fun j claims => by
      rw [paired.pairing.mpr claims] at pairing
      cases pairing
    refine ⟨paired.same, fun j event here => (paired.done j event here).trans ?_,
      fun j event i here => (paired.source j event i here).trans ?_⟩
    · refine and_congr_left fun ⟨old, m, later, new⟩ => ⟨Nat.lt_succ_of_lt, fun before => ?_⟩
      refine Nat.lt_of_le_of_ne (Nat.lt_succ_iff.mp before) ?_
      rintro rfl
      obtain ⟨j', claims, _⟩ := exists_claims old later new
      exact idle j' claims
    · constructor
      · intro ⟨before, claims, final⟩
        refine ⟨Nat.lt_succ_of_lt before, claims, fun i' after inside claims' => ?_⟩
        rcases Nat.lt_succ_iff_lt_or_eq.mp inside with earlier | rfl
        · exact final i' after earlier claims'
        · exact idle j claims'
      · intro ⟨before, claims, final⟩
        refine ⟨?_, claims, fun i' after inside => final i' after (Nat.lt_succ_of_lt inside)⟩
        rcases Nat.lt_succ_iff_lt_or_eq.mp before with earlier | rfl
        · exact earlier
        · exact absurd claims (idle j)
  | some partner =>
    have claims := paired.pairing.mp pairing
    refine ⟨fun j => ?_, fun j event here => ?_, fun j event i here => ?_⟩
    · rw [← paired.same, List.getElem?_modify, List.getElem?_modify]
      cases events[j]? with
      | none => rfl
      | some event =>
        simp only [Option.map_eq_map, Option.map_some]
        split <;> split <;> rfl
    · obtain ⟨before, found, _, done, _⟩ := pairTurn_at here
      rw [done, paired.done j before found]
      constructor
      · rintro (rfl | ⟨inside, rest⟩)
        · exact ⟨Nat.lt_succ_self j, claims.1, partner, claims.2.1, claims.2.2.1⟩
        · exact ⟨Nat.lt_succ_of_lt inside, rest⟩
      · intro ⟨inside, rest⟩
        rcases Nat.lt_succ_iff_lt_or_eq.mp inside with earlier | same
        · exact .inr ⟨earlier, rest⟩
        · exact .inl same
    · obtain ⟨before, found, _, _, source⟩ := pairTurn_at here
      rw [source]
      by_cases chosen : partner = j
      · subst chosen
        rw [if_pos rfl]
        constructor
        · rintro rfl
          exact ⟨Nat.lt_succ_self i, claims, fun i' after inside => by omega⟩
        · intro ⟨inside, _, final⟩
          rcases Nat.lt_succ_iff_lt_or_eq.mp inside with earlier | same
          · exact absurd claims (final k earlier (Nat.lt_succ_self k))
          · exact same
      · rw [if_neg chosen, paired.source j before i found]
        have other : ¬ Claims batch k j := fun claims' => chosen (claims.unique claims')
        constructor
        · intro ⟨inside, claimed, final⟩
          refine ⟨Nat.lt_succ_of_lt inside, claimed, fun i' after upto claims' => ?_⟩
          rcases Nat.lt_succ_iff_lt_or_eq.mp upto with earlier | rfl
          · exact final i' after earlier claims'
          · exact other claims'
        · intro ⟨inside, claimed, final⟩
          refine ⟨?_, claimed, fun i' after upto => final i' after (Nat.lt_succ_of_lt upto)⟩
          rcases Nat.lt_succ_iff_lt_or_eq.mp inside with earlier | rfl
          · exact earlier
          · exact absurd claimed other

theorem pairedTo (batch : List WatchEvent) (k : Nat) : PairedTo batch k (watchPairs batch k) := by
  induction k with
  | zero => exact pairedTo_zero batch
  | succ k ih =>
    rw [watchPairs, List.range_succ, List.foldl_append]
    exact ih.turn

theorem watchPairing_eq_some {batch : List WatchEvent} {i j : Nat} :
    watchPairing (watchPairs batch i) i = some j ↔ Claims batch i j := (pairedTo batch i).pairing

/-- Every renamed-old event is followed by a renamed-new event of its own.
-/
def Followed (batch : List WatchEvent) : Prop :=
  ∃ own : Nat → Nat, (∀ i, IsOld batch i → i < own i ∧ IsNew batch (own i)) ∧
    ∀ i i', IsOld batch i → IsOld batch i' → own i = own i' → i = i'

/-- Between two renamed-old events of which the second has a renamed-new
event after it there is a renamed-new event. -/
def RenamesApart (batch : List WatchEvent) : Prop :=
  ∀ i i' j, i < i' → i' < j → IsOld batch i → IsOld batch i' → IsNew batch j → ∃ m, i < m ∧ m < i' ∧ IsNew batch m

def pathAt (batch : List WatchEvent) (i : Nat) : Option Bytes := batch[i]?.map WatchEvent.path

/-- Where the first renamed-new events after two renamed-old events have one
path, the renamed-old events have one too. -/
def OneOldName (batch : List WatchEvent) : Prop :=
  ∀ i i' j j', Claims batch i j → Claims batch i' j' → pathAt batch j = pathAt batch j' →
    pathAt batch i = pathAt batch i'

/-- The old name that a row has as its `from`. -/
def WatchChange.oldName (batch : List WatchEvent) (change : WatchChange) : Option Bytes :=
  (change.source.bind fun i => batch[i]?).map WatchEvent.path

/-- No renamed-old event is lost: it is paired with one later renamed-new
event, whose row has the old name, or has a row of its own path; and no
renamed-new event is paired twice. -/
structure RenamesKept (batch : List WatchEvent) : Prop where
  kept : ∀ (i : Nat) (event : Wevent), (watchPaired batch)[i]? = some event →
    event.action = fileActionRenamedOldName →
    (∃! j : Nat, i < j ∧ ∃ new : Wevent, (watchPaired batch)[j]? = some new ∧
      new.action = fileActionRenamedNewName ∧
      new.source = some i ∧ ∃ change ∈ watchCoalesce batch, change.path = new.path ∧
        change.oldName batch = some event.path) ∨
    event.done = false ∧ ∃ change ∈ watchCoalesce batch, change.path = event.path
  once : ∀ i i' j, watchPairing (watchPairs batch i) i = some j →
    watchPairing (watchPairs batch i') i' = some j → i = i'
  followed : Followed batch → ∀ i, IsOld batch i → ∃ change ∈ watchCoalesce batch,
    change.oldName batch = pathAt batch i

/-- Where renames do not cross, a new name is claimed once; the loop itself
does not see to it, as it never marks a new name as done. -/
theorem RenamesApart.once {batch : List WatchEvent} (apart : RenamesApart batch) {i i' j : Nat}
    (claims : Claims batch i j) (claims' : Claims batch i' j) : i = i' := by
  rcases Nat.lt_trichotomy i i' with before | same | after
  · obtain ⟨m, later, inside, new⟩ := apart i i' j before claims'.2.1 claims.1 claims'.1 claims.2.2.1
    exact absurd new (claims.2.2.2 m later (Nat.lt_trans inside claims'.2.1))
  · exact same
  · obtain ⟨m, later, inside, new⟩ := apart i' i j after claims.2.1 claims'.1 claims.1 claims.2.2.1
    exact absurd new (claims'.2.2.2 m later (Nat.lt_trans inside claims.2.1))

/-- A renamed-old event with a renamed-new event after it is paired for
good. -/
theorem RenamesApart.paired {batch : List WatchEvent} (apart : RenamesApart batch) {i j : Nat} (old : IsOld batch i)
    (later : i < j) (new : IsNew batch j) :
    ∃ j' new', Claims batch i j' ∧ (watchPaired batch)[j']? = some new' ∧ new'.source = some i := by
  obtain ⟨j', claims, _⟩ := exists_claims old later new
  obtain ⟨_, here, _⟩ := claims.2.2.1
  obtain ⟨new', found, _, _⟩ := (pairedTo batch batch.length).at here
  have inside : i < batch.length := Nat.lt_trans claims.2.1 claims.2.2.1.lt_length
  refine ⟨j', new', claims, found, ((pairedTo batch batch.length).source j' new' i found).mpr ⟨inside, claims, ?_⟩⟩
  intro i' after _ claims'
  exact Nat.lt_irrefl i (apart.once claims claims' ▸ after)

theorem mem_watchCoalesce_path {batch : List WatchEvent} {event : Wevent}
    (member : event ∈ watchLive (watchPaired batch)) :
    watchChangeOf (watchPaired batch) event.path ∈ watchCoalesce batch := by
  rw [watchCoalesce, watchChanges_eq]
  exact List.mem_map_of_mem (List.mem_eraseDups.mpr (List.mem_map_of_mem member))

theorem observe_source {flags : WatchFlags} (event : Wevent) (known : flags.source ≠ none) :
    (flags.observe event).source ≠ none := by
  rw [WatchFlags.observe]
  split
  · exact known
  · split
    · exact known
    · split
      · cases event.source with
        | none => exact known
        | some i => exact Option.some_ne_none i
      · exact known

theorem observe_source_new {flags : WatchFlags} {event : Wevent} (new : event.action = fileActionRenamedNewName)
    (known : event.source ≠ none) : (flags.observe event).source ≠ none := by
  obtain ⟨i, source⟩ := Option.ne_none_iff_exists'.mp known
  rw [WatchFlags.observe, if_neg (by rw [new]; decide), if_neg (by rw [new]; decide), if_pos new,
    source, Option.some_or]
  exact Option.some_ne_none i

theorem foldl_observe_source {group : List Wevent} {flags : WatchFlags} (known : flags.source ≠ none) :
    (group.foldl WatchFlags.observe flags).source ≠ none := by
  induction group generalizing flags with
  | nil => exact known
  | cons event group ih => exact ih (observe_source event known)

theorem foldl_observe_source_new {group : List Wevent} {flags : WatchFlags} {event : Wevent}
    (member : event ∈ group)
    (new : event.action = fileActionRenamedNewName) (known : event.source ≠ none) :
    (group.foldl WatchFlags.observe flags).source ≠ none := by
  induction group generalizing flags with
  | nil => cases member
  | cons first group ih =>
    rcases List.mem_cons.mp member with rfl | later
    · rw [List.foldl_cons]
      exact foldl_observe_source (observe_source_new new known)
    · exact ih later

/-- The `from` of a row is one that a renamed-new event of its path has. -/
theorem foldl_observe_source_from {group : List Wevent} {flags : WatchFlags} {k : Nat}
    (found : (group.foldl WatchFlags.observe flags).source = some k) :
    flags.source = some k ∨ ∃ event ∈ group, event.action = fileActionRenamedNewName ∧ event.source = some k := by
  induction group generalizing flags with
  | nil => exact .inl found
  | cons event group ih =>
    rcases ih found with here | ⟨event', member, fits⟩
    · rw [WatchFlags.observe] at here
      split at here
      · exact .inl here
      · split at here
        · exact .inl here
        · split at here
          · next new =>
            cases known : event.source with
            | none =>
              rw [known, Option.none_or] at here
              exact .inl here
            | some i =>
              rw [known, Option.some_or] at here
              exact .inr ⟨event, List.mem_cons_self, new, known.trans here⟩
          · exact .inl here
    · exact .inr ⟨event', List.mem_cons_of_mem _ member, fits⟩

theorem pathAt_paired {batch : List WatchEvent} {j : Nat} {event : Wevent}
    (here : (watchPaired batch)[j]? = some event) :
    pathAt batch j = some event.path := by
  rw [pathAt, (pairedTo batch batch.length).event here]
  rfl

/-- There is one row for the path of a paired renamed-new event, and its
`from` is the old name of a renamed-old event that is paired with that path.
-/
theorem watchPaired_shown {batch : List WatchEvent} {j i : Nat} {new : Wevent}
    (here : (watchPaired batch)[j]? = some new) (source : new.source = some i) :
    ∃ change ∈ watchCoalesce batch, change.path = new.path ∧
      ∃ k m, Claims batch k m ∧ pathAt batch m = some new.path ∧ change.oldName batch = pathAt batch k := by
  have paired := pairedTo batch batch.length
  obtain ⟨_, claims, _⟩ := (paired.source j new i here).mp source
  obtain ⟨new', here', fresh, action⟩ := paired.isNew.mp claims.2.2.1
  cases Option.some.inj (here.symm.trans here')
  have live : new ∈ watchLive (watchPaired batch) := mem_watchLive.mpr ⟨List.mem_of_getElem? here, fresh⟩
  have known : (watchChangeOf (watchPaired batch) new.path).source ≠ none :=
    foldl_observe_source_new (mem_watchGroup.mpr ⟨live, rfl⟩) action (source ▸ Option.some_ne_none i)
  obtain ⟨k, found⟩ := Option.ne_none_iff_exists'.mp known
  refine ⟨_, mem_watchCoalesce_path live, rfl, ?_⟩
  rcases foldl_observe_source_from found with none' | ⟨event, member, -, source'⟩
  · cases none'
  · obtain ⟨live', path⟩ := mem_watchGroup.mp member
    obtain ⟨m, at'⟩ := List.mem_iff_getElem?.mp (mem_watchLive.mp live').1
    refine ⟨k, m, ((paired.source m event k at').mp source').2.1, path ▸ pathAt_paired at', ?_⟩
    rw [WatchChange.oldName, found]
    rfl

theorem watchCoalesce_path_inj {batch : List WatchEvent} {change change' : WatchChange}
    (member : change ∈ watchCoalesce batch)
    (member' : change' ∈ watchCoalesce batch) (same : change.path = change'.path) : change = change' := by
  rw [watchCoalesce, watchChanges_eq] at member member'
  obtain ⟨path, -, rfl⟩ := List.mem_map.mp member
  obtain ⟨path', -, rfl⟩ := List.mem_map.mp member'
  exact congrArg (watchChangeOf (watchPaired batch)) same

/-- A paired renamed-old event is in the row of the path it was renamed to.
-/
theorem RenamesKept.claimed {batch : List WatchEvent} (kept : RenamesKept batch) {i j : Nat}
    (claims : Claims batch i j) :
    ∃ new : Wevent, (watchPaired batch)[j]? = some new ∧
      ∃ change ∈ watchCoalesce batch, change.path = new.path ∧ change.oldName batch = pathAt batch i := by
  have paired := pairedTo batch batch.length
  obtain ⟨event, here, old⟩ := paired.isOld.mp claims.1
  have inside := Nat.lt_trans claims.2.1 claims.2.2.1.lt_length
  have consumed := (paired.done i event here).mpr ⟨inside, claims.1, j, claims.2.1, claims.2.2.1⟩
  rcases kept.kept i event here old with ⟨j', ⟨-, new, found, -, source, shown⟩, -⟩ | ⟨fresh, -⟩
  · cases ((paired.source j' new i found).mp source).2.1.unique claims
    exact ⟨new, found, pathAt_paired here ▸ shown⟩
  · rw [consumed] at fresh
    cases fresh

theorem RenamesKept.oneOldName {batch : List WatchEvent} (kept : RenamesKept batch) : OneOldName batch := by
  intro i i' j j' claims claims' same
  obtain ⟨new, found, change, member, path, name⟩ := kept.claimed claims
  obtain ⟨new', found', change', member', path', name'⟩ := kept.claimed claims'
  rw [pathAt_paired found, pathAt_paired found', Option.some.injEq] at same
  obtain rfl := watchCoalesce_path_inj member member' (path.trans (same.trans path'.symm))
  exact name.symm.trans name'

/-- Where no renamed-old event is lost, two of them have a renamed-new event
between them. -/
theorem RenamesKept.apart {batch : List WatchEvent} (kept : RenamesKept batch) : RenamesApart batch := by
  intro i i' j before later old old' new
  by_contra missing
  have none : ∀ m, i < m → m < i' → ¬ IsNew batch m := fun m after inside here => missing ⟨m, after, inside, here⟩
  obtain ⟨j', claims', _⟩ := exists_claims old' later new
  have claims : Claims batch i j' := by
    refine ⟨old, Nat.lt_trans before claims'.2.1, claims'.2.2.1, fun m after inside here => ?_⟩
    rcases Nat.lt_trichotomy m i' with earlier | rfl | past
    · exact none m after earlier here
    · obtain ⟨event, found, action⟩ := old'
      obtain ⟨event', found', action'⟩ := here
      cases Option.some.inj (found.symm.trans found')
      rw [action] at action'
      exact absurd action' (by decide)
    · exact claims'.2.2.2 m past inside here
  have same := kept.once i i' j' (watchPairing_eq_some.mpr claims) (watchPairing_eq_some.mpr claims')
  exact Nat.ne_of_lt before same

theorem OneOldName.shown {batch : List WatchEvent} (names : OneOldName batch) {i j : Nat} {new : Wevent}
    (claims : Claims batch i j) (found : (watchPaired batch)[j]? = some new) (source : new.source = some i) :
    ∃ change ∈ watchCoalesce batch, change.path = new.path ∧ change.oldName batch = pathAt batch i := by
  obtain ⟨change, member, path, k, m, claims', path', name⟩ := watchPaired_shown found source
  exact ⟨change, member, path, name.trans (names k i m j claims' claims (path'.trans (pathAt_paired found).symm))⟩

/-- No old name is lost just when no renamed-new event is the first one
after two renamed-old events, and no path is the new name of two different
old ones. -/
theorem watchCoalesce_keepsRenames (batch : List WatchEvent) :
    RenamesKept batch ↔ RenamesApart batch ∧ OneOldName batch := by
  have paired := pairedTo batch batch.length
  refine ⟨fun kept => ⟨kept.apart, kept.oneOldName⟩, fun ⟨apart, names⟩ => ?_⟩
  refine ⟨fun i event here old => ?_, fun i i' j pairs pairs' => ?_, fun ⟨own, follows, _⟩ i old => ?_⟩
  · by_cases later : ∃ j, i < j ∧ IsNew batch j
    · obtain ⟨j, after, new⟩ := later
      obtain ⟨j', new', claims, found, source⟩ := apart.paired (paired.isOld.mpr ⟨event, here, old⟩) after new
      obtain ⟨new'', found', _, action⟩ := paired.isNew.mp claims.2.2.1
      cases Option.some.inj (found.symm.trans found')
      have shown := pathAt_paired here ▸ names.shown claims found source
      refine .inl ⟨j', ⟨claims.2.1, new', found, action, source, shown⟩, ?_⟩
      intro m ⟨_, other, found'', _, source', _⟩
      exact ((paired.source m other i found'').mp source').2.1.unique claims
    · have fresh : event.done = false := Bool.eq_false_iff.mpr fun consumed => by
        obtain ⟨_, _, m, after, new⟩ := (paired.done i event here).mp consumed
        exact later ⟨m, after, new⟩
      exact .inr ⟨fresh, _, mem_watchCoalesce_path (mem_watchLive.mpr ⟨List.mem_of_getElem? here, fresh⟩), rfl⟩
  · exact apart.once (watchPairing_eq_some.mp pairs) (watchPairing_eq_some.mp pairs')
  · obtain ⟨later, new⟩ := follows i old
    obtain ⟨j', new', claims, found, source⟩ := apart.paired old later new
    obtain ⟨change, member, -, name⟩ := names.shown claims found source
    exact ⟨change, member, name⟩

/-- A file renamed to a name that another was renamed to before, and
removed. -/
def overwriteSample : List WatchEvent :=
  [⟨fileActionRenamedOldName, ascii "a"⟩, ⟨fileActionRenamedNewName, ascii "c"⟩, ⟨fileActionRemoved, ascii "c"⟩,
    ⟨fileActionRenamedOldName, ascii "b"⟩, ⟨fileActionRenamedNewName, ascii "c"⟩]

example : watchCoalesce overwriteSample = [⟨ascii "c", ascii "removed", some 3⟩] := by
  rw [watchCoalesce, watchChanges_eq]
  rfl

/-- Two files renamed, the old names reported before the new ones. -/
def renameSample : List WatchEvent :=
  [⟨fileActionRenamedOldName, ascii "a"⟩, ⟨fileActionRenamedOldName, ascii "b"⟩,
    ⟨fileActionRenamedNewName, ascii "c"⟩, ⟨fileActionRenamedNewName, ascii "d"⟩]

theorem watchCoalesce_losesOld : Followed renameSample ∧
    watchCoalesce renameSample = [⟨ascii "c", ascii "renamed", some 1⟩, ⟨ascii "d", ascii "renamed", none⟩] ∧
    ¬ RenamesKept renameSample := by
  refine ⟨⟨fun i => i + 2, ?_, fun i i' _ _ same => Nat.add_right_cancel same⟩, ?_, fun kept => ?_⟩
  · intro i ⟨event, here, old⟩
    refine ⟨Nat.lt_add_of_pos_right Nat.two_pos, ?_⟩
    match i with
    | 0 => exact ⟨_, rfl, rfl⟩
    | 1 => exact ⟨_, rfl, rfl⟩
    | 2 => cases here; cases old
    | 3 => cases here; cases old
    | i + 4 => cases here
  · have paired : watchPaired renameSample =
        [⟨fileActionRenamedOldName, ascii "a", none, true⟩, ⟨fileActionRenamedOldName, ascii "b", none, true⟩,
          ⟨fileActionRenamedNewName, ascii "c", some 1, false⟩,
            ⟨fileActionRenamedNewName, ascii "d", none, false⟩] := rfl
    rw [watchCoalesce, paired, watchChanges_eq]
    rfl
  · exact absurd (kept.once 0 1 2 rfl rfl) (by decide)

end Machteld
