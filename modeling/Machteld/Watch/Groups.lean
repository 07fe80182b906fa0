import Machteld.Watch.Coalesce

namespace Machteld

/-- The events that no turn has consumed. -/
def watchLive (events : List Wevent) : List Wevent := events.filter fun event => !event.done

def watchGroup (events : List Wevent) (path : Bytes) : List Wevent :=
  (watchLive events).filter fun event => event.path == path

theorem mem_watchLive {events : List Wevent} {event : Wevent} :
    event ∈ watchLive events ↔ event ∈ events ∧ event.done = false := by
  rw [watchLive, List.mem_filter, Bool.not_eq_true']

theorem mem_watchGroup {events : List Wevent} {path : Bytes} {event : Wevent} :
    event ∈ watchGroup events path ↔ event ∈ watchLive events ∧ event.path = path := by
  rw [watchGroup, List.mem_filter, beq_iff_eq]

theorem watchLive_consumed {event : Wevent} {rest : List Wevent} (consumed : event.done = true) :
    watchLive (event :: rest) = watchLive rest := by
  simp only [watchLive, List.filter_cons, consumed, Bool.not_true, Bool.false_eq_true, if_false]

theorem watchLive_cons {event : Wevent} {rest : List Wevent} (live : event.done = false) :
    watchLive (event :: rest) = event :: watchLive rest := by
  simp only [watchLive, List.filter_cons, live, Bool.not_false, if_true]

theorem watchGroup_cons {event : Wevent} {rest : List Wevent} (live : event.done = false) :
    watchGroup (event :: rest) event.path = event :: watchGroup rest event.path := by
  simp only [watchGroup, watchLive_cons live, List.filter_cons, beq_self_eq_true, if_true]

theorem watchGroup_cons_other {event : Wevent} {rest : List Wevent} {path : Bytes} (other : event.path ≠ path) :
    watchGroup (event :: rest) path = watchGroup rest path := by
  cases consumed : event.done with
  | true => rw [watchGroup, watchLive_consumed consumed, watchGroup]
  | false =>
    simp only [watchGroup, watchLive_cons consumed, List.filter_cons, beq_eq_false_iff_ne.mpr other,
      Bool.false_eq_true,
      if_false]

/-- The inner loop observes the events of the path and leaves those of other
paths. -/
theorem watchGather_eq (path : Bytes) (flags : WatchFlags) (rest : List Wevent) :
    (watchGather path flags rest).1 = (watchGroup rest path).foldl WatchFlags.observe flags ∧
      watchLive (watchGather path flags rest).2 = (watchLive rest).filter fun event => !(event.path == path) := by
  induction rest generalizing flags with
  | nil => exact ⟨rfl, rfl⟩
  | cons event rest ih =>
    rw [watchGather]
    cases consumed : event.done with
    | true =>
      rw [if_pos (.inl rfl), watchGroup, watchLive_consumed consumed, ← watchGroup, watchLive_consumed consumed]
      exact ih flags
    | false =>
      by_cases same : event.path = path
      · subst same
        rw [if_neg (by simp), watchGroup_cons consumed, List.foldl_cons, watchLive_cons consumed,
          watchLive_consumed rfl]
        refine ⟨(ih (flags.observe event)).1, (ih (flags.observe event)).2.trans ?_⟩
        rw [List.filter_cons_of_neg (by simp)]
      · rw [if_pos (.inr same), watchGroup_cons_other same, watchLive_cons consumed, watchLive_cons consumed,
          List.filter_cons_of_pos (by simp [same])]
        exact ⟨(ih flags).1, congrArg _ (ih flags).2⟩

/-- The row of a path. -/
def watchChangeOf (events : List Wevent) (path : Bytes) : WatchChange :=
  let flags := (watchGroup events path).foldl WatchFlags.observe WatchFlags.clear
  ⟨path, watchAct flags (((watchGroup events path).head?.map Wevent.action).getD 0), flags.source⟩

theorem watchChangeOf_congr {events events' : List Wevent} {path : Bytes}
    (same : watchGroup events path = watchGroup events' path) :
    watchChangeOf events path = watchChangeOf events' path := by
  simp only [watchChangeOf, same]

/-- There is one row for each path with an event left, in order of first
appearance. -/
theorem watchChanges_eq (events : List Wevent) :
    watchChanges events = ((watchLive events).map Wevent.path).eraseDups.map (watchChangeOf events) := by
  induction events using watchChanges.induct with
  | case1 => simp [watchChanges, watchLive]
  | case2 event rest consumed ih =>
    rw [watchChanges, if_pos consumed, watchLive_consumed consumed, ih]
    refine List.map_congr_left fun path _ => watchChangeOf_congr ?_
    rw [watchGroup, watchGroup, watchLive_consumed consumed]
  | case3 event rest left ih =>
    have live : event.done = false := Bool.eq_false_iff.mpr left
    obtain ⟨gathered, kept⟩ := watchGather_eq event.path (WatchFlags.clear.observe event) rest
    rw [watchChanges, if_neg left, watchLive_cons live, List.map_cons, List.eraseDups_cons, List.map_cons]
    refine congrArg₂ _ ?_ ?_
    · simp only [watchChangeOf, watchGroup_cons live, gathered, List.foldl_cons, List.head?_cons, Option.map_some,
        Option.getD_some]
    · rw [ih, kept, List.filter_map]
      refine List.map_congr_left fun path member => watchChangeOf_congr ?_
      have other : path ≠ event.path := by
        obtain ⟨_, inside, rfl⟩ := List.mem_map.mp (List.mem_eraseDups.mp member)
        simpa using (List.mem_filter.mp inside).2
      rw [watchGroup_cons_other (Ne.symm other), watchGroup, kept, List.filter_filter, watchGroup]
      refine List.filter_congr fun event' _ => ?_
      by_cases same : event'.path = path
      · simp [same, other]
      · simp [same]

end Machteld
