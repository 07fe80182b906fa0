import Machteld.Env.Block
import Machteld.Outcome

namespace Machteld

/-- `CompareStringOrdinal`, ignoring case, is a total preorder that may
report a failure. -/
structure OrdinalNames (host : EnvHost) (le : List UInt16 → List UInt16 → Bool) : Prop where
  total : ∀ a b, le a b = true ∨ le b a = true
  trans : ∀ a b c, le a b = true → le b c = true → le a c = true
  equal : ∀ n a b, host.compare n a b ≠ 0 → (host.compare n a b = cstrEqual ↔ le a b = true ∧ le b a = true)
  greater : ∀ n a b, host.compare n a b ≠ 0 → (host.compare n a b = cstrGreaterThan ↔ le a b = false)

def sameName (le : List UInt16 → List UInt16 → Bool) (a b : List UInt16) : Bool := le a b && le b a

/-- A comparison of two of the names may report a failure. -/
def Incomparable (host : EnvHost) (names : List (List UInt16)) : Prop :=
  (∃ name ∈ names, cIntMax < name.length) ∨ ∃ n, ∃ a ∈ names, ∃ b ∈ names, host.compare n a b = 0

theorem Incomparable.mono {host : EnvHost} {names names' : List (List UInt16)} (inside : names ⊆ names') :
    Incomparable host names → Incomparable host names'
  | .inl ⟨name, member, long⟩ => .inl ⟨name, inside member, long⟩
  | .inr ⟨n, a, inA, b, inB, failed⟩ => .inr ⟨n, a, inside inA, b, inside inB, failed⟩

section

variable {host : EnvHost} {le : List UInt16 → List UInt16 → Bool} {cap : Nat}

theorem envFail_meets {α : Type} {post : α → Prop} {cause : Prop} {message : String} (holds : cause) :
    Meets (envFail message : EnvM α) post cause := fun _ => holds

theorem envNameCompare_meets (ordinal : OrdinalNames host le) (a b : List UInt16) :
    Meets (envNameCompare host a b) (fun comparison =>
      (comparison = 0 → Incomparable host [a, b]) ∧
      (comparison ≠ 0 → (comparison = cstrEqual ↔ sameName le a b = true) ∧
        (comparison = cstrGreaterThan ↔ le a b = false))) False := by
  intro n
  rw [envNameCompare]
  by_cases long : cIntMax < a.length ∨ cIntMax < b.length
  · rw [if_pos long]
    refine ⟨fun _ => ?_, fun other => absurd rfl other⟩
    rcases long with first | second
    · exact .inl ⟨a, List.mem_cons_self, first⟩
    · exact .inl ⟨b, List.mem_cons_of_mem _ List.mem_cons_self, second⟩
  · rw [if_neg long]
    refine ⟨fun failed => .inr ⟨n, a, List.mem_cons_self, b, List.mem_cons_of_mem _ List.mem_cons_self, failed⟩,
      fun answered => ⟨?_, ordinal.greater n a b answered⟩⟩
    rw [sameName, Bool.and_eq_true]
    exact ordinal.equal n a b answered

theorem envUnlike_meets (ordinal : OrdinalNames host le) (key : List UInt16) (earlier : List (List UInt16)) :
    Meets (envUnlike host key earlier) (fun _ => ∀ e ∈ earlier, sameName le e key = false)
      ((∃ e ∈ earlier, sameName le e key = true) ∨ Incomparable host (key :: earlier)) := by
  induction earlier with
  | nil => exact .pure (List.forall_mem_nil _)
  | cons e rest ih =>
    rw [envUnlike]
    refine ((envNameCompare_meets ordinal e key).mono (fun _ => id) False.elim).bind fun comparison answer => ?_
    by_cases failed : comparison = 0
    · rw [if_pos failed]
      refine envFail_meets (.inr ((answer.1 failed).mono ?_))
      exact List.cons_subset.mpr ⟨List.mem_cons_of_mem _ List.mem_cons_self,
        List.cons_subset.mpr ⟨List.mem_cons_self, List.nil_subset _⟩⟩
    obtain ⟨equal, _⟩ := answer.2 failed
    rw [if_neg failed]
    by_cases alike : comparison = cstrEqual
    · rw [if_pos alike]
      exact envFail_meets (.inl ⟨e, List.mem_cons_self, equal.mp alike⟩)
    · rw [if_neg alike]
      refine ih.mono (fun _ others => List.forall_mem_cons.mpr ⟨?_, others⟩) ?_
      · exact Bool.eq_false_iff.mpr fun same => alike (equal.mpr same)
      · rintro (⟨e', member, same⟩ | fails)
        · exact .inl ⟨e', List.mem_cons_of_mem _ member, same⟩
        · exact .inr (fails.mono (List.cons_subset_cons _ (List.subset_cons_self _ _)))

theorem envOverridden_meets (ordinal : OrdinalNames host le) (name : List UInt16) (keys : List (List UInt16)) :
    Meets (envOverridden host name keys) (fun overridden => overridden = keys.any fun key => sameName le name key)
      (Incomparable host (name :: keys)) := by
  induction keys with
  | nil => exact .pure rfl
  | cons key rest ih =>
    rw [envOverridden]
    refine ((envNameCompare_meets ordinal name key).mono (fun _ => id) False.elim).bind fun comparison answer => ?_
    by_cases failed : comparison = 0
    · rw [if_pos failed]
      refine envFail_meets ((answer.1 failed).mono ?_)
      exact List.cons_subset_cons _ (List.cons_subset.mpr ⟨List.mem_cons_self, List.nil_subset _⟩)
    obtain ⟨equal, _⟩ := answer.2 failed
    rw [if_neg failed]
    by_cases alike : comparison = cstrEqual
    · rw [if_pos alike]
      exact .pure (by rw [List.any_cons, equal.mp alike, Bool.true_or])
    · rw [if_neg alike]
      have other : sameName le name key = false := Bool.eq_false_iff.mpr fun same => alike (equal.mpr same)
      refine ih.mono (fun overridden found => ?_)
        (Incomparable.mono (List.cons_subset_cons _ (List.subset_cons_self _ _)))
      rw [List.any_cons, other, Bool.false_or, found]

/-- The inherited entries that no override names. -/
def envKept (le : List UInt16 → List UInt16 → Bool) (keys inherited : List (List UInt16)) : List (List UInt16) :=
  inherited.filter fun entry => !keys.any fun key => sameName le (envName entry) key

def envItem (entry : List UInt16) : EnvItem := ⟨entry, envNameLen entry⟩

theorem envInherited_meets (ordinal : OrdinalNames host le) (keys inherited : List (List UInt16)) :
    Meets (envInherited host keys inherited) (fun items => items = (envKept le keys inherited).map envItem)
      (Incomparable host (keys ++ inherited.map envName)) := by
  induction inherited with
  | nil => exact .pure rfl
  | cons entry rest ih =>
    rw [envInherited]
    refine (((envOverridden_meets ordinal (envName entry) keys).mono (fun _ => id) (Incomparable.mono ?_))).bind
      fun overridden found => ((ih.mono (fun _ => id) (Incomparable.mono ?_))).bind fun items kept => .pure ?_
    · exact List.cons_subset.mpr ⟨List.mem_append_right _ List.mem_cons_self, List.subset_append_left _ _⟩
    · exact List.append_subset.mpr ⟨List.subset_append_left _ _,
        List.Subset.trans (List.subset_cons_self _ _) (List.subset_append_right _ _)⟩
    · rw [found, kept, envKept, envKept, List.filter_cons]
      cases keys.any fun key => sameName le (envName entry) key with
      | true => rfl
      | false => rfl

def EnvItem.name (item : EnvItem) : List UInt16 := item.text.take item.nameLen

/-- Where the inner loop of the sort puts an item, in the items last one
first. -/
theorem envInsert_meets (ordinal : OrdinalNames host le) (item : EnvItem) (before : List EnvItem) :
    Meets (envInsert host item before) (fun inserted => ∃ above below, before = above ++ below ∧
        inserted = above ++ item :: below ∧ (∀ x ∈ above, le x.name item.name = false) ∧
        ∀ x ∈ below.head?, le x.name item.name = true)
      (Incomparable host (item.name :: before.map EnvItem.name)) := by
  induction before with
  | nil =>
    refine .pure ⟨[], [], rfl, rfl, List.forall_mem_nil _, ?_⟩
    intro x head
    cases head
  | cons x rest ih =>
    rw [envInsert]
    refine ((envNameCompare_meets ordinal x.name item.name).mono (fun _ => id) False.elim).bind
      fun comparison answer => ?_
    by_cases failed : comparison = 0
    · rw [if_pos failed]
      refine envFail_meets ((answer.1 failed).mono ?_)
      exact List.cons_subset.mpr ⟨List.mem_cons_of_mem _ List.mem_cons_self,
        List.cons_subset.mpr ⟨List.mem_cons_self, List.nil_subset _⟩⟩
    obtain ⟨_, greater⟩ := answer.2 failed
    rw [if_neg failed]
    by_cases above : comparison = cstrGreaterThan
    · rw [if_neg (not_not.mpr above)]
      refine (ih.mono (fun _ => id) (Incomparable.mono ?_)).bind fun inserted place => .pure ?_
      · exact List.cons_subset_cons _ (List.subset_cons_self _ _)
      · obtain ⟨high, low, rfl, rfl, highs, lows⟩ := place
        exact ⟨x :: high, low, rfl, rfl, List.forall_mem_cons.mpr ⟨greater.mp above, highs⟩, lows⟩
    · rw [if_pos above]
      refine .pure ⟨[], x :: rest, rfl, rfl, List.forall_mem_nil _, ?_⟩
      intro y head
      cases head
      exact eq_true_of_ne_false fun less => above (greater.mpr less)

/-- The items are in order of their names, and those of one name in the
order they had. -/
structure StablySorted (le : List UInt16 → List UInt16 → Bool) (items sorted : List EnvItem) : Prop where
  perm : sorted.Perm items
  ordered : sorted.Pairwise fun x y => le x.name y.name = true
  stable : ∀ name, sorted.filter (fun x => sameName le name x.name) = items.filter fun x => sameName le name x.name

theorem filter_move {α : Type} {p : α → Bool} {x : α} {l : List α} (apart : p x = true → ∀ y ∈ l, p y = false) :
    (x :: l).filter p = (l ++ [x]).filter p := by
  rw [List.filter_append, List.filter_cons]
  cases holds : p x with
  | false => simp [holds]
  | true =>
    have none : l.filter p = [] := List.filter_eq_nil_iff.mpr fun y member =>
      Bool.eq_false_iff.mp (apart holds y member)
    simp [holds, none]

theorem StablySorted.insert (ordinal : OrdinalNames host le) {items above below : List EnvItem} {item : EnvItem}
    (sorted : StablySorted le items (above ++ below).reverse) (highs : ∀ x ∈ above, le x.name item.name = false)
    (lows : ∀ x ∈ below.head?, le x.name item.name = true) :
    StablySorted le (items ++ [item]) (above ++ item :: below).reverse := by
  have shape : (above ++ item :: below).reverse = below.reverse ++ item :: above.reverse := by simp
  have shape' : (above ++ below).reverse = below.reverse ++ above.reverse := by simp
  rw [shape'] at sorted
  rw [shape]
  have moved : (below.reverse ++ item :: above.reverse).Perm (below.reverse ++ above.reverse ++ [item]) := by
    rw [List.append_assoc]
    exact List.Perm.append_left _ (List.perm_append_singleton item above.reverse).symm
  refine ⟨moved.trans (sorted.perm.append_right [item]), ?_, fun name => ?_⟩
  · obtain ⟨lower, upper, across⟩ := List.pairwise_append.mp sorted.ordered
    have under : ∀ x ∈ below, le x.name item.name = true := by
      intro x inside
      cases below with
      | nil => cases inside
      | cons first rest =>
        have top := lows first rfl
        rcases List.mem_cons.mp inside with rfl | later
        · exact top
        · rw [List.reverse_cons] at lower
          have step := (List.pairwise_append.mp lower).2.2 x (List.mem_reverse.mpr later) first List.mem_cons_self
          exact ordinal.trans _ _ _ step top
    have beyond : ∀ x ∈ above, le item.name x.name = true := fun x inside =>
      (ordinal.total item.name x.name).resolve_right (Bool.eq_false_iff.mp (highs x inside))
    refine List.pairwise_append.mpr ⟨lower, List.pairwise_cons.mpr ⟨fun x inside => ?_, upper⟩, ?_⟩
    · exact beyond x (List.mem_reverse.mp inside)
    · intro x inside y inside'
      rcases List.mem_cons.mp inside' with rfl | high
      · exact under x (List.mem_reverse.mp inside)
      · exact across x inside y high
  · have apart : sameName le name item.name = true → ∀ x ∈ above.reverse, sameName le name x.name = false := by
      intro same x inside
      refine Bool.eq_false_iff.mpr fun same' => ?_
      rw [sameName, Bool.and_eq_true] at same same'
      have below := ordinal.trans _ _ _ same'.2 same.1
      rw [highs x (List.mem_reverse.mp inside)] at below
      cases below
    rw [List.filter_append, filter_move apart, ← List.filter_append, ← List.append_assoc, List.filter_append,
      sorted.stable, ← List.filter_append]

theorem envSort_meets (ordinal : OrdinalNames host le) (items before rest : List EnvItem)
    (sorted : StablySorted le items before.reverse) :
    Meets (envSort host before rest) (StablySorted le (items ++ rest))
      (Incomparable host ((items ++ rest).map EnvItem.name)) := by
  induction rest generalizing items before with
  | nil =>
    rw [List.append_nil]
    exact .pure sorted
  | cons item rest ih =>
    rw [envSort]
    refine ((envInsert_meets ordinal item before).mono (fun _ => id) (Incomparable.mono ?_)).bind
      fun inserted place => ?_
    · refine List.cons_subset.mpr ⟨List.mem_map_of_mem (List.mem_append_right _ List.mem_cons_self), ?_⟩
      intro name inside
      obtain ⟨x, member, rfl⟩ := List.mem_map.mp inside
      have original := sorted.perm.subset (List.mem_reverse.mpr member)
      exact List.mem_map_of_mem (List.mem_append_left _ original)
    · obtain ⟨above, below, rfl, rfl, highs, lows⟩ := place
      have step := ih (items ++ [item]) _ (sorted.insert ordinal highs lows)
      rwa [List.append_assoc] at step

end

end Machteld
