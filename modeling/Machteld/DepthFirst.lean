import Mathlib.Data.List.Nodup
import Mathlib.Logic.Relation

namespace Machteld

universe u

/-- A forest in depth-first pre-order. -/
inductive DepthFirst {α : Type u} (kids : α → List α) : List α → List α → Prop
  | nil : DepthFirst kids [] []
  | cons {a : α} {roots below later : List α} (inside : DepthFirst kids (kids a) below)
    (beside : DepthFirst kids roots later) : DepthFirst kids (a :: roots) (a :: (below ++ later))

namespace DepthFirst

variable {α : Type u} {kids : α → List α} {roots order : List α}

theorem exists_of_finite (finite : ∀ a ∈ roots, Acc (fun b a => b ∈ kids a) a) :
    ∃ order, DepthFirst kids roots order := by
  have single : ∀ a, Acc (fun b a => b ∈ kids a) a → ∃ below, DepthFirst kids (kids a) below := by
    intro a accessible
    induction accessible with
    | intro a _ ih =>
      have forest : ∀ bs, (∀ b ∈ bs, ∃ below, DepthFirst kids (kids b) below) →
        ∃ below, DepthFirst kids bs below := by
        intro bs each
        induction bs with
        | nil => exact ⟨[], .nil⟩
        | cons b bs more =>
          obtain ⟨first, rest⟩ := List.forall_mem_cons.mp each
          obtain ⟨below, inside⟩ := first
          obtain ⟨later, beside⟩ := more rest
          exact ⟨_, .cons inside beside⟩
      exact forest (kids a) fun b member => ih b member
  induction roots with
  | nil => exact ⟨[], .nil⟩
  | cons a roots ih =>
    obtain ⟨first, rest⟩ := List.forall_mem_cons.mp finite
    obtain ⟨below, inside⟩ := single a first
    obtain ⟨later, beside⟩ := ih rest
    exact ⟨_, .cons inside beside⟩

theorem mem_iff (walk : DepthFirst kids roots order) {x : α} :
    x ∈ order ↔ ∃ a ∈ roots, Relation.ReflTransGen (fun a b => b ∈ kids a) a x := by
  induction walk with
  | nil => simp only [List.not_mem_nil, false_and, exists_false]
  | @cons a roots below later _ _ inside beside =>
    rw [List.mem_cons, List.mem_append, inside, beside]
    constructor
    · rintro (rfl | ⟨b, kid, reach⟩ | ⟨b, member, reach⟩)
      · exact ⟨x, List.mem_cons_self, .refl⟩
      · exact ⟨a, List.mem_cons_self, .head kid reach⟩
      · exact ⟨b, List.mem_cons_of_mem _ member, reach⟩
    · rintro ⟨b, member, reach⟩
      rcases List.mem_cons.mp member with rfl | other
      · rcases reach.cases_head with rfl | ⟨c, kid, rest⟩
        · exact .inl rfl
        · exact .inr (.inl ⟨c, kid, rest⟩)
      · exact .inr (.inr ⟨b, other, reach⟩)

/-- Everything is a root or a kid, once for each. -/
theorem perm (walk : DepthFirst kids roots order) : order.Perm (roots ++ order.flatMap kids) := by
  induction walk with
  | nil => exact .nil
  | @cons a roots below later _ _ inside beside =>
    rw [List.flatMap_cons, List.flatMap_append, List.cons_append]
    refine .cons a ((inside.append beside).trans ?_)
    rw [← List.append_assoc (kids a)]
    exact List.perm_append_comm_assoc _ _ _

/-- Whatever holds of the roots and is handed on to the kids holds of all.
-/
theorem all (walk : DepthFirst kids roots order) {holds : α → Prop} (start : ∀ a ∈ roots, holds a)
    (handed : ∀ a, holds a → ∀ b ∈ kids a, holds b) : ∀ x ∈ order, holds x := by
  intro x member
  obtain ⟨a, isRoot, reach⟩ := walk.mem_iff.mp member
  induction reach with
  | refl => exact start a isRoot
  | @tail b c before kid ih => exact handed b (ih (walk.mem_iff.mpr ⟨a, isRoot, before⟩)) c kid

section

variable {κ : Type u} {key : α → List κ} {holds : α → Prop} (handed : ∀ a, holds a → ∀ b ∈ kids a, holds b)
  (longer : ∀ a, holds a → ∀ b ∈ kids a, ∃ n, key b = key a ++ [n])

include handed longer

/-- Where a kid is named behind its parent, so is all that is below a root.
-/
theorem keys_below (walk : DepthFirst kids roots order) (start : ∀ a ∈ roots, holds a) {x : α}
    (member : x ∈ order) :
    ∃ a ∈ roots, key a <+: key x := by
  obtain ⟨a, isRoot, reach⟩ := walk.mem_iff.mp member
  refine ⟨a, isRoot, ?_⟩
  have both : holds x ∧ key a <+: key x := by
    clear member
    induction reach with
    | refl => exact ⟨start a isRoot, List.prefix_rfl⟩
    | @tail b c _ kid ih =>
      obtain ⟨n, same⟩ := longer b ih.1 c kid
      exact ⟨handed b ih.1 c kid, ih.2.trans (same ▸ List.prefix_append _ _)⟩
  exact both.2

/-- Where siblings have names of their own, everything has. -/
theorem keys_nodup (siblings : ∀ a, holds a → ((kids a).map key).Nodup) (walk : DepthFirst kids roots order)
    (start : ∀ a ∈ roots, holds a) {depth : Nat} (level : ∀ a ∈ roots, (key a).length = depth)
    (apart : (roots.map key).Nodup) : (order.map key).Nodup := by
  induction walk generalizing depth with
  | nil => exact List.nodup_nil
  | @cons a roots below later inside beside ihInside ihBeside =>
    obtain ⟨first, rest⟩ := List.forall_mem_cons.mp start
    obtain ⟨here, level⟩ := List.forall_mem_cons.mp level
    obtain ⟨alone, apart⟩ := List.nodup_cons.mp apart
    have next : ∀ b ∈ kids a, (key b).length = depth + 1 := by
      intro b kid
      obtain ⟨n, same⟩ := longer a first b kid
      rw [same, List.length_append, here, List.length_singleton]
    have under : ∀ x ∈ below, key a <+: key x ∧ depth < (key x).length := by
      intro x member
      obtain ⟨b, kid, before⟩ := inside.keys_below handed longer (handed a first) member
      obtain ⟨n, same⟩ := longer a first b kid
      have long := before.length_le
      rw [next b kid] at long
      exact ⟨(same ▸ List.prefix_append _ _ : key a <+: key b).trans before, by omega⟩
    have aside : ∀ x ∈ later, ¬ key a <+: key x := by
      intro x member mine
      obtain ⟨b, isRoot, before⟩ := beside.keys_below handed longer rest member
      have length : (key a).length = (key b).length := here.trans (level b isRoot).symm
      have same := List.prefix_of_prefix_length_le mine before (Nat.le_of_eq length)
      exact alone (List.mem_map.mpr ⟨b, isRoot, (same.eq_of_length length).symm⟩)
    rw [List.map_cons, List.map_append, List.nodup_cons, List.nodup_append]
    refine ⟨?_, ihInside (handed a first) next (siblings a first), ihBeside rest level apart, ?_⟩
    · rw [List.mem_append, List.mem_map, List.mem_map]
      rintro (⟨x, member, same⟩ | ⟨x, member, same⟩)
      · have deeper := (under x member).2
        rw [same, here] at deeper
        omega
      · exact aside x member (same ▸ List.prefix_rfl)
    · intro k inBelow k' inLater same
      obtain ⟨x, member, rfl⟩ := List.mem_map.mp inBelow
      obtain ⟨y, member', rfl⟩ := List.mem_map.mp inLater
      exact aside y member' (same ▸ (under x member).1)

end

end DepthFirst

end Machteld
