import Mathlib.Data.List.Basic

namespace Machteld

section

variable {σ ε α β : Type}

/-- Whatever the state, a result meets the postcondition and a failure has
the cause. -/
def Meets (x : StateT σ (Except ε) α) (post : α → Prop) (cause : Prop) : Prop :=
  ∀ s, match x s with
    | .ok (a, _) => post a
    | .error _ => cause

theorem Meets.pure {post : α → Prop} {cause : Prop} {a : α} (result : post a) :
    Meets (pure a : StateT σ (Except ε) α) post cause := fun _ => result

theorem Meets.bind {x : StateT σ (Except ε) α} {f : α → StateT σ (Except ε) β} {mid : α → Prop} {post : β → Prop}
    {cause : Prop} (first : Meets x mid cause) (second : ∀ a, mid a → Meets (f a) post cause) :
    Meets (x >>= f) post cause := by
  intro s
  have here := first s
  cases ran : x s with
  | error e =>
    rw [ran] at here
    have stopped : (x >>= f) s = .error e := by
      change (x s).bind _ = _
      rw [ran]
      rfl
    rw [stopped]
    exact here
  | ok pair =>
    obtain ⟨a, t⟩ := pair
    rw [ran] at here
    have went : (x >>= f) s = f a t := by
      change (x s).bind _ = _
      rw [ran]
      rfl
    rw [went]
    exact second a here t

theorem Meets.mono {x : StateT σ (Except ε) α} {post post' : α → Prop} {cause cause' : Prop}
    (meets : Meets x post cause)
    (weaker : ∀ a, post a → post' a) (causes : cause → cause') : Meets x post' cause' := by
  intro s
  have here := meets s
  cases ran : x s with
  | error e =>
    rw [ran] at here
    exact causes here
  | ok pair =>
    rw [ran] at here
    exact weaker pair.1 here

end

end Machteld
