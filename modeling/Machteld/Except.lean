import Mathlib.Tactic.Common

namespace Machteld

theorem Except.bind_ok {ε α β : Type} {x : Except ε α} {f : α → Except ε β} {b : β} :
    x.bind f = .ok b ↔ ∃ a, x = .ok a ∧ f a = .ok b := by
  cases x with
  | error e => exact ⟨nofun, fun ⟨_, bad, _⟩ => nomatch bad⟩
  | ok a => exact ⟨fun same => ⟨a, rfl, same⟩, fun ⟨_, same, rest⟩ => by cases same; exact rest⟩

theorem Except.map_ok {ε α β : Type} {x : Except ε α} {f : α → β} {b : β} :
    x.map f = .ok b ↔ ∃ a, x = .ok a ∧ f a = b := by
  cases x with
  | error e => exact ⟨nofun, fun ⟨_, bad, _⟩ => nomatch bad⟩
  | ok a =>
    constructor
    · intro same
      exact ⟨a, rfl, by simpa [Except.map] using same⟩
    · rintro ⟨_, same, rfl⟩
      cases same
      rfl

theorem Except.bind_error {ε α β : Type} {x : Except ε α} {f : α → Except ε β} {e : ε}
    (failed : x.bind f = .error e) :
    x = .error e ∨ ∃ a, x = .ok a ∧ f a = .error e := by
  cases x with
  | error e' => exact Or.inl (congrArg Except.error (Except.error.inj failed))
  | ok a => exact Or.inr ⟨a, rfl, failed⟩

theorem Except.map_error {ε α β : Type} {x : Except ε α} {f : α → β} {e : ε} (failed : x.map f = .error e) :
    x = .error e := by
  cases x with
  | error e' =>
    obtain rfl : e' = e := Except.error.inj failed
    rfl
  | ok a => cases failed

theorem Except.error_ne_ok {ε α : Type} {e : ε} {a : α} : (Except.error e : Except ε α) ≠ .ok a := by
  intro same
  cases same

theorem Except.not_ok {ε α : Type} {x : Except ε α} (fails : ¬ ∃ a, x = .ok a) : ∃ e, x = .error e := by
  cases x with
  | error e => exact ⟨e, rfl⟩
  | ok a => exact absurd ⟨a, rfl⟩ fails

end Machteld
