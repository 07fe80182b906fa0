import Mathlib.Data.List.Basic

namespace Machteld

section

variable {σ ε α : Type}

/-- A run of a machine, with the answers of its steps. -/
def runSteps (step : σ → ε → Option (σ × List α)) (s : σ) : List ε → Option (σ × List α)
  | [] => some (s, [])
  | e :: events =>
    (step s e).bind fun (s, here) => (runSteps step s events).map fun (s, later) => (s, here ++ later)

/-- Every step of a run meets a condition on the state before it. -/
def RunMeets (step : σ → ε → Option (σ × List α)) (meets : σ → ε → Prop) (s : σ) : List ε → Prop
  | [] => True
  | e :: events => meets s e ∧ ∀ s' here, step s e = some (s', here) → RunMeets step meets s' events

variable {step : σ → ε → Option (σ × List α)}

theorem runSteps_nil {s s' : σ} {answers : List α} (run : runSteps step s [] = some (s', answers)) :
    s = s' ∧ answers = [] := by
  obtain ⟨rfl, rfl⟩ := Prod.mk.inj (Option.some.inj run)
  exact ⟨rfl, rfl⟩

theorem runSteps_step {s t s' : σ} {e : ε} {events : List ε} {here later : List α}
    (first : step s e = some (t, here))
    (rest : runSteps step t events = some (s', later)) :
    runSteps step s (e :: events) = some (s', here ++ later) := by
  simp only [runSteps, first, Option.bind_some, rest, Option.map_some]

theorem runSteps_cons {s s' : σ} {e : ε} {events : List ε} {answers : List α}
    (run : runSteps step s (e :: events) = some (s', answers)) :
    ∃ t here later, step s e = some (t, here) ∧ runSteps step t events = some (s', later) ∧
      answers = here ++ later := by
  obtain ⟨⟨t, here⟩, first, rest⟩ := Option.bind_eq_some_iff.mp run
  obtain ⟨⟨u, later⟩, ran, same⟩ := Option.map_eq_some_iff.mp rest
  obtain ⟨rfl, rfl⟩ := Prod.mk.inj same
  exact ⟨t, here, later, first, ran, rfl⟩

theorem runSteps_single {s s' : σ} {e : ε} {answers : List α} (first : step s e = some (s', answers)) :
    runSteps step s [e] = some (s', answers) := by
  have run := runSteps_step first (show runSteps step s' [] = some (s', []) from rfl)
  rwa [List.append_nil] at run

theorem runSteps_append {s t s' : σ} {a b : List ε} {here later : List α}
    (first : runSteps step s a = some (t, here))
    (second : runSteps step t b = some (s', later)) : runSteps step s (a ++ b) = some (s', here ++ later) := by
  induction a generalizing s here with
  | nil =>
    obtain ⟨rfl, rfl⟩ := runSteps_nil first
    exact second
  | cons e a ih =>
    obtain ⟨u, now, next, stepped, rest, rfl⟩ := runSteps_cons first
    rw [List.append_assoc]
    exact runSteps_step stepped (ih rest)

theorem runSteps_invariant {I : σ → Prop} (preserved : ∀ s e s' here, I s → step s e = some (s', here) → I s')
    {s s' : σ} {events : List ε} {answers : List α} (start : I s)
    (run : runSteps step s events = some (s', answers)) :
    I s' := by
  induction events generalizing s answers with
  | nil =>
    obtain ⟨rfl, -⟩ := runSteps_nil run
    exact start
  | cons e events ih =>
    obtain ⟨t, here, later, first, rest, -⟩ := runSteps_cons run
    exact ih (preserved s e t here start first) rest

/-- What holds behind a run held before it or was brought about by a step.
-/
theorem runSteps_cause {I P : σ → Prop} {cause : ε → Prop}
    (preserved : ∀ s e s' here, I s → step s e = some (s', here) → I s')
    (caused : ∀ s e s' here, I s → step s e = some (s', here) → P s' → P s ∨ cause e) {s s' : σ} {events : List ε}
    {answers : List α} (start : I s) (run : runSteps step s events = some (s', answers)) (holds : P s') :
    P s ∨ ∃ e ∈ events, cause e := by
  induction events generalizing s answers with
  | nil =>
    obtain ⟨rfl, -⟩ := runSteps_nil run
    exact Or.inl holds
  | cons e events ih =>
    obtain ⟨t, here, later, first, rest, -⟩ := runSteps_cons run
    rcases ih (preserved s e t here start first) rest with earlier | ⟨e', member, why⟩
    · rcases caused s e t here start first earlier with before | why
      · exact Or.inl before
      · exact Or.inr ⟨e, List.mem_cons_self .., why⟩
    · exact Or.inr ⟨e', List.mem_cons_of_mem _ member, why⟩

/-- Where an invariant holds and every step meets its condition, every
answer is as the invariant says. -/
theorem runSteps_answers {meets : σ → ε → Prop} {I : σ → Prop} {good : α → Prop}
    (preserved : ∀ s e s' here, I s → meets s e → step s e = some (s', here) → I s' ∧ ∀ a ∈ here, good a)
    {s s' : σ} {events : List ε} {answers : List α} (start : I s) (met : RunMeets step meets s events)
    (run : runSteps step s events = some (s', answers)) : I s' ∧ ∀ a ∈ answers, good a := by
  induction events generalizing s answers with
  | nil =>
    obtain ⟨rfl, rfl⟩ := runSteps_nil run
    exact ⟨start, List.forall_mem_nil _⟩
  | cons e events ih =>
    obtain ⟨t, here, later, first, rest, rfl⟩ := runSteps_cons run
    obtain ⟨next, now⟩ := preserved s e t here start met.1 first
    obtain ⟨last, after⟩ := ih next (met.2 t here first) rest
    exact ⟨last, List.forall_mem_append.mpr ⟨now, after⟩⟩

/-- A run of a machine whose steps may end in several ways. -/
def RunAllows (allows : σ → ε → σ → Prop) (s : σ) : List ε → σ → Prop
  | [], s' => s' = s
  | e :: events, s' => ∃ t, allows s e t ∧ RunAllows allows t events s'

namespace RunAllows

variable {allows : σ → ε → σ → Prop} {s s' : σ} {a b : List ε} {e : ε}

theorem append (run : RunAllows allows s (a ++ b) s') : ∃ t, RunAllows allows s a t ∧ RunAllows allows t b s' := by
  induction a generalizing s with
  | nil => exact ⟨s, rfl, run⟩
  | cons e a ih =>
    obtain ⟨t, first, rest⟩ := run
    obtain ⟨u, middle, last⟩ := ih rest
    exact ⟨u, ⟨t, first, middle⟩, last⟩

theorem mem (run : RunAllows allows s a s') (member : e ∈ a) : ∃ t t', allows t e t' := by
  obtain ⟨before, after, rfl⟩ := List.append_of_mem member
  obtain ⟨t, -, t', here, -⟩ := run.append
  exact ⟨t, t', here⟩

/-- What every step keeps, a run keeps. -/
theorem keeps {K : σ → Prop} (run : RunAllows allows s a s')
    (step : ∀ e ∈ a, ∀ t t', allows t e t' → K t → K t') (now : K s) :
    K s' := by
  induction a generalizing s with
  | nil =>
    obtain rfl : s' = s := run
    exact now
  | cons e a ih =>
    obtain ⟨t, first, rest⟩ := run
    exact ih rest (fun e' member => step e' (List.mem_cons_of_mem _ member))
      (step e List.mem_cons_self _ _ first now)

end RunAllows

end

end Machteld
