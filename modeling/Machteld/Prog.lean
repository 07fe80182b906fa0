import Mathlib.Logic.Relation

namespace Machteld

universe u

/-- A program that makes calls and goes on with their answers. -/
inductive Prog (Call : Type) (Answer : Call → Type) : Type → Type 1
  | done {α : Type} (a : α) : Prog Call Answer α
  | call {α : Type} (c : Call) (next : Answer c → Prog Call Answer α) : Prog Call Answer α
  | loop {α σ β : Type} (body : σ → Prog Call Answer (σ ⊕ β)) (s : σ) (next : β → Prog Call Answer α) :
    Prog Call Answer α

namespace Prog

variable {Call : Type} {Answer : Call → Type}

def bind {α β : Type} : Prog Call Answer α → (α → Prog Call Answer β) → Prog Call Answer β
  | done a, f => f a
  | call c next, f => call c fun a => (next a).bind f
  | loop body s next, f => loop body s fun b => (next b).bind f

instance : Monad (Prog Call Answer) where
  pure := done
  bind := bind

/-- One call, with its answer as the result. -/
def ask (c : Call) : Prog Call Answer (Answer c) := call c done

/-- The body again and again, until it has a result. -/
def iterate {σ β : Type} (body : σ → Prog Call Answer (σ ⊕ β)) (s : σ) : Prog Call Answer β := loop body s done

/-- What a loop does behind one turn of its body. -/
def again {α σ β : Type} (body : σ → Prog Call Answer (σ ⊕ β)) (next : β → Prog Call Answer α) :
    σ ⊕ β → Prog Call Answer α
  | .inl s => loop body s next
  | .inr b => next b

/-- Every call that a program may make is of some kind. -/
def Only (kind : Call → Prop) : {α : Type} → Prog Call Answer α → Prop
  | _, .done _ => True
  | _, .call c next => kind c ∧ ∀ a, Only kind (next a)
  | _, .loop body _ next => (∀ s, Only kind (body s)) ∧ ∀ b, Only kind (next b)

theorem Only.bind {kind : Call → Prop} {α β : Type} {p : Prog Call Answer α} {f : α → Prog Call Answer β}
    (first : p.Only kind) (second : ∀ a, (f a).Only kind) : (p >>= f).Only kind := by
  induction p with
  | done a => exact second a
  | call c next ih => exact ⟨first.1, fun a => ih a (first.2 a) second⟩
  | loop body s next _ ih => exact ⟨first.1, fun b => ih b (first.2 b) second⟩

theorem Only.ask {kind : Call → Prop} {c : Call} (meets : kind c) :
    (Prog.ask c : Prog Call Answer (Answer c)).Only kind := ⟨meets, fun _ => trivial⟩

theorem Only.iterate {kind : Call → Prop} {σ β : Type} {body : σ → Prog Call Answer (σ ⊕ β)} {s : σ}
    (turn : ∀ s, (body s).Only kind) : (Prog.iterate body s).Only kind := ⟨turn, fun _ => trivial⟩

theorem Only.all {α : Type} (p : Prog Call Answer α) : p.Only fun _ => True := by
  induction p with
  | done a => trivial
  | call c next ih => exact ⟨trivial, ih⟩
  | loop body s next ihBody ih => exact ⟨ihBody, ih⟩

/-- Every result of a program is good. -/
def Ends : {α : Type} → (α → Prop) → Prog Call Answer α → Prop
  | _, good, .done a => good a
  | _, good, .call _ next => ∀ a, Ends good (next a)
  | _, good, .loop _ _ next => ∀ b, Ends good (next b)

theorem Ends.bind {α β : Type} {good : β → Prop} {p : Prog Call Answer α} {f : α → Prog Call Answer β}
    (ends : p.Ends fun a => (f a).Ends good) : (p >>= f).Ends good := by
  induction p with
  | done a => exact ends
  | call c next ih => exact fun a => ih a (ends a)
  | loop body s next _ ih => exact fun b => ih b (ends b)

theorem Ends.of_all {α : Type} {good : α → Prop} (p : Prog Call Answer α) (all : ∀ a, good a) : p.Ends good := by
  induction p with
  | done a => exact all a
  | call c next ih => exact fun a => ih a all
  | loop body s next _ ih => exact fun b => ih b all

theorem bind_assoc {α β γ : Type} (p : Prog Call Answer α) (g : α → Prog Call Answer β)
    (f : β → Prog Call Answer γ) :
    (p.bind g).bind f = p.bind fun a => (g a).bind f := by
  induction p with
  | done a => rfl
  | call c next ih => exact congrArg (call c) (funext fun a => ih a g)
  | loop body s next _ ih => exact congrArg (loop body s) (funext fun b => ih b g)

theorem bind_done {α : Type} (p : Prog Call Answer α) : p.bind done = p := by
  induction p with
  | done a => rfl
  | call c next ih => exact congrArg (call c) (funext ih)
  | loop body s next _ ih => exact congrArg (loop body s) (funext ih)

theorem again_bind {α σ β γ : Type} (body : σ → Prog Call Answer (σ ⊕ β)) (next : β → Prog Call Answer α)
    (f : α → Prog Call Answer γ) (r : σ ⊕ β) :
    again body (fun b => (next b).bind f) r = (again body next r).bind f := by
  cases r <;> rfl

end Prog

/-- What calls do to a world, each choice in its own way, and what else may
happen to it between two calls. -/
structure Host (Call : Type) (Answer : Call → Type) where
  World : Type
  Choice : Type
  act : (c : Call) → Choice → World → Option (Answer c × World)
  Move : Type
  move : Move → World → Option World

namespace Host

variable {Call : Type} {Answer : Call → Type} (S : Host Call Answer)

/-- What the others can make of a world. -/
def Drifts : S.World → S.World → Prop := Relation.ReflTransGen fun w w' => ∃ m, S.move m w = some w'

/-- One step of a program in a world, its own or of the others. -/
inductive Step {α : Type} : Prog Call Answer α → S.World → Prog Call Answer α → S.World → Prop
  | call {c : Call} {next : Answer c → Prog Call Answer α} {choice : S.Choice} {a : Answer c} {w w' : S.World}
    (acts : S.act c choice w = some (a, w')) : Step (.call c next) w (next a) w'
  | turn {σ β : Type} {body : σ → Prog Call Answer (σ ⊕ β)} {s : σ} {next : β → Prog Call Answer α} {w : S.World} :
    Step (.loop body s next) w ((body s).bind (Prog.again body next)) w
  | other {p : Prog Call Answer α} {m : S.Move} {w w' : S.World} (moves : S.move m w = some w') : Step p w p w'

/-- A run of a program from one world to another. -/
inductive Reaches {α : Type} : Prog Call Answer α → S.World → Prog Call Answer α → S.World → Prop
  | refl {p : Prog Call Answer α} {w : S.World} : Reaches p w p w
  | head {p q r : Prog Call Answer α} {w v u : S.World} (first : S.Step p w q v) (rest : Reaches q v r u) :
    Reaches p w r u

/-- Whatever the calls answer and the others do, every world on the way is
safe and every result is as wanted. -/
def Ensures (always : S.World → Prop) : {α : Type} → Prog Call Answer α → (α → S.World → Prop) → S.World → Prop
  | _, .done a, post => fun w => ∀ v, S.Drifts w v → always v ∧ post a v
  | _, .call c next, post => fun w => ∀ v, S.Drifts w v → always v ∧
      ∀ choice a u, S.act c choice v = some (a, u) → Ensures always (next a) post u
  | _, .loop (σ := σ) body s next, post => fun w => ∃ inv : σ → S.World → Prop,
      (∀ v, S.Drifts w v → always v ∧ inv s v) ∧ ∀ s v, inv s v →
        Ensures always (body s) (fun r u => Sum.elim (fun s => inv s u)
          (fun b => Ensures always (next b) post u) r) v

/-- A run that follows a script of what the others do and how the calls end.
-/
def play {α : Type} :
    Prog Call Answer α → S.World → List (S.Move ⊕ S.Choice) → Option (Prog Call Answer α × S.World)
  | p, w, [] => some (p, w)
  | p, w, .inl m :: events => (S.move m w).bind fun w => play p w events
  | .call c next, w, .inr choice :: events => (S.act c choice w).bind fun r => play (next r.1) r.2 events
  | .loop body s next, w, .inr _ :: events => play ((body s).bind (Prog.again body next)) w events
  | .done _, _, .inr _ :: _ => none

/-- The runs of a host whose calls are all made where a condition holds. -/
def only (meets : Call → S.World → Bool) : Host Call Answer where
  World := S.World
  Choice := S.Choice
  act c choice w := if meets c w then S.act c choice w else none
  Move := S.Move
  move := S.move

variable {S}

theorem only_act {meets : Call → S.World → Bool} {c : Call} {choice : S.Choice} {a : Answer c} {w v : S.World} :
    (S.only meets).act c choice w = some (a, v) ↔ meets c w = true ∧ S.act c choice w = some (a, v) := by
  simp only [only, Option.ite_none_right_eq_some]

theorem play_reaches {α : Type} {p q : Prog Call Answer α} {w v : S.World} {e : List (S.Move ⊕ S.Choice)}
    (played : S.play p w e = some (q, v)) : S.Reaches p w q v := by
  induction e generalizing p w with
  | nil =>
    obtain ⟨rfl, rfl⟩ := Prod.mk.inj (Option.some.inj played)
    exact .refl
  | cons event _ ih =>
    cases event with
    | inl m =>
      obtain ⟨u, moves, rest⟩ := Option.bind_eq_some_iff.mp played
      exact .head (.other moves) (ih rest)
    | inr choice =>
      cases p with
      | done a => cases played
      | call c next =>
        obtain ⟨⟨a, u⟩, acts, rest⟩ := Option.bind_eq_some_iff.mp played
        exact .head (.call acts) (ih rest)
      | loop body s next => exact .head .turn (ih played)

theorem play_append {α : Type} {p : Prog Call Answer α} {w : S.World} {a b : List (S.Move ⊕ S.Choice)} :
    S.play p w (a ++ b) = (S.play p w a).bind fun r => S.play r.1 r.2 b := by
  induction a generalizing p w with
  | nil => rfl
  | cons event a ih =>
    cases event with
    | inl m =>
      simp only [List.cons_append, play, Option.bind_assoc]
      exact Option.bind_congr fun u _ => ih
    | inr choice =>
      cases p with
      | done x => rfl
      | call c next =>
        simp only [List.cons_append, play, Option.bind_assoc]
        exact Option.bind_congr fun r _ => ih
      | loop body s next => exact ih

theorem play_bind {α β : Type} {p q : Prog Call Answer α} {f : α → Prog Call Answer β} {w v : S.World}
    {e : List (S.Move ⊕ S.Choice)} (played : S.play p w e = some (q, v)) :
    S.play (p.bind f) w e = some (q.bind f, v) := by
  induction e generalizing p w with
  | nil =>
    obtain ⟨rfl, rfl⟩ := Prod.mk.inj (Option.some.inj played)
    rfl
  | cons event e ih =>
    cases event with
    | inl m =>
      obtain ⟨u, moves, rest⟩ := Option.bind_eq_some_iff.mp played
      exact Option.bind_eq_some_iff.mpr ⟨u, moves, ih rest⟩
    | inr choice =>
      cases p with
      | done a => cases played
      | call c next =>
        obtain ⟨r, acts, rest⟩ := Option.bind_eq_some_iff.mp played
        exact Option.bind_eq_some_iff.mpr ⟨r, acts, ih rest⟩
      | loop body s next =>
        have turned := ih played
        rw [Prog.bind_assoc, ← funext (Prog.again_bind body next f)] at turned
        exact turned

theorem play_ends {α : Type} {p q : Prog Call Answer α} {good : α → Prop} {w v : S.World}
    {e : List (S.Move ⊕ S.Choice)}
    (ends : p.Ends good) (played : S.play p w e = some (q, v)) : q.Ends good := by
  induction e generalizing p w with
  | nil =>
    obtain ⟨rfl, -⟩ := Prod.mk.inj (Option.some.inj played)
    exact ends
  | cons event e ih =>
    cases event with
    | inl m =>
      obtain ⟨u, -, rest⟩ := Option.bind_eq_some_iff.mp played
      exact ih ends rest
    | inr choice =>
      cases p with
      | done a => cases played
      | call c next =>
        obtain ⟨r, -, rest⟩ := Option.bind_eq_some_iff.mp played
        exact ih (ends r.1) rest
      | loop body s next =>
        have turned : ((body s).bind (Prog.again body next)).Ends good := by
          refine Prog.Ends.bind (Prog.Ends.of_all _ fun r => ?_)
          cases r with
          | inl s => exact ends
          | inr b => exact ends b
        exact ih turned played

/-- The script of a sequence is one of its first part and one of the rest.
-/
theorem play_bind_iff {α β : Type} {p : Prog Call Answer α} {f : α → Prog Call Answer β} {b : β} {w v : S.World}
    {e : List (S.Move ⊕ S.Choice)} : S.play (p.bind f) w e = some (.done b, v) ↔
      ∃ first rest a u, e = first ++ rest ∧ S.play p w first = some (.done a, u) ∧
        S.play (f a) u rest = some (.done b, v) := by
  constructor
  · intro played
    induction e generalizing p w with
    | nil =>
      cases p with
      | done a => exact ⟨[], [], a, w, rfl, rfl, played⟩
      | call c next => cases played
      | loop body s next => cases played
    | cons event e ih =>
      cases event with
      | inl m =>
        obtain ⟨t, moves, rest⟩ := Option.bind_eq_some_iff.mp played
        obtain ⟨first, last, a, u, rfl, own, later⟩ := ih rest
        exact ⟨.inl m :: first, last, a, u, rfl, Option.bind_eq_some_iff.mpr ⟨t, moves, own⟩, later⟩
      | inr choice =>
        cases p with
        | done a => exact ⟨[], _, a, w, rfl, rfl, played⟩
        | call c next =>
          obtain ⟨r, acts, rest⟩ := Option.bind_eq_some_iff.mp played
          obtain ⟨first, last, a, u, rfl, own, later⟩ := ih rest
          exact ⟨.inr choice :: first, last, a, u, rfl, Option.bind_eq_some_iff.mpr ⟨r, acts, own⟩, later⟩
        | loop body s next =>
          have turned : S.play ((body s).bind (Prog.again body fun b => (next b).bind f)) w e = some (.done b, v) :=
            played
          rw [funext (Prog.again_bind body next f), ← Prog.bind_assoc] at turned
          obtain ⟨first, last, a, u, rfl, own, later⟩ := ih turned
          exact ⟨.inr choice :: first, last, a, u, rfl, own, later⟩
  · rintro ⟨first, rest, a, u, rfl, own, later⟩
    rw [play_append, play_bind own]
    exact later

section

variable (still : ∀ m w, S.move m w = none)

include still

theorem play_done {α : Type} {a b : α} {w v : S.World} {e : List (S.Move ⊕ S.Choice)}
    (played : S.play (.done a) w e = some (.done b, v)) : e = [] ∧ a = b ∧ w = v := by
  cases e with
  | nil =>
    obtain ⟨same, rfl⟩ := Prod.mk.inj (Option.some.inj played)
    cases same
    exact ⟨rfl, rfl, rfl⟩
  | cons event e =>
    cases event with
    | inl m =>
      obtain ⟨u, moves, -⟩ := Option.bind_eq_some_iff.mp played
      rw [still m w] at moves
      cases moves
    | inr choice => cases played

/-- A script has a program done once. -/
theorem play_unique {α : Type} {p : Prog Call Answer α} {a a' : α} {w v v' : S.World}
    {e e' rest rest' : List (S.Move ⊕ S.Choice)} (played : S.play p w e = some (.done a, v))
    (played' : S.play p w e' = some (.done a', v')) (same : e ++ rest = e' ++ rest') :
    e = e' ∧ a = a' ∧ v = v' := by
  have onward : ∀ {b b' : α} {u u' : S.World} {front t : List (S.Move ⊕ S.Choice)}, S.play p w front =
    some (.done b, u) →
      S.play p w (front ++ t) = some (.done b', u') → t = [] ∧ b = b' ∧ u = u' := by
    intro b b' u u' front t first whole
    rw [play_append, first] at whole
    exact play_done still whole
  rcases List.append_eq_append_iff.mp same with ⟨t, rfl, -⟩ | ⟨t, rfl, -⟩
  · obtain ⟨rfl, rfl, rfl⟩ := onward played played'
    exact ⟨(List.append_nil e).symm, rfl, rfl⟩
  · obtain ⟨rfl, rfl, rfl⟩ := onward played' played
    exact ⟨List.append_nil e', rfl, rfl⟩

end

theorem Drifts.refl {w : S.World} : S.Drifts w w := Relation.ReflTransGen.refl

theorem Drifts.trans {w v u : S.World} (first : S.Drifts w v) (second : S.Drifts v u) : S.Drifts w u :=
  Relation.ReflTransGen.trans first second

theorem Drifts.single {w v : S.World} {m : S.Move} (moves : S.move m w = some v) : S.Drifts w v :=
  Relation.ReflTransGen.single ⟨m, moves⟩

theorem Drifts.invariant {I : S.World → Prop} (preserved : ∀ m w v, I w → S.move m w = some v → I v) {w v : S.World}
    (drifts : S.Drifts w v) (start : I w) : I v := by
  induction drifts with
  | refl => exact start
  | tail _ last ih =>
    obtain ⟨m, moves⟩ := last
    exact preserved m _ _ ih moves

variable {always : S.World → Prop}

theorem Ensures.drift {α : Type} {p : Prog Call Answer α} {post : α → S.World → Prop} {w v : S.World}
    (ensures : S.Ensures always p post w) (drifts : S.Drifts w v) : S.Ensures always p post v := by
  cases p with
  | done a => exact fun u later => ensures u (drifts.trans later)
  | call c next => exact fun u later => ensures u (drifts.trans later)
  | loop body s next =>
    obtain ⟨inv, start, turns⟩ := ensures
    exact ⟨inv, fun u later => start u (drifts.trans later), turns⟩

theorem Ensures.now {α : Type} {p : Prog Call Answer α} {post : α → S.World → Prop} {w : S.World}
    (ensures : S.Ensures always p post w) : always w := by
  cases p with
  | done a => exact (ensures w .refl).1
  | call c next => exact (ensures w .refl).1
  | loop body s next =>
    obtain ⟨inv, start, -⟩ := ensures
    exact (start w .refl).1

/-- A result is wanted where it stays so whatever the others do. -/
theorem Ensures.mono_stable {α : Type} {p : Prog Call Answer α} {post post' : α → S.World → Prop}
    (weaker : ∀ a w, (∀ v, S.Drifts w v → always v ∧ post a v) → post' a w) {w : S.World}
    (ensures : S.Ensures always p post w) : S.Ensures always p post' w := by
  induction p generalizing w with
  | done a =>
    exact fun v drifts => ⟨(ensures v drifts).1, weaker a v fun u later => ensures u (drifts.trans later)⟩
  | call c next ih =>
    exact fun v drifts =>
      ⟨(ensures v drifts).1, fun choice a u acts => ih a weaker ((ensures v drifts).2 choice a u acts)⟩
  | loop body s next ihBody ih =>
    obtain ⟨inv, start, turns⟩ := ensures
    refine ⟨inv, start, fun s v holds => ihBody s (fun r u stays => ?_) (turns s v holds)⟩
    cases r with
    | inl s => exact (stays u .refl).2
    | inr b => exact ih b weaker (stays u .refl).2

theorem Ensures.mono {α : Type} {p : Prog Call Answer α} {post post' : α → S.World → Prop}
    (weaker : ∀ a w, post a w → post' a w) {w : S.World} (ensures : S.Ensures always p post w) :
    S.Ensures always p post' w := ensures.mono_stable fun a w stays => weaker a w (stays w .refl).2

theorem Ensures.bind {α β : Type} {p : Prog Call Answer α} {f : α → Prog Call Answer β} {post : β → S.World → Prop}
    {w : S.World} (ensures : S.Ensures always p (fun a u => S.Ensures always (f a) post u) w) :
    S.Ensures always (p.bind f) post w := by
  induction p generalizing w with
  | done a => exact (ensures w .refl).2
  | call c next ih =>
    exact fun v drifts => ⟨(ensures v drifts).1, fun choice a u acts => ih a ((ensures v drifts).2 choice a u acts)⟩
  | loop body s next _ ih =>
    obtain ⟨inv, start, turns⟩ := ensures
    refine ⟨inv, start, fun s v holds => (turns s v holds).mono fun r u result => ?_⟩
    cases r with
    | inl s => exact result
    | inr b => exact ih b result

theorem Ensures.step {α : Type} {p q : Prog Call Answer α} {post : α → S.World → Prop} {w v : S.World}
    (ensures : S.Ensures always p post w) (step : S.Step p w q v) : S.Ensures always q post v := by
  cases step with
  | call acts => exact (ensures w .refl).2 _ _ _ acts
  | turn =>
    obtain ⟨inv, start, turns⟩ := ensures
    refine Ensures.bind ((turns _ _ (start w .refl).2).mono_stable fun r u stays => ?_)
    cases r with
    | inl s => exact ⟨inv, stays, turns⟩
    | inr b => exact (stays u .refl).2
  | other moves => exact ensures.drift (.single moves)

/-- What a program ensures holds in every run. -/
theorem Ensures.reaches {α : Type} {p q : Prog Call Answer α} {post : α → S.World → Prop} {w v : S.World}
    (ensures : S.Ensures always p post w) (reaches : S.Reaches p w q v) : S.Ensures always q post v := by
  induction reaches with
  | refl => exact ensures
  | head first _ ih => exact ih (ensures.step first)

theorem Ensures.result {α : Type} {p : Prog Call Answer α} {a : α} {post : α → S.World → Prop} {w v : S.World}
    (ensures : S.Ensures always p post w) (reaches : S.Reaches p w (.done a) v) : post a v :=
  (ensures.reaches reaches v .refl).2

theorem Reaches.trans {α : Type} {p q r : Prog Call Answer α} {w v u : S.World} (first : S.Reaches p w q v)
    (second : S.Reaches q v r u) : S.Reaches p w r u := by
  induction first with
  | refl => exact second
  | head step _ ih => exact .head step (ih second)

theorem Step.bind {α β : Type} {p q : Prog Call Answer α} {f : α → Prog Call Answer β} {w v : S.World}
    (step : S.Step p w q v) : S.Step (p.bind f) w (q.bind f) v := by
  cases step with
  | call acts => exact .call acts
  | @turn σ γ body s next w =>
    have turned := @Step.turn _ _ S β σ γ body s (fun b => (next b).bind f) w
    rw [funext (Prog.again_bind body next f), ← Prog.bind_assoc] at turned
    exact turned
  | other moves => exact .other moves

/-- A step of a sequence is one of its first part until that is done. -/
theorem Step.unbind {α β : Type} {p : Prog Call Answer α} {f : α → Prog Call Answer β} {q : Prog Call Answer β}
    {w v : S.World} (step : S.Step (p.bind f) w q v) :
    (∃ a, p = .done a ∧ S.Step (f a) w q v) ∨ ∃ p', q = p'.bind f ∧ S.Step p w p' v := by
  cases p with
  | done a => exact .inl ⟨a, rfl, step⟩
  | call c next =>
    have called : S.Step (.call c fun a => (next a).bind f) w q v := step
    cases called with
    | call acts => exact .inr ⟨_, rfl, .call acts⟩
    | other moves => exact .inr ⟨_, rfl, .other moves⟩
  | loop body s next =>
    have looped : S.Step (.loop body s fun b => (next b).bind f) w q v := step
    cases looped with
    | turn =>
      refine .inr ⟨_, ?_, .turn⟩
      rw [Prog.bind_assoc, funext (Prog.again_bind body next f)]
    | other moves => exact .inr ⟨_, rfl, .other moves⟩

theorem Reaches.bind {α β : Type} {p q : Prog Call Answer α} {f : α → Prog Call Answer β} {w v : S.World}
    (reaches : S.Reaches p w q v) : S.Reaches (p.bind f) w (q.bind f) v := by
  induction reaches with
  | refl => exact .refl
  | head step _ ih => exact .head step.bind ih

/-- A run of a sequence is a run of its first part and one of the rest. -/
theorem Reaches.bind_iff {α β : Type} {p : Prog Call Answer α} {f : α → Prog Call Answer β} {c : β}
    {w v : S.World} :
    S.Reaches (p.bind f) w (.done c) v ↔ ∃ a u, S.Reaches p w (.done a) u ∧ S.Reaches (f a) u (.done c) v := by
  constructor
  · intro run
    generalize start : p.bind f = r at run
    generalize finish : Prog.done c = q at run
    induction run generalizing p with
    | refl =>
      subst finish
      cases p with
      | done a => exact ⟨a, _, .refl, start ▸ .refl⟩
      | call _ _ => cases start
      | loop _ _ _ => cases start
    | head step rest ih =>
      subst start
      rcases step.unbind with ⟨a, rfl, own⟩ | ⟨p', rfl, own⟩
      · exact ⟨a, _, .refl, .head own (finish ▸ rest)⟩
      · obtain ⟨a, u, first, second⟩ := ih rfl finish
        exact ⟨a, u, .head own first, second⟩
  · rintro ⟨a, u, first, second⟩
    exact first.bind.trans second

theorem Reaches.done_iff (still : S.Move → False) {α : Type} {a b : α} {w v : S.World} :
    S.Reaches (.done a) w (.done b) v ↔ a = b ∧ w = v := by
  constructor
  · intro run
    cases run with
    | refl => exact ⟨rfl, rfl⟩
    | head step _ =>
      cases step with
      | @other _ m => exact (still m).elim
  · rintro ⟨rfl, rfl⟩
    exact .refl

theorem Reaches.pure {α : Type} {a : α} {w : S.World} : S.Reaches (Pure.pure a) w (.done a) w := .refl

/-- One call where nobody else acts. -/
theorem Reaches.ask_iff (still : S.Move → False) {c : Call} {b : Answer c} {w v : S.World} :
    S.Reaches (Prog.ask c) w (.done b) v ↔ ∃ choice, S.act c choice w = some (b, v) := by
  constructor
  · intro run
    generalize start : Prog.ask c = p at run
    cases run with
    | refl => cases start
    | head step rest =>
      subst start
      cases step with
      | call acts =>
        obtain ⟨rfl, rfl⟩ := (Reaches.done_iff still).mp rest
        exact ⟨_, acts⟩
      | @other _ m => exact (still m).elim
  · rintro ⟨choice, acts⟩
    exact .head (.call acts) .refl

/-- A turn of a loop that goes on. -/
theorem Reaches.turn {α σ : Type} {body : σ → Prog Call Answer (σ ⊕ α)} {s s' : σ} {q : Prog Call Answer α}
    {w v u : S.World} (turned : S.Reaches (body s) w (.done (.inl s')) v)
    (rest : S.Reaches (Prog.iterate body s') v q u) : S.Reaches (Prog.iterate body s) w q u :=
  .head .turn (turned.bind.trans rest)

/-- A turn of a loop that is the last. -/
theorem Reaches.last {α σ : Type} {body : σ → Prog Call Answer (σ ⊕ α)} {s : σ} {a : α} {w v : S.World}
    (turned : S.Reaches (body s) w (.done (.inr a)) v) : S.Reaches (Prog.iterate body s) w (.done a) v :=
  .head .turn (turned.bind.trans .refl)

theorem Reaches.then {α β : Type} {p : Prog Call Answer α} {f : α → Prog Call Answer β} {a : α} {b : β}
    {w v u : S.World} (first : S.Reaches p w (.done a) v) (second : S.Reaches (f a) v (.done b) u) :
    S.Reaches (p >>= f) w (.done b) u := bind_iff.mpr ⟨a, v, first, second⟩

/-- Where a call has one answer and nobody else acts, a program has one
result. -/
theorem Reaches.unique (still : S.Move → False)
    (settled : ∀ c choice choice' w, S.act c choice w = S.act c choice' w) {α : Type}
    {p : Prog Call Answer α} {a b : α}
    {w v u : S.World} (first : S.Reaches p w (.done a) v) (second : S.Reaches p w (.done b) u) : a = b ∧ v = u := by
  generalize finish : Prog.done a = q at first
  induction first with
  | refl =>
    subst finish
    exact (Reaches.done_iff still).mp second
  | head step rest ih =>
    cases step with
    | @call c next choice _ w _ acts =>
      generalize start : Prog.call c next = r at second
      cases second with
      | refl => cases start
      | head step' rest' =>
        subst start
        cases step' with
        | @call _ _ choice' _ _ _ acts' =>
          rw [settled c choice' choice, acts] at acts'
          obtain ⟨rfl, rfl⟩ := Prod.mk.inj (Option.some.inj acts')
          exact ih rest' finish
        | @other _ m => exact (still m).elim
    | @turn _ _ body s next w =>
      generalize start : Prog.loop body s next = r at second
      cases second with
      | refl => cases start
      | head step' rest' =>
        subst start
        cases step' with
        | turn => exact ih rest' finish
        | @other _ m => exact (still m).elim
    | @other _ m => exact (still m).elim

/-- A program that has a result, and only one. -/
def Yields (S : Host Call Answer) {α : Type} (p : Prog Call Answer α) (w : S.World) (a : α) : Prop :=
  (∃ v, S.Reaches p w (.done a) v) ∧ ∀ b v, S.Reaches p w (.done b) v → b = a

theorem Reaches.yields (still : S.Move → False)
    (settled : ∀ c choice choice' w, S.act c choice w = S.act c choice' w) {α : Type}
    {p : Prog Call Answer α} {a : α}
    {w v : S.World} (run : S.Reaches p w (.done a) v) : S.Yields p w a :=
  ⟨⟨v, run⟩, fun _ _ other => (other.unique still settled run).1⟩

/-- What every call and everybody else keeps, every run keeps. -/
theorem Reaches.invariant {I : S.World → Prop} (acts : ∀ c choice a w v, I w → S.act c choice w = some (a, v) → I v)
    (moves : ∀ m w v, I w → S.move m w = some v → I v) {α : Type} {p q : Prog Call Answer α} {w v : S.World}
    (reaches : S.Reaches p w q v) (start : I w) : I v := by
  induction reaches with
  | refl => exact start
  | head step _ ih =>
    cases step with
    | call acted => exact ih (acts _ _ _ _ _ start acted)
    | turn => exact ih start
    | other moved => exact ih (moves _ _ _ start moved)

section

variable {I : S.World → Prop} (stable : ∀ m w v, I w → S.move m w = some v → I v) (inside : ∀ w, I w → always w)

include stable inside

/-- A result that stays as wanted whatever the others do. -/
theorem Ensures.pure {α : Type} {a : α} {post : α → S.World → Prop} {w : S.World} (start : I w)
    (wanted : ∀ v, I v → post a v) : S.Ensures always (Prog.done a) post w :=
  fun v drifts => have holds := drifts.invariant stable start
    ⟨inside v holds, wanted v holds⟩

/-- A call where something holds that the others cannot change. -/
theorem Ensures.ask {α : Type} {c : Call} {f : Answer c → Prog Call Answer α} {post : α → S.World → Prop}
    {w : S.World} (start : I w)
    (answered : ∀ choice a v u, I v → S.act c choice v = some (a, u) → S.Ensures always (f a) post u) :
    S.Ensures always (Prog.ask c >>= f) post w :=
  fun v drifts => have holds := drifts.invariant stable start
    ⟨inside v holds, fun choice a u acts => answered choice a v u holds acts⟩

end

/-- A program keeps what the calls of its kind and the others keep. -/
theorem Ensures.only {I : S.World → Prop} {kind : Call → Prop} (stable : ∀ m w v, I w → S.move m w = some v → I v)
    (inside : ∀ w, I w → always w)
    (acts : ∀ c choice a w v, kind c → I w → S.act c choice w = some (a, v) → I v) {α : Type}
    {p : Prog Call Answer α} (only : p.Only kind) {w : S.World} (start : I w) :
    S.Ensures always p (fun _ v => I v) w := by
  induction p generalizing w with
  | done a => exact fun v drifts => have holds := drifts.invariant stable start
      ⟨inside v holds, holds⟩
  | call c next ih =>
    exact fun v drifts => have holds := drifts.invariant stable start
      ⟨inside v holds, fun choice a u acted => ih a (only.2 a) (acts c choice a v u only.1 holds acted)⟩
  | loop body s next ihBody ih =>
    refine ⟨fun _ v => I v, fun v drifts => ?_, fun s v holds => (ihBody s (only.1 s) holds).mono
      fun r u kept => ?_⟩
    · have holds := drifts.invariant stable start
      exact ⟨inside v holds, holds⟩
    · cases r with
      | inl s => exact kept
      | inr b => exact ih b (only.2 b) kept

/-- A loop whose body keeps an invariant until it has a result. -/
theorem Ensures.iterate {σ β : Type} {body : σ → Prog Call Answer (σ ⊕ β)} {s : σ} (inv : σ → S.World → Prop)
    {post : β → S.World → Prop} {w : S.World} (invStable : ∀ s m v u, inv s v → S.move m v = some u → inv s u)
    (invInside : ∀ s v, inv s v → always v) (postStable : ∀ b m v u, post b v → S.move m v = some u → post b u)
    (postInside : ∀ b v, post b v → always v) (start : inv s w)
    (turn : ∀ s v, inv s v → S.Ensures always (body s)
      (fun r u => Sum.elim (fun s => inv s u) (fun b => post b u) r) v) :
    S.Ensures always (Prog.iterate body s) post w := by
  refine ⟨inv, fun v drifts => ?_, fun s v holds => (turn s v holds).mono fun r u result => ?_⟩
  · have holds := drifts.invariant (invStable s) start
    exact ⟨invInside s v holds, holds⟩
  · cases r with
    | inl s => exact result
    | inr b => exact Ensures.pure (postStable b) (postInside b) result fun _ holds => holds

end Host

end Machteld
