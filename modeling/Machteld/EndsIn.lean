import Machteld.Except

namespace Machteld

section

variable {ε α β σ : Type}

theorem Except.bind_of_ok {x : Except ε α} {a : α} (same : x = .ok a) (f : α → Except ε β) : x.bind f = f a := by
  rw [same]
  rfl

theorem Except.bind_of_error {x : Except ε α} {e : ε} (same : x = .error e) (f : α → Except ε β) :
    x.bind f = .error e := by
  rw [same]
  rfl

/-- A result meets a postcondition, and an error a condition on errors. -/
def EndsIn (x : Except ε α) (fails : ε → Prop) (post : α → Prop) : Prop :=
  match x with
  | .ok a => post a
  | .error e => fails e

/-- One condition after another, up to the first one that holds. -/
def anyOf : List (Except ε Bool) → Except ε Bool
  | [] => .ok false
  | condition :: conditions => condition.bind fun holds => if holds then .ok true else anyOf conditions

/-- Whether something fails. -/
def caught (x : Except ε α) : Except ε Bool :=
  match x with
  | .ok _ => .ok false
  | .error _ => .ok true

/-- An error where a condition holds. -/
def refuse (condition : Except ε Bool) (e : ε) : Except ε Unit :=
  condition.bind fun holds => if holds then .error e else .ok ()

def eachOf (body : α → Except ε Unit) : List α → Except ε Unit
  | [] => .ok ()
  | item :: items => (body item).bind fun _ => eachOf body items

def foldOf (body : σ → α → Except ε σ) (s : σ) : List α → Except ε σ
  | [] => .ok s
  | item :: items => (body s item).bind fun s => foldOf body s items

variable {x : Except ε α} {f : α → Except ε β} {fails : ε → Prop} {post mid : α → Prop} {goal : β → Prop} {e : ε}

theorem EndsIn.bind (first : EndsIn x fails mid) (next : ∀ a, mid a → EndsIn (f a) fails goal) :
    EndsIn (x.bind f) fails goal := by
  cases x with
  | ok a => exact next a first
  | error e => exact first

theorem EndsIn.given {a : α} (same : x = .ok a) (next : EndsIn (f a) fails goal) :
    EndsIn (x.bind f) fails goal := by
  rw [Except.bind_of_ok same]
  exact next

/-- Something that is there is read, whatever it is. -/
theorem EndsIn.read (known : ∃ a, x = .ok a) (next : ∀ a, EndsIn (f a) fails goal) :
    EndsIn (x.bind f) fails goal := by
  obtain ⟨a, same⟩ := known
  exact .given same (next a)

theorem EndsIn.mono (ended : EndsIn x fails mid) (weaker : ∀ a, mid a → post a) : EndsIn x fails post := by
  cases x with
  | ok a => exact weaker a ended
  | error e => exact ended

theorem EndsIn.weaken {fails' : ε → Prop} (ended : EndsIn x fails post) (weaker : ∀ e, fails e → fails' e) :
    EndsIn x fails' post := by
  cases x with
  | ok a => exact ended
  | error e => exact weaker e ended

/-- The result is also kept. -/
theorem EndsIn.self (ended : EndsIn x fails post) : EndsIn x fails fun a => post a ∧ x = .ok a := by
  cases x with
  | ok a => exact ⟨ended, rfl⟩
  | error e => exact ended

theorem EndsIn.of_ok {a : α} (same : x = .ok a) (result : post a) : EndsIn x fails post := by
  rw [same]
  exact result

theorem EndsIn.result {a : α} (ended : EndsIn x fails post) (same : x = .ok a) : post a := by
  rw [same] at ended
  exact ended

theorem EndsIn.failure (ended : EndsIn x fails post) (same : x = .error e) : fails e := by
  rw [same] at ended
  exact ended

theorem EndsIn.escapes (same : x = .error e) (bad : ¬fails e) : ¬EndsIn x fails post :=
  fun ended => bad (ended.failure same)

theorem EndsIn.map_iff {g : α → β} : EndsIn (x.map g) fails (fun _ => True) ↔ EndsIn x fails fun _ => True := by
  cases x with
  | ok a => exact Iff.rfl
  | error e => exact Iff.rfl

/-- A condition that is false where it does not fail has a reason. -/
def Refutes (condition : Except ε Bool) (fails : ε → Prop) (reason : Prop) : Prop :=
  EndsIn condition fails fun holds => holds = false → reason

theorem Refutes.pure (holds : Bool) : Refutes (.ok holds) fails (holds = false) := fun same => same

theorem Refutes.not (holds : Bool) : Refutes (.ok !holds) fails (holds = true) :=
  fun same => (Bool.not_eq_false' ..).mp same

theorem Refutes.mono {condition : Except ε Bool} {reason weaker : Prop} (refutes : Refutes condition fails reason)
    (follows : reason → weaker) : Refutes condition fails weaker :=
  EndsIn.mono refutes fun _ given same => follows (given same)

theorem Refutes.nil : Refutes (anyOf []) fails True := fun _ => trivial

theorem Refutes.cons {condition : Except ε Bool} {conditions : List (Except ε Bool)} {reason rest : Prop}
    (first : Refutes condition fails reason) (later : reason → Refutes (anyOf conditions) fails rest) :
    Refutes (anyOf (condition :: conditions)) fails (reason ∧ rest) := by
  refine EndsIn.bind first fun holds given => ?_
  cases holds with
  | true => exact fun bad => Bool.noConfusion bad
  | false => exact EndsIn.mono (later (given rfl)) fun _ given' same => ⟨given rfl, given' same⟩

theorem Refutes.also {condition : Except ε Bool} {conditions : List (Except ε Bool)} {reason rest : Prop}
    (first : Refutes condition fails reason) (later : reason → Refutes (anyOf conditions) fails rest) :
    Refutes (anyOf (condition :: conditions)) fails rest := (Refutes.cons first later).mono And.right

theorem Refutes.last {condition : Except ε Bool} {reason : Prop} (refutes : Refutes condition fails reason) :
    Refutes (anyOf [condition]) fails reason := (Refutes.cons refutes fun _ => .nil).mono And.left

theorem Refutes.given {g : α → Except ε Bool} {reason : Prop} {a : α} (same : x = .ok a)
    (next : Refutes (g a) fails reason) :
    Refutes (x.bind g) fails reason := EndsIn.given same next

theorem Refutes.caught : Refutes (caught x) fails (∃ a, x = .ok a) := by
  cases x with
  | ok a => exact fun _ => ⟨a, rfl⟩
  | error e => exact fun bad => Bool.noConfusion bad

theorem EndsIn.refuse {condition : Except ε Bool} {reason : Prop} (refutes : Refutes condition fails reason)
    (failure : fails e) :
    EndsIn (refuse condition e) fails fun _ => reason := by
  refine EndsIn.bind refutes fun holds given => ?_
  cases holds with
  | true => exact failure
  | false => exact given rfl

theorem EndsIn.each {body : α → Except ε Unit} {items : List α} {holds : α → Prop}
    (step : ∀ item ∈ items, EndsIn (body item) fails fun _ => holds item) :
    EndsIn (eachOf body items) fails fun _ => ∀ item ∈ items, holds item := by
  induction items with
  | nil => exact fun item bad => absurd bad List.not_mem_nil
  | cons item items ih =>
    obtain ⟨first, later⟩ := List.forall_mem_cons.mp step
    refine EndsIn.bind first fun _ here => ?_
    exact EndsIn.mono (ih later) fun _ rest => List.forall_mem_cons.mpr ⟨here, rest⟩

theorem EndsIn.eachAny {body : α → Except ε Unit} {items : List α}
    (step : ∀ item ∈ items, EndsIn (body item) fails fun _ => True) :
    EndsIn (eachOf body items) fails fun _ => True := (EndsIn.each step).mono fun _ _ => trivial

/-- An invariant of what is carried, and a fact about each item. -/
theorem EndsIn.fold {body : σ → α → Except ε σ} {items : List α} {holds : α → Prop} {s : σ} (invariant : σ → Prop)
    (start : invariant s)
    (step : ∀ s, invariant s → ∀ item ∈ items, EndsIn (body s item) fails fun s => invariant s ∧ holds item) :
    EndsIn (foldOf body s items) fails fun s => invariant s ∧ ∀ item ∈ items, holds item := by
  induction items generalizing s with
  | nil => exact ⟨start, fun item bad => absurd bad List.not_mem_nil⟩
  | cons item items ih =>
    refine EndsIn.bind (step s start item List.mem_cons_self) fun s here => ?_
    refine EndsIn.mono (ih here.1 fun s given item member => step s given item (List.mem_cons_of_mem _ member))
      fun _ rest => ?_
    exact ⟨rest.1, List.forall_mem_cons.mpr ⟨here.2, rest.2⟩⟩

/-- Steps that cannot go wrong whatever is carried. -/
theorem EndsIn.foldAny {body : σ → α → Except ε σ} {items : List α} {s : σ}
    (step : ∀ s, ∀ item ∈ items, EndsIn (body s item) fails fun _ => True) :
    EndsIn (foldOf body s items) fails fun _ => True :=
  (EndsIn.fold (fun _ => True) trivial fun s _ item member => (step s item member).mono fun _ _ =>
    ⟨trivial, trivial⟩).mono
    fun _ (all : True ∧ ∀ item ∈ items, True) => all.1

theorem EndsIn.elim {found : Option α} (failure : fails e) :
    EndsIn (found.elim (.error e) .ok) fails fun a => found = some a := by
  cases found with
  | none => exact failure
  | some a => exact rfl

end

/-- The same error, or values that are related. -/
inductive Alike {ε α β : Type} (related : α → β → Prop) : Except ε α → Except ε β → Prop
  | error (e : ε) : Alike related (.error e) (.error e)
  | ok {a : α} {b : β} : related a b → Alike related (.ok a) (.ok b)

section

variable {ε α β γ δ : Type} {related : α → β → Prop} {goal : γ → δ → Prop} {x : Except ε α} {y : Except ε β}
  {f : α → Except ε γ} {g : β → Except ε δ}

theorem Alike.bind (first : Alike related x y) (next : ∀ a b, related a b → Alike goal (f a) (g b)) :
    Alike goal (x.bind f) (y.bind g) := by
  cases first with
  | error e => exact .error e
  | ok same => exact next _ _ same

/-- Both read the same. -/
theorem Alike.same {x y : Except ε α} {f : α → Except ε γ} {g : α → Except ε δ} (same : x = y)
    (next : ∀ a, Alike goal (f a) (g a)) : Alike goal (x.bind f) (y.bind g) := by
  subst same
  cases x with
  | error e => exact .error e
  | ok a => exact next a

/-- One of both reads what is there. -/
theorem Alike.given {a : α} {y : Except ε δ} (same : x = .ok a) (next : Alike goal (f a) y) :
    Alike goal (x.bind f) y := by
  rw [Except.bind_of_ok same]
  exact next

/-- One of both goes on. -/
theorem Alike.after {goal : α → δ → Prop} (first : Alike related x y)
    (next : ∀ a b, related a b → Alike goal (.ok a) (g b)) : Alike goal x (y.bind g) := by
  cases first with
  | error e => exact .error e
  | ok same => exact next _ _ same

theorem Alike.assoc {ζ : Type} {x : Except ε γ} {h : δ → Except ε ζ} {goal : γ → ζ → Prop}
    (alike : Alike goal x (y.bind fun b => (g b).bind h)) : Alike goal x ((y.bind g).bind h) := by
  cases y with
  | error e => exact alike
  | ok b => exact alike

/-- What one of both shows is that of something related. -/
theorem Alike.shows {f : α → γ} {c : γ} (alike : Alike related x y) (shown : x.toOption.map f = some c) :
    ∃ a b, y = .ok b ∧ related a b ∧ f a = c := by
  cases alike with
  | error e => cases shown
  | ok same => exact ⟨_, _, rfl, same, Option.some.inj shown⟩

end

theorem refuse_bind {ε β : Type} {condition : Bool} {e : ε} {f : Unit → Except ε β} :
    (refuse (.ok condition) e).bind f = if condition = true then .error e else f () := by
  cases condition with
  | true => rfl
  | false => rfl

theorem anyOf_ok {ε : Type} (conditions : List Bool) :
    anyOf (conditions.map (.ok : Bool → Except ε Bool)) = .ok (conditions.any id) := by
  induction conditions with
  | nil => rfl
  | cons condition conditions ih =>
    cases condition with
    | true => rfl
    | false => exact ih

end Machteld
