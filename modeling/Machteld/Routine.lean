import Machteld.Ledger

namespace Machteld

/-- A program with locals that may break off. -/
abbrev Routine (Call : Type) (Answer : Call → Type) (σ ε : Type) := ExceptT ε (StateT σ (Prog Call Answer))

section

variable {Call : Type} {Answer : Call → Type} {R σ ε : Type}

/-- A call of a routine. -/
def Routine.call (c : Call) : Routine Call Answer σ ε (Answer c) := fun s => Prog.ask c >>= fun a => pure (.ok a, s)

/-- A part without locals. -/
def Routine.within {α : Type} (p : Prog Call Answer α) : Routine Call Answer σ ε α :=
  fun s => p >>= fun a => pure (.ok a, s)

variable [DecidableEq R] {S : Host Call Answer} {deal : (c : Call) → Answer c → Deal R}

/-- What a routine ends with and leaves in its locals. -/
def Steps (S : Host Call Answer) (deal : (c : Call) → Answer c → Deal R) {α : Type}
    (p : Routine Call Answer σ ε α) (s : σ)
    (post : Except ε α → σ → Ledger R × S.World → Prop) (x : Ledger R × S.World) : Prop :=
  Safely S deal (p s) (fun r => post r.1 r.2) x

namespace Steps

variable {α β : Type} {post : Except ε α → σ → Ledger R × S.World → Prop} {x : Ledger R × S.World} {s : σ}
  {M : Multiset R} {ts : List (Task R)} {K : S.World → Prop}

theorem call {c : Call} {f : Answer c → Routine Call Answer σ ε α}
    (steps : Safely S deal (Prog.ask c >>= fun a => f a s) (fun r => post r.1 r.2) x) :
    Steps S deal (Routine.call c >>= f) s post x := steps

theorem within {p : Prog Call Answer β} {f : β → Routine Call Answer σ ε α}
    (steps : Safely S deal (p >>= fun b => f b s) (fun r => post r.1 r.2) x) :
    Steps S deal (Routine.within p >>= f) s post x := by
  have same : (Routine.within p >>= f : Routine Call Answer σ ε α) s = p.bind fun b => f b s :=
    Prog.bind_assoc p _ _
  rw [Steps, same]
  exact steps

theorem get {f : σ → Routine Call Answer σ ε α} (steps : Steps S deal (f s) s post x) :
    Steps S deal (get >>= f) s post x := steps

theorem bind {p : Routine Call Answer σ ε β} {f : β → Routine Call Answer σ ε α}
    (steps : Steps S deal p s (fun r s y => match r with
      | .ok b => Steps S deal (f b) s post y
      | .error err => Safely S deal (Prog.done (Except.error err, s)) (fun r => post r.1 r.2) y) x) :
    Steps S deal (p >>= f) s post x := by
  refine Safely.bind (Safely.mono (fun r y wanted => ?_) steps)
  obtain ⟨r, s⟩ := r
  cases r <;> exact wanted

/-- A sequence, its first part by what is known behind it. -/
theorem andThen {p : Routine Call Answer σ ε β} {f : β → Routine Call Answer σ ε α}
    {mid : Except ε β → σ → Ledger R × S.World → Prop} (first : Steps S deal p s mid x)
    (failed : ∀ err s y, mid (.error err) s y → Safely S deal (Prog.done (Except.error err, s))
      (fun r => post r.1 r.2) y)
    (next : ∀ b s y, mid (.ok b) s y → Steps S deal (f b) s post y) : Steps S deal (p >>= f) s post x := by
  refine bind (Safely.mono (fun r y wanted => ?_) first)
  obtain ⟨r, s⟩ := r
  cases r with
  | error err => exact failed err s y wanted
  | ok b => exact next b s y wanted

theorem modify {change : σ → σ} {f : PUnit → Routine Call Answer σ ε α}
    (steps : Steps S deal (f ()) (change s) post x) :
    Steps S deal (modify change >>= f) s post x := steps

theorem throw {err : ε} (holds : Holds M ts K x) (stable : S.Stable K)
    (wanted : ∀ y, Holds M ts K y → post (.error err) s y) :
    Steps S deal (throw err) s post x := Safely.done holds stable wanted

theorem pure {a : α} (holds : Holds M ts K x) (stable : S.Stable K)
    (wanted : ∀ y, Holds M ts K y → post (.ok a) s y) :
    Steps S deal (pure a) s post x := Safely.done holds stable wanted

end Steps

end

end Machteld
