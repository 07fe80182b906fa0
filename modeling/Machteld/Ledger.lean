import Mathlib.Algebra.Order.Group.Multiset
import Machteld.Prog

namespace Machteld

/-- Work that goes on beside a program: what it takes over and gives back
itself when it ends, and what of the program's it works with until then. -/
structure Task (R : Type) where
  name : R
  own : Multiset R
  uses : Multiset R

/-- How a call deals with resources. -/
structure Deal (R : Type) where
  needs : Multiset R := 0
  gives : Multiset R := 0
  takes : Multiset R := 0
  starts : Option (Task R) := none
  joins : Option R := none
  loses : Bool := false

/-- What a program holds and what runs beside it; whether it has dealt with
what it did not hold or what was in use, and whether it lost track of its
tasks, as a wait without a limit has failed. -/
structure Ledger (R : Type) where
  mine : Multiset R
  running : List (Task R)
  spoiled : Bool
  lost : Bool

namespace Deal

variable {R : Type} [DecidableEq R]

/-- What a task takes over. -/
def owned (d : Deal R) : Multiset R := d.starts.elim 0 Task.own

def mine (d : Deal R) (mine : Multiset R) : Multiset R := mine - (d.gives + d.owned) + d.takes

/-- The tasks behind a call: one that was waited for has ended. -/
def tasks (d : Deal R) (ts : List (Task R)) : List (Task R) :=
  d.starts.toList ++ ts.filter fun t => decide (d.joins ≠ some t.name)

/-- What is needed and given is there, and no task loses what it works with.
-/
structure Fair (d : Deal R) (mine : Multiset R) (ts : List (Task R)) : Prop where
  needs : ∀ r ∈ d.needs, r ∈ mine
  gives : d.gives + d.owned ≤ mine
  uses : ∀ t ∈ d.tasks ts, ∀ r ∈ t.uses, r ∈ d.mine mine

instance (d : Deal R) (mine : Multiset R) (ts : List (Task R)) : Decidable (d.Fair mine ts) :=
  decidable_of_iff ((∀ r ∈ d.needs, r ∈ mine) ∧ d.gives + d.owned ≤ mine ∧ ∀ t ∈ d.tasks ts, ∀ r ∈ t.uses,
    r ∈ d.mine mine)
    ⟨fun h => ⟨h.1, h.2.1, h.2.2⟩, fun h => ⟨h.needs, h.gives, h.uses⟩⟩

/-- What is new is nobody's, and who is waited for has ended. -/
structure Possible (d : Deal R) (l : Ledger R) : Prop where
  single : d.takes.Nodup
  fresh : ∀ r ∈ d.takes, r ∉ l.mine - (d.gives + d.owned) ∧ ∀ t ∈ d.starts.toList ++ l.running, r ∉ t.own
  ended : ∀ t ∈ l.running, d.joins ≠ some t.name

instance (d : Deal R) (l : Ledger R) : Decidable (d.Possible l) :=
  decidable_of_iff (d.takes.Nodup ∧ (∀ r ∈ d.takes, r ∉ l.mine - (d.gives + d.owned) ∧
      ∀ t ∈ d.starts.toList ++ l.running, r ∉ t.own) ∧ ∀ t ∈ l.running, d.joins ≠ some t.name)
    ⟨fun h => ⟨h.1, h.2.1, h.2.2⟩, fun h => ⟨h.single, h.fresh, h.ended⟩⟩

/-- The ledger behind a call. -/
def settle (d : Deal R) (l : Ledger R) : Ledger R where
  mine := d.mine l.mine
  running := d.tasks l.running
  spoiled := l.spoiled || !decide (d.Fair l.mine l.running)
  lost := l.lost || d.loses

end Deal

/-- What the tasks work with is not given away. -/
def Kept {R : Type} (ts : List (Task R)) (M : Multiset R) : Prop := ∀ t ∈ ts, ∀ r ∈ t.uses, r ∈ M

theorem Kept.add {R : Type} {ts : List (Task R)} {M : Multiset R} (kept : Kept ts M) (N : Multiset R) :
    Kept ts (N + M) :=
  fun t member r used => Multiset.mem_add.mpr (.inr (kept t member r used))

/-- The result of a program that is done. -/
def Prog.result {Call : Type} {Answer : Call → Type} {α : Type} : Prog Call Answer α → Option α
  | .done a => some a
  | .call _ _ => none
  | .loop _ _ _ => none

/-- A run to the end that follows a script. -/
def Host.finish {Call : Type} {Answer : Call → Type} (S : Host Call Answer) {α : Type}
    (p : Prog Call Answer α) (w : S.World)
    (e : List (S.Move ⊕ S.Choice)) : Option (α × S.World) :=
  (S.play p w e).bind fun r => r.1.result.map fun a => (a, r.2)

theorem Host.finish_reaches {Call : Type} {Answer : Call → Type} {S : Host Call Answer} {α : Type}
    {p : Prog Call Answer α}
    {a : α} {w v : S.World} {e : List (S.Move ⊕ S.Choice)} (finished : S.finish p w e = some (a, v)) :
    S.Reaches p w (.done a) v := by
  obtain ⟨⟨q, u⟩, played, ended⟩ := Option.bind_eq_some_iff.mp finished
  obtain ⟨b, done, same⟩ := Option.map_eq_some_iff.mp ended
  obtain ⟨rfl, rfl⟩ := Prod.mk.inj same
  cases q with
  | done a =>
    obtain rfl := Option.some.inj done
    exact Host.play_reaches played
  | call c next => cases done
  | loop body s next => cases done

section

variable {Call : Type} {Answer : Call → Type} {R : Type} [DecidableEq R]

/-- A host whose calls are entered in a ledger; the tasks end when they
like. -/
def Host.ledger (S : Host Call Answer) (deal : (c : Call) → Answer c → Deal R) : Host Call Answer where
  World := Ledger R × S.World
  Choice := S.Choice
  act c choice x := (S.act c choice x.2).bind fun r =>
    if (deal c r.1).Possible x.1 then some (r.1, (deal c r.1).settle x.1, r.2) else none
  Move := R ⊕ S.Move
  move
    | .inl name, x => some ({ x.1 with running := x.1.running.filter fun t => decide (t.name ≠ name) }, x.2)
    | .inr m, x => (S.move m x.2).map fun w => (x.1, w)

/-- A program that has not lost its tasks has spoiled nothing. -/
def Careful {W : Type} (x : Ledger R × W) : Prop := x.1.lost = false → x.1.spoiled = false

/-- What is held, what may run and what is known of the world. -/
structure Holds {W : Type} (M : Multiset R) (ts : List (Task R)) (K : W → Prop) (x : Ledger R × W) : Prop where
  clean : x.1.spoiled = false
  mine : x.1.mine = M
  single : M.Nodup
  running : ∀ t ∈ x.1.running, t ∈ ts
  uses : Kept ts M
  knows : K x.2

omit [DecidableEq R] in
theorem Holds.among {W : Type} {M : Multiset R} {ts ts' : List (Task R)} {K : W → Prop} {x : Ledger R × W}
    (holds : Holds M ts K x) (same : ∀ t, t ∈ ts ↔ t ∈ ts') : Holds M ts' K x :=
  ⟨holds.clean, holds.mine, holds.single, fun t member => (same t).mp (holds.running t member),
    fun t member => holds.uses t ((same t).mpr member), holds.knows⟩

variable {S : Host Call Answer} {deal : (c : Call) → Answer c → Deal R}

/-- Nobody else changes what is known. -/
def Host.Stable (S : Host Call Answer) (K : S.World → Prop) : Prop := ∀ m w v, K w → S.move m w = some v → K v

/-- A program that, as long as it keeps track of its tasks, deals with its
own only and ends as wanted. -/
def Safely (S : Host Call Answer) (deal : (c : Call) → Answer c → Deal R) {α : Type} (p : Prog Call Answer α)
    (post : α → Ledger R × S.World → Prop) (x : Ledger R × S.World) : Prop :=
  (S.ledger deal).Ensures Careful p (fun a y => y.1.lost = false → post a y) x

theorem Deal.fair_running {d : Deal R} {mine : Multiset R} {ts running : List (Task R)} (fair : d.Fair mine ts)
    (some' : ∀ t ∈ running, t ∈ ts) : d.Fair mine running := by
  refine ⟨fair.needs, fair.gives, fun t member => fair.uses t ?_⟩
  rcases List.mem_append.mp member with new | old
  · exact List.mem_append_left _ new
  · obtain ⟨inside, kept⟩ := List.mem_filter.mp old
    exact List.mem_append_right _ (List.mem_filter.mpr ⟨some' t inside, kept⟩)

theorem ledger_act {c : Call} {choice : S.Choice} {x y : Ledger R × S.World} {a : Answer c}
    (acts : (S.ledger deal).act c choice x = some (a, y)) :
    S.act c choice x.2 = some (a, y.2) ∧ (deal c a).Possible x.1 ∧ y.1 = (deal c a).settle x.1 := by
  obtain ⟨⟨b, w⟩, acted, entered⟩ := Option.bind_eq_some_iff.mp acts
  obtain ⟨possible, same⟩ := Option.ite_none_right_eq_some.mp entered
  obtain ⟨rfl, rfl⟩ := Prod.mk.inj (Option.some.inj same)
  exact ⟨acted, possible, rfl⟩

theorem ledger_move_lost {m : (S.ledger deal).Move} {x y : Ledger R × S.World}
    (moves : (S.ledger deal).move m x = some y) :
    y.1.lost = x.1.lost ∧ y.1.spoiled = x.1.spoiled ∧ y.1.mine = x.1.mine ∧ ∀ t ∈ y.1.running, t ∈ x.1.running := by
  cases m with
  | inl name =>
    obtain rfl := Option.some.inj moves
    exact ⟨rfl, rfl, rfl, fun t member => List.mem_of_mem_filter member⟩
  | inr m =>
    obtain ⟨w, -, rfl⟩ := Option.map_eq_some_iff.mp moves
    exact ⟨rfl, rfl, rfl, fun t member => member⟩

theorem Holds.move {M : Multiset R} {ts : List (Task R)} {K : S.World → Prop} (stable : S.Stable K)
    {m : (S.ledger deal).Move} {x y : Ledger R × S.World} (holds : Holds M ts K x)
    (moves : (S.ledger deal).move m x = some y) : Holds M ts K y := by
  obtain ⟨-, spoiled, mine, fewer⟩ := ledger_move_lost moves
  refine ⟨spoiled.trans holds.clean, mine.trans holds.mine, holds.single,
    fun t member => holds.running t (fewer t member),
    holds.uses, ?_⟩
  cases m with
  | inl name =>
    obtain rfl := Option.some.inj moves
    exact holds.knows
  | inr m =>
    obtain ⟨w, moved, rfl⟩ := Option.map_eq_some_iff.mp moves
    exact stable m x.2 w holds.knows moved

/-- A call that is fair is entered as it should be. -/
theorem Holds.settle {M : Multiset R} {ts : List (Task R)} {K L : S.World → Prop} {d : Deal R}
    {x y : Ledger R × S.World}
    (holds : Holds M ts K x) (fair : d.Fair M ts) (possible : d.Possible x.1) (settled : y.1 = d.settle x.1)
    (knows : L y.2) : Holds (d.mine M) (d.tasks ts) L y := by
  obtain ⟨clean, rfl, single, running, -, -⟩ := holds
  refine ⟨?_, by rw [settled]; rfl, ?_, ?_, fair.uses, knows⟩
  · rw [settled, Deal.settle, clean, decide_eq_true (d.fair_running fair running)]
    rfl
  · exact Multiset.nodup_add.mpr ⟨Multiset.nodup_of_le (Multiset.sub_le_self _ _) single, possible.single,
      Multiset.disjoint_right.mpr fun new => (possible.fresh _ new).1⟩
  · intro t member
    rw [settled] at member
    rcases List.mem_append.mp member with new | old
    · exact List.mem_append_left _ new
    · obtain ⟨inside, kept⟩ := List.mem_filter.mp old
      exact List.mem_append_right _ (List.mem_filter.mpr ⟨running t inside, kept⟩)

namespace Safely

variable {α β : Type} {post : α → Ledger R × S.World → Prop} {x : Ledger R × S.World}

/-- Nothing is promised where the tasks are lost. -/
theorem lost {p : Prog Call Answer α} (gone : x.1.lost = true) : Safely S deal p post x := by
  have inside : ∀ y : Ledger R × S.World, y.1.lost = true → Careful y := fun y gone kept => by
    rw [gone] at kept
    cases kept
  refine (Host.Ensures.only (I := fun y : Ledger R × S.World => y.1.lost = true)
    (fun m y z still moves => ?_) inside
    (fun c choice a y z _ still acts => ?_) (Prog.Only.all p) gone).mono fun a y still kept => ?_
  · rw [(ledger_move_lost moves).1, still]
  · rw [(ledger_act acts).2.2, Deal.settle, still]
    rfl
  · rw [still] at kept
    cases kept

/-- Nobody loses track of tasks where no call does. -/
theorem never_lost {p q : Prog Call Answer α} {w v : (S.ledger deal).World}
    (never : ∀ c a, (deal c a).loses = false)
    (run : (S.ledger deal).Reaches p w q v) : v.1.lost = w.1.lost := by
  induction run with
  | refl => rfl
  | head first _ ih =>
    refine ih.trans ?_
    cases first with
    | call acts => rw [(ledger_act acts).2.2, Deal.settle, never, Bool.or_false]
    | turn => rfl
    | other moves => exact (ledger_move_lost moves).1

/-- It is enough to look where the tasks are not lost. -/
theorem kept {p : Prog Call Answer α} (holds : x.1.lost = false → Safely S deal p post x) :
    Safely S deal p post x := by
  cases known : x.1.lost with
  | true => exact lost known
  | false => exact holds known

theorem mono {p : Prog Call Answer α} {post' : α → Ledger R × S.World → Prop} (weaker : ∀ a y, post a y → post' a y)
    (safely : Safely S deal p post x) : Safely S deal p post' x :=
  Host.Ensures.mono (fun a y wanted kept => weaker a y (wanted kept)) safely

theorem bind {p : Prog Call Answer β} {f : β → Prog Call Answer α}
    (safely : Safely S deal p (fun b y => Safely S deal (f b) post y) x) : Safely S deal (p >>= f) post x :=
  Host.Ensures.bind (Host.Ensures.mono (fun _ _ wanted => kept wanted) safely)

/-- What is promised holds in every run. -/
theorem reaches {p q : Prog Call Answer α} {y : Ledger R × S.World} (safely : Safely S deal p post x)
    (run : (S.ledger deal).Reaches p x q y) : Careful y ∧ ∀ a, q = .done a → y.1.lost = false → post a y := by
  have later := Host.Ensures.reaches safely run
  refine ⟨later.now, fun a same stays => ?_⟩
  subst same
  exact (later y .refl).2 stays

/-- A sequence, its first part by what is known behind it. -/
theorem andThen {p : Prog Call Answer β} {f : β → Prog Call Answer α} {mid : β → Ledger R × S.World → Prop}
    (first : Safely S deal p mid x) (second : ∀ b y, mid b y → Safely S deal (f b) post y) :
    Safely S deal (p >>= f) post x := bind (first.mono second)

theorem done {M : Multiset R} {ts : List (Task R)} {K : S.World → Prop} {a : α} (holds : Holds M ts K x)
    (stable : S.Stable K) (wanted : ∀ y, Holds M ts K y → post a y) : Safely S deal (Prog.done a) post x :=
  Host.Ensures.pure (I := Holds M ts K) (fun _ _ _ holds moves => holds.move stable moves)
    (fun _ holds _ => holds.clean) holds fun y holds _ => wanted y holds

/-- A call that deals with what is there, whatever it answers. -/
theorem ask {M : Multiset R} {ts : List (Task R)} {K : S.World → Prop} {c : Call}
    {f : Answer c → Prog Call Answer α}
    {L : Answer c → S.World → Prop} (holds : Holds M ts K x) (stable : S.Stable K)
    (fair : ∀ a, (deal c a).loses = false → (deal c a).Fair M ts)
    (acts : ∀ choice a w v, K w → S.act c choice w = some (a, v) → L a v)
    (next : ∀ a y, (deal c a).loses = false → Holds ((deal c a).mine M) ((deal c a).tasks ts) (L a) y →
      Safely S deal (f a) post y) : Safely S deal (Prog.ask c >>= f) post x := by
  refine Host.Ensures.ask (I := Holds M ts K) (fun _ _ _ holds moves => holds.move stable moves)
    (fun _ holds _ => holds.clean) holds fun choice a v y holds acted => ?_
  obtain ⟨done, possible, settled⟩ := ledger_act acted
  refine kept fun stays => ?_
  cases known : (deal c a).loses with
  | true =>
    rw [settled, Deal.settle, known, Bool.or_true] at stays
    cases stays
  | false =>
    exact next a y known (holds.settle (fair a known) possible settled (acts choice a _ _ holds.knows done))

theorem Deal.fair_exchange {N G T F : Multiset R} {ts : List (Task R)} (needs : ∀ r ∈ N, r ∈ G + F)
    (kept : Kept ts F) :
    ({ needs := N, gives := G, takes := T } : Deal R).Fair (G + F) ts ∧
      ({ needs := N, gives := G, takes := T } : Deal R).mine (G + F) = T + F ∧
      ({ needs := N, gives := G, takes := T } : Deal R).tasks ts = ts := by
  have mine : ({ needs := N, gives := G, takes := T } : Deal R).mine (G + F) = T + F := by
    rw [Deal.mine, Deal.owned, Option.elim_none, add_zero, add_tsub_cancel_left, add_comm]
  have tasks : ({ needs := N, gives := G, takes := T } : Deal R).tasks ts = ts := by
    rw [Deal.tasks, Option.toList_none, List.nil_append, List.filter_eq_self]
    exact fun t _ => rfl
  refine ⟨⟨needs, ?_, fun t member r used => ?_⟩, mine, tasks⟩
  · rw [Deal.owned, Option.elim_none, add_zero]
    exact Multiset.le_add_right _ _
  · rw [tasks] at member
    rw [mine]
    exact Multiset.mem_add.mpr (.inr (kept t member r used))

/-- A call that gives one thing for another. -/
theorem exchange {N G F : Multiset R} {ts : List (Task R)} {K : S.World → Prop} {c : Call}
    {f : Answer c → Prog Call Answer α} {T : Answer c → Multiset R} {L : Answer c → S.World → Prop}
    (holds : Holds (G + F) ts K x) (stable : S.Stable K)
    (deals : ∀ a, (deal c a).loses = false → deal c a = { needs := N, gives := G, takes := T a })
    (needs : ∀ r ∈ N, r ∈ G + F) (kept : Kept ts F)
    (acts : ∀ choice a w v, K w → S.act c choice w = some (a, v) → L a v)
    (next : ∀ a y, (deal c a).loses = false → Holds (T a + F) ts (L a) y → Safely S deal (f a) post y) :
    Safely S deal (Prog.ask c >>= f) post x := by
  refine ask holds stable (fun a stays => ?_) acts fun a y stays later => next a y stays ?_
  · rw [deals a stays]
    exact (Deal.fair_exchange needs kept).1
  · obtain ⟨-, mine, tasks⟩ := Deal.fair_exchange (T := T a) needs kept
    rw [deals a stays, mine, tasks] at later
    exact later

/-- A call that starts a task, where it does. -/
theorem start {F : Multiset R} {ts : List (Task R)} {K : S.World → Prop} {c : Call}
    {f : Answer c → Prog Call Answer α}
    {O U : Multiset R} {n : Answer c → Option R} {L : Answer c → S.World → Prop} (holds : Holds (O + F) ts K x)
    (stable : S.Stable K)
    (deals : ∀ a, deal c a = (n a).elim {} fun t => { takes := {t}, starts := some ⟨t, O, U⟩ }) (kept : Kept ts F)
    (used : ∀ r ∈ U, r ∈ F) (acts : ∀ choice a w v, K w → S.act c choice w = some (a, v) → L a v)
    (failed : ∀ a y, n a = none → Holds (O + F) ts (L a) y → Safely S deal (f a) post y)
    (started : ∀ a t y, n a = some t → Holds ({t} + F) (⟨t, O, U⟩ :: ts) (L a) y → Safely S deal (f a) post y) :
    Safely S deal (Prog.ask c >>= f) post x := by
  have none' := @Deal.fair_exchange R _ 0 0 0 (O + F) ts
    (fun _ none' => absurd none' (Multiset.notMem_zero _)) holds.uses
  rw [zero_add] at none'
  have mine : ∀ t : R, ({ takes := {t}, starts := some ⟨t, O, U⟩ } : Deal R).mine (O + F) = {t} + F := fun t => by
    rw [Deal.mine, Deal.owned, Option.elim_some, zero_add, add_tsub_cancel_left, add_comm]
  have tasks : ∀ t : R, ({ takes := {t}, starts := some ⟨t, O, U⟩ } : Deal R).tasks ts = ⟨t, O, U⟩ :: ts :=
    fun t => by
      rw [Deal.tasks, Option.toList_some, List.singleton_append, List.cons.injEq, List.filter_eq_self]
      exact ⟨rfl, fun _ _ => rfl⟩
  refine ask holds stable (fun a _ => ?_) acts fun a y _ later => ?_
  · rw [deals a]
    cases n a with
    | none => exact none'.1
    | some t =>
      refine ⟨fun _ none' => absurd none' (Multiset.notMem_zero _), ?_, fun t' member r use => ?_⟩
      · rw [Option.elim_some, Deal.owned, Option.elim_some, zero_add]
        exact Multiset.le_add_right _ _
      · rw [Option.elim_some, tasks] at member
        rw [Option.elim_some, mine, Multiset.mem_add]
        rcases List.mem_cons.mp member with rfl | old
        · exact .inr (used r use)
        · exact .inr (kept t' old r use)
  · rw [deals a] at later
    cases known : n a with
    | none =>
      rw [known, Option.elim_none, none'.2.1, none'.2.2] at later
      exact failed a y known later
    | some t =>
      rw [known, Option.elim_some, mine, tasks] at later
      exact started a t y known later

/-- A task that is waited for is one of those that have ended. -/
theorem join {M : Multiset R} {ts ts' : List (Task R)} {K : S.World → Prop} {c : Call}
    {f : Answer c → Prog Call Answer α}
    {name : R} {N : Multiset R} {L : Answer c → S.World → Prop} (holds : Holds M ts K x) (stable : S.Stable K)
    (deals : ∀ a, (deal c a).loses = false → deal c a = { needs := N, joins := some name }) (needs : ∀ r ∈ N, r ∈ M)
    (acts : ∀ choice a w v, K w → S.act c choice w = some (a, v) → L a v)
    (left : ∀ t ∈ ts, t.name ≠ name → t ∈ ts') (fewer : ∀ t ∈ ts', t ∈ ts)
    (next : ∀ a y, (deal c a).loses = false → Holds M ts' (L a) y → Safely S deal (f a) post y) :
    Safely S deal (Prog.ask c >>= f) post x := by
  have mine : ({ needs := N, joins := some name } : Deal R).mine M = M := by
    change M - (0 + 0) + 0 = M
    rw [add_zero, add_zero, tsub_zero]
  have tasks : ∀ t ∈ ({ needs := N, joins := some name } : Deal R).tasks ts, t ∈ ts ∧ t.name ≠ name :=
    fun t member => by
    rw [Deal.tasks, Option.toList_none, List.nil_append, List.mem_filter, decide_eq_true_eq] at member
    exact ⟨member.1, fun same => member.2 (congrArg some same.symm)⟩
  refine ask holds stable (fun a stays => ?_) acts fun a y stays later => next a y stays ?_
  · rw [deals a stays]
    refine ⟨needs, ?_, fun t member r use => ?_⟩
    · rw [Deal.owned, Option.elim_none, add_zero]
      exact Multiset.zero_le _
    · rw [mine]
      exact holds.uses t (tasks t member).1 r use
  · rw [deals a stays] at later
    obtain ⟨clean, same, single, running, -, knows⟩ := later
    rw [mine] at same single
    refine ⟨clean, same, single, fun t member => ?_, fun t member => holds.uses t (fewer t member), knows⟩
    obtain ⟨inside, other⟩ := tasks t (running t member)
    exact left t inside other

/-- A loop whose turns keep what is known, until one is the last. -/
theorem iterate {σ : Type} {body : σ → Prog Call Answer (σ ⊕ β)} {f : β → Prog Call Answer α} {s : σ}
    (M : σ → Multiset R) (ts : σ → List (Task R)) (K : σ → S.World → Prop) (stable : ∀ s, S.Stable (K s))
    (holds : Holds (M s) (ts s) (K s) x)
    (turn : ∀ s y, Holds (M s) (ts s) (K s) y → Safely S deal (body s)
      (fun r z => Sum.elim (fun s => Holds (M s) (ts s) (K s) z) (fun b => Safely S deal (f b) post z) r) y) :
    Safely S deal (Prog.iterate body s >>= f) post x := by
  have inside : ∀ y, Holds (M s) (ts s) (K s) y → Careful y := fun y holds _ => holds.clean
  refine ⟨fun s y => y.1.lost = false → Holds (M s) (ts s) (K s) y, fun y drifts => ?_, fun s y holds => ?_⟩
  · have still := drifts.invariant (fun _ _ _ holds moves => holds.move (stable s) moves) holds
    exact ⟨inside y still, fun _ => still⟩
  · refine Host.Ensures.mono (fun r z wanted => ?_) (kept fun stays => turn s y (holds stays))
    cases r with
    | inl s => exact wanted
    | inr b => exact kept wanted

end Safely

end

section

variable {Call : Type} {Answer : Call → Type} {R W : Type}

/-- All of it is known: what is held, and how the world is. -/
abbrev Exactly (M : Multiset R) (w : W) (x : Ledger R × W) : Prop := Holds M [] (fun v => v = w) x

theorem Exactly.swap {M N : Multiset R} {w : W} {x : Ledger R × W} (has : Exactly M w x) (same : M = N) :
    Exactly N w x :=
  same ▸ has

/-- What is new is nobody else's. -/
theorem Exactly.fresh {r : R} {F : Multiset R} {w : W} {x : Ledger R × W} (has : Exactly ({r} + F) w x) : r ∉ F :=
  (Multiset.nodup_cons.mp has.single).1

/-- What is known of a world is so of the world there is. -/
theorem Holds.exactly {M : Multiset R} {K : W → Prop} {x : Ledger R × W} (holds : Holds M [] K x) :
    Exactly M x.2 x ∧ K x.2 :=
  ⟨⟨holds.clean, holds.mine, holds.single, holds.running, holds.uses, rfl⟩, holds.knows⟩

/-- A host that nobody else changes, whose calls do what an effect says. -/
structure Host.Follows (S : Host Call Answer) (effect : S.World → (c : Call) → Answer c → Option S.World) :
    Prop where
  still : ∀ K, S.Stable K
  acts : ∀ c choice w a v, S.act c choice w = some (a, v) → effect w c a = some v

namespace Host.Follows

variable {α : Type} [DecidableEq R] {S : Host Call Answer} {deal : (c : Call) → Answer c → Deal R}
  {effect : S.World → (c : Call) → Answer c → Option S.World} {x : Ledger R × S.World} {w : S.World}
    {N G F : Multiset R}
  {post : α → Ledger R × S.World → Prop} {c : Call} {f : Answer c → Prog Call Answer α}
    {T : Answer c → Multiset R} {r : R}

theorem call (follows : S.Follows effect) (has : Exactly (G + F) w x)
    (deals : ∀ a, deal c a = { needs := N, gives := G, takes := T a }) (needs : ∀ r ∈ N, r ∈ G + F)
    (next : ∀ a v y, effect w c a = some v → Exactly (T a + F) v y → Safely S deal (f a) post y) :
    Safely S deal (Prog.ask c >>= f) post x := by
  have idle : Kept ([] : List (Task R)) F := fun _ none' => absurd none' List.not_mem_nil
  refine Safely.exchange (L := fun a v => effect w c a = some v) has (follows.still _)
    (fun a _ => deals a) needs idle
    (fun choice a u v known acted => ?_) fun a y _ later => next a y.2 y later.knows later.exactly.1
  obtain rfl : u = w := known
  exact follows.acts c choice u a v acted

/-- A call that gives something back and changes nothing. -/
theorem give (follows : S.Follows effect) (has : Exactly ({r} + F) w x) (deals : ∀ a, deal c a = { gives := {r} })
    (quiet : ∀ a, effect w c a = some w) (next : ∀ a y, Exactly F w y → Safely S deal (f a) post y) :
    Safely S deal (Prog.ask c >>= f) post x := by
  refine follows.call (N := 0) (T := fun _ => 0) has deals (fun _ none' => absurd none' (Multiset.notMem_zero _))
    fun a v y effect later => next a y ?_
  obtain rfl := Option.some.inj ((quiet a).symm.trans effect)
  exact later.swap (zero_add F)

/-- A call that works with what is held. -/
theorem use (follows : S.Follows effect) (has : Exactly F w x) (deals : ∀ a, deal c a = { needs := N })
    (needs : ∀ r ∈ N, r ∈ F)
    (next : ∀ a v y, effect w c a = some v → Exactly F v y → Safely S deal (f a) post y) :
    Safely S deal (Prog.ask c >>= f) post x := by
  refine follows.call (G := 0) (T := fun _ => 0) (has.swap (zero_add F).symm) deals (fun r member => ?_)
    fun a v y effect later => next a v y effect (later.swap (zero_add F))
  rw [zero_add]
  exact needs r member

/-- A call that makes something. -/
theorem take (follows : S.Follows effect) (has : Exactly F w x)
    (deals : ∀ a, deal c a = { needs := N, takes := T a })
    (needs : ∀ r ∈ N, r ∈ F) (next : ∀ a v y, effect w c a = some v → Exactly (T a + F) v y →
      Safely S deal (f a) post y) :
    Safely S deal (Prog.ask c >>= f) post x := by
  refine follows.call (G := 0) (has.swap (zero_add F).symm) deals (fun r member => ?_) next
  rw [zero_add]
  exact needs r member

theorem done (follows : S.Follows effect) {a : α} (has : Exactly F w x) (wanted : ∀ y, Exactly F w y → post a y) :
    Safely S deal (pure a) post x := Safely.done has (follows.still _) wanted

end Host.Follows

end

end Machteld
