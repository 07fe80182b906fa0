import Mathlib.Logic.Function.Basic
import Machteld.Pool.Batch
import Machteld.Pool.Deliver

namespace Machteld

/-- A pool with its pipes: how many requests each worker has read, and the
lines on its stdout that `PoolReadable` has not read. -/
structure Wire where
  pool : Pool
  answered : Child → Nat
  stdout : Child → List Bytes

def newWire (s : Pool) : Wire := ⟨s, fun _ => 0, fun _ => []⟩

/-- The requests written to a worker, oldest first. -/
def sentTo (s : Pool) (c : Child) : List PoolItem := (s.sent.filter fun e => e.1 = c).map Prod.snd

/-- A worker answers the next request, or writes a line at any time. -/
inductive WireEvent
  | director (e : PoolEvent)
  | receive (spawn : Option Bytes) (failures : List (Option Bytes))
  | answer (c : Child) (line : Bytes)
  | write (c : Child) (line : Bytes)

def WireEvent.written : WireEvent → Option (Child × Bytes)
  | .answer c line => some (c, line)
  | .write c line => some (c, line)
  | _ => none

/-- What `gets` makes of a complete line. -/
def receiveLine (line : Bytes) : Gets :=
  match channelRead line with
  | some text => .line text
  | none => .raised

def Wire.put (w : Wire) (c : Child) (line : Bytes) : Wire :=
  { w with stdout := Function.update w.stdout c (w.stdout c ++ [line]) }

section

variable (yy : Yyjson) (tcl : Tcl)

/-- Lines reach the director through the pipes only. -/
def fromPipe : PoolEvent → Bool
  | .gets (.line _) _ _ => true
  | _ => false

/-- A pool step after which only requests the channel takes were written. -/
def Wire.direct (w : Wire) (e : PoolEvent) : Option Pool :=
  (poolStep yy tcl w.pool e).filter fun s => s.sent.all fun sent => (requestLine yy tcl sent.2).isSome

def wireStep (w : Wire) : WireEvent → Option Wire
  | .director e => if fromPipe e then none else (w.direct yy tcl e).map fun s => { w with pool := s }
  | .receive spawn failures =>
    w.pool.control.bind fun c =>
      match w.stdout c with
      | [] => none
      | line :: rest =>
        (w.direct yy tcl (.gets (receiveLine line) spawn failures)).map fun s =>
          { w with pool := s, stdout := Function.update w.stdout c rest }
  | .answer c line =>
    if w.answered c < (sentTo w.pool c).length then
      some ({ w with answered := Function.update w.answered c (w.answered c + 1) }.put c line)
    else none
  | .write c line => some (w.put c line)

def wireRun (w : Wire) : List WireEvent → Option Wire
  | [] => some w
  | e :: events => (wireStep yy tcl w e).bind fun w => wireRun w events

/-- A worker wrote the reply while the item was in flight on it. -/
def WrittenInFlight (w₀ : Wire) (events : List WireEvent) (k : Nat) (rep : PoolReply) : Prop :=
  ∃ before e after w c line item text, events = before ++ e :: after ∧ e.written = some (c, line) ∧
    wireRun yy tcl w₀ before = some w ∧ dictGet c w.pool.inflight = some item ∧ item.id = k ∧
    channelRead line = some text ∧ readReply yy tcl text = some rep

end

section

variable {yy : Yyjson} {tcl : Tcl}

theorem Wire.direct_some {w : Wire} {e : PoolEvent} {s : Pool} (directed : w.direct yy tcl e = some s) :
    poolStep yy tcl w.pool e = some s := (Option.filter_eq_some_iff.mp directed).1

/-- With its pipes left out, a step is one of the pool or none. -/
theorem wireStep_pool {w w' : Wire} {e : WireEvent} (stepped : wireStep yy tcl w e = some w') :
    w'.pool = w.pool ∨ ∃ e', poolStep yy tcl w.pool e' = some w'.pool := by
  cases e with
  | director e =>
    simp only [wireStep] at stepped
    split_ifs at stepped
    obtain ⟨s, directed, rfl⟩ := Option.map_eq_some_iff.mp stepped
    exact Or.inr ⟨e, Wire.direct_some directed⟩
  | receive spawn failures =>
    obtain ⟨c, _, read⟩ := Option.bind_eq_some_iff.mp stepped
    split at read
    · cases read
    · obtain ⟨s, directed, rfl⟩ := Option.map_eq_some_iff.mp read
      exact Or.inr ⟨_, Wire.direct_some directed⟩
  | answer c line =>
    simp only [wireStep] at stepped
    split_ifs at stepped
    obtain rfl := Option.some.inj stepped
    exact Or.inl rfl
  | write c line =>
    obtain rfl := Option.some.inj stepped
    exact Or.inl rfl

/-- Every run with pipes is a run of the pool. -/
theorem wireRun_poolRun {events : List WireEvent} {w w' : Wire} (ran : wireRun yy tcl w events = some w') :
    ∃ events', poolRun yy tcl w.pool events' = some w'.pool := by
  induction events generalizing w with
  | nil =>
    obtain rfl := Option.some.inj ran
    exact ⟨[], rfl⟩
  | cons e events ih =>
    obtain ⟨w₁, stepped, rest⟩ := Option.bind_eq_some_iff.mp ran
    obtain ⟨events', later⟩ := ih rest
    obtain same | ⟨e', here⟩ := wireStep_pool stepped
    · exact ⟨events', same ▸ later⟩
    · exact ⟨e' :: events', by simp only [poolRun, here, Option.bind_some, later]⟩

/-- A line with a reply to the item of its worker is received as that reply.
-/
theorem wireStep_receive {w : Wire} {c : Child} {line text : Bytes} {rest : List Bytes} {rep : PoolReply}
    {item : PoolItem}
    (control : w.pool.control = some c) (next : w.stdout c = line :: rest) (received : channelRead line = some text)
    (nonempty : text ≠ []) (read : readReply yy tcl text = some rep) (held : dictGet c w.pool.inflight = some item)
    (same : getString yy tcl rep.id = decimal item.id) (spawn : Option Bytes) (failures : List (Option Bytes)) :
    wireStep yy tcl w (.receive spawn failures) =
      ((some (poolFeed failures (poolReceive w.pool c rep) c)).filter fun s =>
        s.sent.all fun sent => (requestLine yy tcl sent.2).isSome).map fun s =>
          { w with pool := s, stdout := Function.update w.stdout c rest } := by
  have turn := poolTurn_accepts nonempty read held same spawn failures
  simp only [wireStep, control, next, Option.bind_some, Wire.direct, poolStep, Option.map_some,
    receiveLine, received, turn]

end

/-- The worker of a new pool writes both replies of a batch of two at once.
-/
def earlyEvents : List WireEvent :=
  [.director (.submit twoItems fun _ => []), .write 0 (earlyLine "0"), .write 0 (earlyLine "1"),
    .director (.readable 0 true none []), .receive none [], .receive none [],
      .director (.gets (.dry false) none [])]

def earlyDone : Pool :=
  { earlyFed with
    pending := [], inflight := [], results := [earlyRep "0", earlyRep "1"], done := true,
    sent := [(0, goItem 0), (0, goItem 1)] }

theorem early_fed : wireStep referenceYyjson wordTcl (newWire lonePool) (.director (.submit twoItems fun _ => [])) =
    some { newWire lonePool with pool := earlyFed } := rfl

theorem early_run : ∃ w, wireRun referenceYyjson wordTcl (newWire lonePool) earlyEvents = some w ∧
    w.pool = earlyDone := by
  have read0 : readReply referenceYyjson wordTcl (earlyLine "0") = some (earlyRep "0") :=
    earlyLine_read wordTcl_spec (by decide) rfl
  have read1 : readReply referenceYyjson wordTcl (earlyLine "1") = some (earlyRep "1") :=
    earlyLine_read wordTcl_spec (by decide) rfl
  have received0 : channelRead (earlyLine "0") = some (earlyLine "0") := channelRead_plain (by decide) (by decide)
  have received1 : channelRead (earlyLine "1") = some (earlyLine "1") := channelRead_plain (by decide) (by decide)
  refine ⟨_, Option.bind_eq_some_iff.mpr ⟨_, early_fed, Option.bind_eq_some_iff.mpr ⟨_, rfl,
    Option.bind_eq_some_iff.mpr ⟨_, rfl, Option.bind_eq_some_iff.mpr ⟨_, rfl, Option.bind_eq_some_iff.mpr
      ⟨_, (wireStep_receive rfl rfl received0 (List.cons_ne_nil _ _) read0 rfl rfl none []).trans rfl,
        Option.bind_eq_some_iff.mpr
          ⟨_, (wireStep_receive rfl rfl received1 (List.cons_ne_nil _ _) read1 rfl rfl none []).trans rfl,
            Option.bind_eq_some_iff.mpr ⟨_, rfl, rfl⟩⟩⟩⟩⟩⟩⟩, rfl⟩

/-- Both replies were written while the first item was in flight. -/
theorem early_written {rep : PoolReply} :
    ¬ WrittenInFlight referenceYyjson wordTcl (newWire lonePool) earlyEvents 1 rep := by
  rintro ⟨before, e, after, w, c, line, item, text, split, written, ran, held, second, _⟩
  have first : ∀ {w : Wire}, w.pool = earlyFed → dictGet c w.pool.inflight = some item → False := by
    intro w fed held
    rw [fed] at held
    simp only [earlyFed, dictGet] at held
    split_ifs at held
    obtain rfl := Option.some.inj held
    exact absurd second (by decide)
  rcases before with _ | ⟨e₀, _ | ⟨e₁, _ | ⟨e₂, before⟩⟩⟩
  · obtain ⟨rfl, _⟩ := List.cons.inj split
    cases written
  · obtain ⟨rfl, _⟩ := List.cons.inj split
    obtain ⟨w₁, stepped, rest⟩ := Option.bind_eq_some_iff.mp ran
    obtain rfl := Option.some.inj (early_fed.symm.trans stepped)
    obtain rfl := Option.some.inj rest
    exact first rfl held
  · obtain ⟨rfl, tail⟩ := List.cons.inj split
    obtain ⟨rfl, _⟩ := List.cons.inj tail
    obtain ⟨w₁, stepped, rest⟩ := Option.bind_eq_some_iff.mp ran
    obtain rfl := Option.some.inj (early_fed.symm.trans stepped)
    obtain rfl := Option.some.inj rest
    exact first rfl held
  · obtain ⟨_, rest⟩ := List.cons.inj split
    obtain ⟨_, rest⟩ := List.cons.inj rest
    obtain ⟨_, rest⟩ := List.cons.inj rest
    have shape : earlyEvents.drop 3 = before ++ e :: after := rest
    have member : e ∈ earlyEvents.drop 3 := shape ▸ List.mem_append_right _ (List.mem_cons_self ..)
    have quiet : ∀ e ∈ earlyEvents.drop 3, e.written = none := by
      refine List.forall_mem_cons.mpr ⟨rfl, List.forall_mem_cons.mpr ⟨rfl, List.forall_mem_cons.mpr ⟨rfl, ?_⟩⟩⟩
      exact List.forall_mem_singleton.mpr rfl
    rw [quiet e member] at written
    cases written

/-- The second reply is returned for the second item, on which no worker had
it in flight when it was written. -/
theorem poolWait_early : ∃ w replies rep,
    wireRun referenceYyjson wordTcl (newWire lonePool) earlyEvents = some w ∧ w.pool.done = true ∧
      w.pool.fatal = [] ∧
      poolWait referenceYyjson wordTcl w.pool (.done w.pool) = .ok replies ∧ replies[1]? = some rep ∧
        ¬ Poisoned 1 rep ∧
      ¬ WrittenInFlight referenceYyjson wordTcl (newWire lonePool) earlyEvents 1 rep := by
  obtain ⟨w, ran, pool⟩ := early_run
  refine ⟨w, [earlyRep "0", earlyRep "1"], earlyRep "1", ran, ?_⟩
  rw [pool]
  refine ⟨rfl, rfl, rfl, rfl, ?_, early_written⟩
  rintro ⟨tries, same⟩
  exact absurd (congrArg (·.reply.length) same) (show ¬ 2 = 4 by decide)

end Machteld
