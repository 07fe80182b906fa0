import Machteld.Worker.Serve

namespace Machteld

/-- Every item a pool deals with is of some kind. -/
structure Pool.Among (kind : PoolItem → Prop) (s : Pool) : Prop where
  pending : ∀ item ∈ s.pending, kind item
  inflight : ∀ e ∈ s.inflight, kind e.2
  sent : ∀ e ∈ s.sent, kind e.2

/-- Every reply is of some kind, or of an item that cost workers their
lives. -/
def Pool.Heard (kind : PoolReply → Prop) (s : Pool) : Prop :=
  ∀ rep ∈ s.results, (0 < s.dead ∧ ∃ k, Poisoned k rep) ∨ kind rep

section

variable {kind : PoolItem → Prop} {s s' : Pool}

theorem Pool.Among.lost (among : s.Among kind) (c : Child) : (poolLost s c).Among kind := by
  have fewer : ∀ e ∈ dictRemove c s.inflight, kind e.2 :=
    fun e member => among.inflight e (mem_dictRemove.mp member).1
  cases held : dictGet c s.inflight with
  | none => rw [poolLost_idle held]; exact ⟨among.pending, fewer, among.sent⟩
  | some item =>
    by_cases low : (dictGet item.id s.tries).getD 0 + 1 < s.maxtries
    · rw [poolLost_requeued held low]
      exact ⟨List.forall_mem_cons.mpr ⟨among.inflight _ (mem_of_dictGet held), among.pending⟩, fewer, among.sent⟩
    · rw [poolLost_poisoned held low]
      exact ⟨among.pending, fewer, among.sent⟩

/-- A move takes items from one place to another and makes none. -/
theorem Pool.Among.move (among : s.Among kind) (moved : PoolMove s s') : s'.Among kind := by
  cases moved with
  | finished => exact ⟨among.pending, among.inflight, among.sent⟩
  | taken _ _ next =>
    have both := among.pending
    rw [next] at both
    obtain ⟨here, later⟩ := List.forall_mem_cons.mp both
    exact ⟨later, forall_mem_dictPut (p := fun e => kind e.2) here among.inflight, among.sent⟩
  | written held =>
    exact ⟨among.pending, among.inflight, List.forall_mem_append.mpr
      ⟨among.sent, List.forall_mem_singleton.mpr (among.inflight _ (mem_of_dictGet held))⟩⟩
  | lost => exact among.lost _
  | spawned => exact ⟨among.pending, among.inflight, among.sent⟩
  | stuck => exact ⟨among.pending, among.inflight, among.sent⟩
  | noted => exact ⟨among.pending, among.inflight, among.sent⟩

theorem Pool.Among.moves (among : s.Among kind) (moved : Pool.Moves s s') : s'.Among kind := by
  induction moved with
  | refl => exact among
  | tail _ last ih => exact ih.move last

theorem Pool.Heard.lost {kind : PoolReply → Prop} (heard : s.Heard kind) (c : Child) :
    (poolLost s c).Heard kind := by
  have later : ∀ rep ∈ s.results, (0 < s.dead + 1 ∧ ∃ k, Poisoned k rep) ∨ kind rep := fun rep member =>
    (heard rep member).imp_left fun poisoned => ⟨Nat.succ_pos _, poisoned.2⟩
  cases held : dictGet c s.inflight with
  | none => rw [poolLost_idle held]; exact later
  | some item =>
    by_cases low : (dictGet item.id s.tries).getD 0 + 1 < s.maxtries
    · rw [poolLost_requeued held low]
      exact later
    · rw [poolLost_poisoned held low]
      exact List.forall_mem_append.mpr
        ⟨later, List.forall_mem_singleton.mpr (.inl ⟨Nat.succ_pos _, item.id, _, rfl⟩)⟩

/-- A move adds no reply but that of an item that has run out of tries. -/
theorem Pool.Heard.moves {kind : PoolReply → Prop} (heard : s.Heard kind) (moved : Pool.Moves s s') :
    s'.Heard kind := by
  induction moved with
  | refl => exact heard
  | tail _ last ih =>
    cases last with
    | lost => exact ih.lost _
    | _ => exact ih

end

section

variable (yy : Yyjson) (tcl : Tcl) (ops : List (Bytes × Handler))

/-- The workers all run `worker serve` with one table of operations; they
may die at any time, and writes to them may fail. -/
def ServedStep (w : Wire) : WireEvent → Prop
  | .answer c line =>
    (workerServe yy tcl ops ((sentTo w.pool c).filterMap (requestLine yy tcl)))[w.answered c]? = some line
  | .write _ _ => False
  | _ => True

def ServedRun : Wire → List WireEvent → Prop
  | _, [] => True
  | w, e :: events => ServedStep yy tcl ops w e ∧ ∀ w', wireStep yy tcl w e = some w' → ServedRun w' events

/-- A line that a worker wrote for an item of the batch. -/
def ServesItem (pend : List PoolItem) (line : Bytes) (item : PoolItem) : Prop :=
  item ∈ pend ∧ ∃ request, requestLine yy tcl item = some request ∧ Serves yy tcl ops request line

/-- A reply read from such a line. -/
def ServedFor (pend : List PoolItem) (rep : PoolReply) : Prop :=
  ∃ item line text, ServesItem yy tcl ops pend line item ∧ channelRead line = some text ∧
    readReply yy tcl text = some rep

/-- The batch is the one that is submitted. -/
def SubmitsOnly (pend : List PoolItem) : WireEvent → Prop
  | .director (.submit items _) =>
    ∀ its pend', listElements tcl items = .ok its → poolItems yy tcl 0 its = .ok pend' →
      pend' = pend
  | _ => True

structure Wire.Served (pend : List PoolItem) (w : Wire) : Prop where
  conserved : w.pool.Conserved yy tcl
  among : w.pool.Among fun item => item ∈ pend
  stdout : ∀ c, ∀ line ∈ w.stdout c, ∃ item, ServesItem yy tcl ops pend line item
  heard : w.pool.Heard (ServedFor yy tcl ops pend)
  count : w.pool.submittedOnce = true → w.pool.submitted = pend.length

end

section

variable {yy : Yyjson} {tcl : Tcl} {ops : List (Bytes × Handler)} {pend : List PoolItem}

namespace Wire.Served

theorem moves {w : Wire} (served : w.Served yy tcl ops pend) {s : Pool} (conserved : s.Conserved yy tcl)
    (moved : Pool.Moves w.pool s) : Wire.Served yy tcl ops pend { w with pool := s } :=
  ⟨conserved, served.among.moves moved, served.stdout, served.heard.moves moved, fun once =>
    moved.sameBatch.submitted.trans (served.count (moved.sameBatch.once.symm.trans once))⟩

/-- The batch that is submitted is the one that is served. -/
theorem submit {w : Wire} (served : w.Served yy tcl ops pend) {items : Obj} {failures : Child → List (Option Bytes)}
    {s : Pool} (only : SubmitsOnly yy tcl pend (.director (.submit items failures)))
    (submitted : poolSubmit yy tcl w.pool items failures = .ok s) :
    Wire.Served yy tcl ops pend { w with pool := s } := by
  obtain ⟨unsent, its, pend', read, numbered, rfl⟩ := poolSubmit_ok submitted
  obtain ⟨pending, inflight, results, first⟩ := served.conserved.unsubmitted unsent
  have accepted := (served.conserved.accepted unsent numbered).1
  rw [first] at numbered
  obtain rfl := only its pend' read numbered
  have fed := feedAll_moves failures served.conserved.distinct accepted fun c member => member
  have batch : (poolAccept w.pool pend').Among fun item => item ∈ pend' := by
    refine ⟨fun item member => ?_, ?_, served.among.sent⟩
    · rw [poolAccept, pending] at member
      exact member
    · rw [poolAccept, inflight]
      exact List.forall_mem_nil _
  have silent : (poolAccept w.pool pend').Heard (ServedFor yy tcl ops pend') := by
    rw [Pool.Heard, poolAccept, results]
    exact List.forall_mem_nil _
  refine ⟨accepted.moves fed, batch.moves fed, served.stdout, silent.moves fed,
    fun _ => fed.sameBatch.submitted.trans ?_⟩
  change w.pool.nextid + pend'.length = pend'.length
  rw [first, Nat.zero_add]

/-- What the director does alone is of the same batch. -/
theorem direct {w : Wire} (served : w.Served yy tcl ops pend) {e : PoolEvent} {s : Pool}
    (only : SubmitsOnly yy tcl pend (.director e)) (pipeless : fromPipe e = false)
    (stepped : poolStep yy tcl w.pool e = some s) : Wire.Served yy tcl ops pend { w with pool := s } := by
  have conserved := poolStep_conserved served.conserved stepped
  obtain moved | ⟨text, spawn, failures, c, item, rep, rfl, -⟩ | ⟨items, failures, rfl, submitted⟩ :=
    poolStep_cases served.conserved stepped
  · exact served.moves conserved moved
  · cases pipeless
  · exact served.submit only submitted

/-- A reply that is read is what the worker made of the item it was sent, as
the pipe hands its lines over in their order. -/
theorem receive {w w' : Wire} (served : w.Served yy tcl ops pend) {spawn : Option Bytes}
    {failures : List (Option Bytes)}
    (stepped : wireStep yy tcl w (.receive spawn failures) = some w') : w'.Served yy tcl ops pend := by
  obtain ⟨c, control, read⟩ := Option.bind_eq_some_iff.mp stepped
  cases next : w.stdout c with
  | nil =>
    simp only [next] at read
    cases read
  | cons line rest =>
    simp only [next] at read
    obtain ⟨s, directed, rfl⟩ := Option.map_eq_some_iff.mp read
    have direct := Wire.direct_some directed
    have conserved := poolStep_conserved served.conserved direct
    obtain ⟨item, serves⟩ := served.stdout c line (next ▸ List.mem_cons_self)
    have fewer : ∀ d, ∀ out ∈ Function.update w.stdout c rest d, ∃ item, ServesItem yy tcl ops pend out item := by
      intro d out member
      by_cases same : d = c
      · subst same
        rw [Function.update_self] at member
        exact served.stdout d out (next ▸ List.mem_cons_of_mem _ member)
      · rw [Function.update_of_ne same] at member
        exact served.stdout d out member
    obtain moved | ⟨text, spawn', failures', c', held, rep, got, -, -, taken, -, moved⟩ | ⟨items,
      failures', none', -⟩ :=
      poolStep_cases served.conserved direct
    · have kept := served.moves conserved moved
      exact ⟨conserved, kept.among, fewer, kept.heard, kept.count⟩
    · have heard : channelRead line = some text := by
        unfold receiveLine at got
        cases known : channelRead line with
        | none =>
          rw [known] at got
          cases got
        | some text' =>
          rw [known] at got
          injection got with same
          injection same with same
          rw [same]
      have among : (poolReceive w.pool c' rep).Among fun item => item ∈ pend :=
        ⟨served.among.pending, fun e member => served.among.inflight e (mem_dictRemove.mp member).1,
          served.among.sent⟩
      have replies : (poolReceive w.pool c' rep).Heard (ServedFor yy tcl ops pend) :=
        List.forall_mem_append.mpr
          ⟨served.heard, List.forall_mem_singleton.mpr (.inr ⟨item, line, text, serves, heard, taken⟩)⟩
      exact ⟨conserved, among.moves moved, fewer, replies.moves moved, fun once =>
        moved.sameBatch.submitted.trans (served.count (moved.sameBatch.once.symm.trans once))⟩
    · cases none'

/-- A worker answers a line that it was sent. -/
theorem answer {w w' : Wire} (served : w.Served yy tcl ops pend) {c : Child} {line : Bytes}
    (serves : ServedStep yy tcl ops w (.answer c line)) (stepped : wireStep yy tcl w (.answer c line) = some w') :
    w'.Served yy tcl ops pend := by
  simp only [wireStep] at stepped
  split_ifs at stepped
  obtain rfl := Option.some.inj stepped
  obtain ⟨request, asked, answered⟩ := mem_workerServe (List.mem_of_getElem? serves)
  obtain ⟨item, inside, sent⟩ := List.mem_filterMap.mp asked
  obtain ⟨e, member, rfl⟩ := List.mem_map.mp inside
  have own := served.among.sent e (List.mem_of_mem_filter member)
  refine ⟨served.conserved, served.among, fun d out written => ?_, served.heard, served.count⟩
  have written : out ∈ Function.update w.stdout c (w.stdout c ++ [line]) d := written
  by_cases same : d = c
  · subst same
    rw [Function.update_self] at written
    rcases List.mem_append.mp written with before | here
    · exact served.stdout d out before
    · obtain rfl := List.mem_singleton.mp here
      exact ⟨e.2, own, request, sent, answered⟩
  · rw [Function.update_of_ne same] at written
    exact served.stdout d out written

/-- One event keeps each item on its way from the batch to its reply: in the
queue, with a worker, in a pipe, or answered. -/
theorem step {w w' : Wire} (served : w.Served yy tcl ops pend) {e : WireEvent} (only : SubmitsOnly yy tcl pend e)
    (serves : ServedStep yy tcl ops w e) (stepped : wireStep yy tcl w e = some w') : w'.Served yy tcl ops pend := by
  cases e with
  | director e =>
    simp only [wireStep] at stepped
    split_ifs at stepped with pipe
    obtain ⟨s, directed, rfl⟩ := Option.map_eq_some_iff.mp stepped
    exact served.direct only (Bool.not_eq_true _ ▸ pipe) (Wire.direct_some directed)
  | receive spawn failures => exact served.receive stepped
  | answer c line => exact served.answer serves stepped
  | write c line => exact absurd serves not_false

/-- By induction on the events. -/
theorem run {events : List WireEvent} {w w' : Wire} (served : w.Served yy tcl ops pend)
    (only : ∀ e ∈ events, SubmitsOnly yy tcl pend e) (serves : ServedRun yy tcl ops w events)
    (ran : wireRun yy tcl w events = some w') : w'.Served yy tcl ops pend := by
  induction events generalizing w with
  | nil =>
    obtain rfl := Option.some.inj ran
    exact served
  | cons e events ih =>
    obtain ⟨w₁, stepped, rest⟩ := Option.bind_eq_some_iff.mp ran
    obtain ⟨here, later⟩ := List.forall_mem_cons.mp only
    exact ih (served.step here serves.1 stepped) later (serves.2 w₁ stepped) rest

end Wire.Served

/-- A new pool has nothing of the batch yet. -/
theorem newWire_served {maxtries : Nat} {positive : 1 ≤ maxtries} {children : Child} {spawns : List (Option Bytes)}
    {s : Pool} (created : poolCreate maxtries positive children spawns = .ok s) :
    (newWire s).Served yy tcl ops pend := by
  have conserved : s.Conserved yy tcl := poolCreate_conserved created
  have once := (poolSpawns_sameBatch created).once
  obtain ⟨pending, inflight, results, -⟩ := conserved.unsubmitted once
  obtain ⟨-, sent⟩ := poolSpawns_idle created
  refine ⟨conserved, ⟨?_, ?_, ?_⟩, fun _ => List.forall_mem_nil _, ?_, fun sent => ?_⟩
  · exact (pending : (newWire s).pool.pending = []) ▸ List.forall_mem_nil _
  · exact (inflight : (newWire s).pool.inflight = []) ▸ List.forall_mem_nil _
  · exact (sent : (newWire s).pool.sent = []) ▸ List.forall_mem_nil _
  · rw [Pool.Heard, show (newWire s).pool.results = [] from results]
    exact List.forall_mem_nil _
  · rw [show (newWire s).pool.submittedOnce = false from once] at sent
    cases sent

theorem minus_ne_decimal (k : Nat) : ascii "-1" ≠ decimal k := fun same => by
  have digit : ∀ c ∈ decimal k, c ≠ 0x2D := fun c member dash => by
    have shown : Char.ofNat c.toNat ∈ Nat.toDigits 10 k := decimal_digits k ▸ List.mem_map_of_mem member
    rw [dash] at shown
    exact absurd (Nat.isDigit_of_mem_toDigits (by decide) (by decide) shown) (by decide)
  exact digit 0x2D (same ▸ List.mem_cons_self) rfl

/-- The reply of a worker to an item. -/
def ItemServed (yy : Yyjson) (tcl : Tcl) (ops : List (Bytes × Handler)) (item : PoolItem)
    (rep : PoolReply) : Prop :=
  ∃ reply, requestReply yy tcl ops (canonEntries item.request) = .ok reply ∧
    yyToTcl 0 (Obj.dict reply).tree = some (.dict rep.reply)

/-- Once the batch is done each item has one reply: that of its operation,
or that it was poisoned, and the second only where workers have died. -/
theorem Wire.Served.replies (spec : yy.Spec) (tclSpec : tcl.Spec) (counts : tcl.Counts) {w : Wire}
    (served : w.Served yy tcl ops pend) (deliverable : ∀ item ∈ pend, Deliverable yy tcl item)
    (numbered : pend.map (·.id) = List.range pend.length) (once : w.pool.submittedOnce = true)
    (done : w.pool.done = true) (unstuck : w.pool.fatal = []) :
    List.Forall₂ (fun item rep => getString yy tcl rep.id = decimal item.id ∧
      ((0 < w.pool.dead ∧ Poisoned item.id rep) ∨ ItemServed yy tcl ops item rep)) pend
        (poolReplies yy tcl w.pool) := by
  obtain ⟨empty, idle⟩ := (served.conserved.settled done).resolve_left (not_not.mpr unstuck)
  have replies := served.conserved.replies empty idle
  rw [served.count once, ← numbered, List.forall₂_map_left_iff] at replies
  refine ((List.forall₂_and_left _ _).mpr ⟨fun _ member => member, replies⟩).imp ?_
  rintro item rep ⟨member, inside, named⟩
  refine ⟨named, ?_⟩
  rcases served.heard rep inside with ⟨dead, k, tries, rfl⟩ | ⟨other, line, text,
    ⟨among, request, sent, serves⟩, heard, read⟩
  · obtain rfl := decimal_injective (show decimal k = decimal item.id from named)
    exact .inl ⟨dead, tries, rfl⟩
  · obtain ⟨reply, replied, back, own⟩ :=
      (deliverable other among).served spec tclSpec counts sent serves heard read
    have same : other.id = item.id := by
      rcases own with own | own
      · rw [own] at named
        exact decimal_injective named
      · rw [own] at named
        exact absurd named (minus_ne_decimal _)
    have distinct : (pend.map (·.id)).Nodup := numbered ▸ List.nodup_range
    obtain rfl := List.inj_on_of_nodup_map distinct among member same
    exact .inr ⟨reply, replied, back⟩

/-- The events of a run with one batch. -/
theorem submitsOnly_batch {items : Obj} {its : List Obj} (read : listElements tcl items = .ok its)
    (accepted : poolItems yy tcl 0 its = .ok pend) {events : List WireEvent}
    (only : ∀ items' failures, .director (.submit items' failures) ∈ events → items' = items) :
    ∀ e ∈ events, SubmitsOnly yy tcl pend e := by
  intro e member
  cases e with
  | director e =>
    cases e with
    | submit items' failures =>
      obtain rfl := only items' failures member
      intro its' pend' read' accepted'
      obtain rfl := Except.ok.inj (read.symm.trans read')
      exact Except.ok.inj (accepted'.symm.trans accepted)
    | _ => trivial
  | _ => trivial

theorem poolItems_numbered {its : List Obj} (accepted : poolItems yy tcl 0 its = .ok pend) :
    pend.map (·.id) = List.range pend.length := by
  have ids := poolItems_ids accepted
  have lengths := congrArg List.length ids
  rw [List.length_map, List.length_range'] at lengths
  rw [ids, ← lengths, List.range_eq_range']

end

end Machteld
