import Machteld.Pool.Wire
import Machteld.Worker.Answer

namespace Machteld

section

variable (yy : Yyjson) (tcl : Tcl)

/-- A line that is a reply, by the test of the pool, under the id the worker
decoded from the request. -/
def GoodReply (request line : Bytes) : Prop :=
  ∃ asked text rep, channelRead request = some asked ∧ channelRead line = some text ∧
    readReply yy tcl text = some rep ∧ getString yy tcl rep.id = getString yy tcl (requestId yy tcl asked)

/-- Workers that behave: they stay alive and write nothing but good replies,
and a write to them fails only for a request the channel refuses. -/
def HealthyStep (w : Wire) : WireEvent → Prop
  | .director (.submit items failures) =>
    (∀ its pend, listElements tcl items = .ok its → poolItems yy tcl w.pool.nextid its = .ok pend →
      ∀ item ∈ w.pool.pending ++ pend, (requestLine yy tcl item).isSome) → ∀ c, failures c = []
  | .director (.readable _ info _ _) => info = true
  | .director (.gets got _ _) => got = .dry false
  | .director (.stderr _) => True
  | .receive _ failures => (∀ item ∈ w.pool.pending, (requestLine yy tcl item).isSome) → failures = []
  | .answer c line =>
    ∀ item request, (sentTo w.pool c)[w.answered c]? = some item → requestLine yy tcl item = some request →
      GoodReply yy tcl request line
  | .write _ _ => False

def HealthyRun : Wire → List WireEvent → Prop
  | _, [] => True
  | w, e :: events => HealthyStep yy tcl w e ∧ ∀ w', wireStep yy tcl w e = some w' → HealthyRun w' events

/-- A line that answers the item. -/
def Answers (item : PoolItem) (line : Bytes) : Prop :=
  ∃ text rep, channelRead line = some text ∧ readReply yy tcl text = some rep ∧
    getString yy tcl rep.id = decimal item.id

/-- Where the item of a worker is: with the worker, or answered on its
stdout. -/
structure Wire.Sound (lines : List Bytes) (w : Wire) : Prop where
  conserved : w.pool.Conserved yy tcl
  alive : w.pool.dead = 0
  pending : ∀ item ∈ w.pool.pending, Deliverable yy tcl item
  sent : ∀ e ∈ w.pool.sent, Deliverable yy tcl e.2
  free : ∀ c, dictGet c w.pool.inflight = none → w.answered c = (sentTo w.pool c).length ∧ w.stdout c = []
  busy : ∀ c item, dictGet c w.pool.inflight = some item → (sentTo w.pool c).getLast? = some item ∧
    (w.answered c + 1 = (sentTo w.pool c).length ∧ w.stdout c = [] ∨
      w.answered c = (sentTo w.pool c).length ∧ ∃ line, w.stdout c = [line] ∧ Answers yy tcl item line)
  written : ∀ c, ∀ line ∈ w.stdout c, line ∈ lines
  heard : ∀ rep ∈ w.pool.results, ∃ line ∈ lines, ∃ text, channelRead line = some text ∧
    readReply yy tcl text = some rep

end

section

variable {yy : Yyjson} {tcl : Tcl} {lines : List Bytes}

theorem Deliverable.writable {item : PoolItem} (deliverable : Deliverable yy tcl item) :
    (requestLine yy tcl item).isSome := by
  obtain ⟨written, _, sent, _⟩ := deliverable
  rw [sent, Option.isSome_some]

/-- A string of a dict is still found in its canonical form. -/
theorem dictGet_canonEntries {key s : Bytes} {entries : List (Bytes × Obj)}
    (found : dictGet key entries = some (.str s)) :
    dictGet key (canonEntries entries) = some (.str s) := by
  induction entries with
  | nil => cases found
  | cons entry entries ih =>
    obtain ⟨k, v⟩ := entry
    simp only [dictGet, canonEntries] at found ⊢
    split_ifs at found ⊢
    · obtain rfl := Option.some.inj found
      rfl
    · exact ih found

/-- A good reply to a request the worker can read answers its item. -/
theorem Deliverable.answers {item : PoolItem} (deliverable : Deliverable yy tcl item) {request line : Bytes}
    (sent : requestLine yy tcl item = some request) (good : GoodReply yy tcl request line) :
    Answers yy tcl item line := by
  obtain ⟨written, text, out, _, read, decoded, _⟩ := deliverable
  obtain rfl := Option.some.inj (sent.symm.trans out)
  obtain ⟨asked, reply, rep, heard, received, taken, same⟩ := good
  obtain rfl := Option.some.inj (read.symm.trans heard)
  refine ⟨reply, rep, received, taken, same.trans ?_⟩
  simp only [requestId, decoded, dictGet_canonEntries item.numbered, Option.getD_some]
  rfl

namespace Wire.Sound

/-- A pool that differs in nothing the pipes depend on. -/
theorem same {w : Wire} (sound : w.Sound yy tcl lines) {s : Pool} (conserved : s.Conserved yy tcl)
    (dead : s.dead = w.pool.dead) (pending : s.pending = w.pool.pending) (sent : s.sent = w.pool.sent)
    (inflight : s.inflight = w.pool.inflight) (results : s.results = w.pool.results) :
    Wire.Sound yy tcl lines { w with pool := s } := by
  have same : sentTo s = sentTo w.pool := by
    unfold sentTo
    rw [sent]
  refine ⟨conserved, dead.trans sound.alive, pending ▸ sound.pending, sent ▸ sound.sent, ?_, ?_, sound.written,
    results ▸ sound.heard⟩
  · intro c idle
    rw [show sentTo ({ w with pool := s } : Wire).pool = sentTo w.pool from same]
    exact sound.free c (inflight ▸ idle)
  · intro c item held
    rw [show sentTo ({ w with pool := s } : Wire).pool = sentTo w.pool from same]
    exact sound.busy c item (inflight ▸ held)

theorem sentTo_append {s s' : Pool} {c : Child} {item : PoolItem}
    (sent : s'.sent = s.sent ++ [(c, item)]) (d : Child) :
    sentTo s' d = if c = d then sentTo s d ++ [item] else sentTo s d := by
  unfold sentTo
  rw [sent, List.filter_append, List.map_append]
  split_ifs with same
  · subst same
    simp
  · simp [same]

/-- A write that goes through puts one more request before a free worker. -/
theorem feed {w : Wire} (sound : w.Sound yy tcl lines) {c : Child} (live : c ∈ w.pool.workers) :
    Wire.Sound yy tcl lines { w with pool := poolFeed [] w.pool c } := by
  have conserved := sound.conserved.moves (poolFeed_moves [] w.pool c live)
  unfold poolFeed at conserved ⊢
  split_ifs at conserved ⊢ with held
  · exact sound
  · have free := Option.not_isSome_iff_eq_none.mp held
    cases next : w.pool.pending with
    | nil =>
      rw [next] at conserved
      dsimp only at conserved ⊢
      unfold poolCheckDone at conserved ⊢
      split_ifs at conserved ⊢
      · exact sound.same conserved rfl rfl rfl rfl rfl
      · exact sound
    | cons item pending =>
      rw [next] at conserved
      dsimp only at conserved ⊢
      obtain ⟨deliverable, others⟩ := List.forall_mem_cons.mp (next ▸ sound.pending)
      have sent := @sentTo_append w.pool { poolTake w.pool c item pending with sent := w.pool.sent ++
        [(c, item)] } c item rfl
      refine ⟨conserved, sound.alive, others, ?_, ?_, ?_, sound.written, sound.heard⟩
      · exact List.forall_mem_append.mpr ⟨sound.sent, List.forall_mem_singleton.mpr deliverable⟩
      · intro d idle
        have idle' : dictGet d (dictPut c item w.pool.inflight) = none := idle
        rw [dictGet_dictPut] at idle'
        split_ifs at idle' with other
        have before := sound.free d idle'
        refine ⟨before.1.trans ?_, before.2⟩
        exact congrArg List.length ((sent d).trans (if_neg other)).symm
      · intro d item' held
        have held' : dictGet d (dictPut c item w.pool.inflight) = some item' := held
        rw [dictGet_dictPut] at held'
        split_ifs at held' with same
        · subst same
          obtain rfl := Option.some.inj held'
          obtain ⟨answered, quiet⟩ := sound.free c free
          have now := (sent c).trans (if_pos rfl)
          refine ⟨(congrArg List.getLast? now).trans List.getLast?_concat, Or.inl ⟨?_, quiet⟩⟩
          refine Eq.trans ?_ (congrArg List.length now).symm
          rw [List.length_append, List.length_singleton, ← answered]
        · have before := sound.busy d item' held'
          have now := (sent d).trans (if_neg same)
          rw [← now] at before
          exact before

/-- Feeding idle workers one after another sends each of them at most one
item. -/
theorem feedAll {workers : List Child} {w : Wire} (sound : w.Sound yy tcl lines)
    (live : ∀ c ∈ workers, c ∈ w.pool.workers)
    (distinct : workers.Nodup) :
    Wire.Sound yy tcl lines { w with pool := workers.foldl (fun s c => poolFeed [] s c) w.pool } := by
  induction workers generalizing w with
  | nil => exact sound
  | cons c workers ih =>
    obtain ⟨fresh, distinct⟩ := List.nodup_cons.mp distinct
    obtain ⟨here, later⟩ := List.forall_mem_cons.mp live
    refine ih (sound.feed here) (fun d member => ?_) distinct
    have other : d ≠ c := fun same => fresh (same ▸ member)
    have known := sound.conserved.known d (later d member)
    exact poolFeed_keeps [] w.pool c d other known (later d member)

theorem grow {w : Wire} (sound : w.Sound yy tcl lines) (line : Bytes) : w.Sound yy tcl (lines ++ [line]) :=
  { sound with
    written := fun c line member => List.mem_append_left _ (sound.written c line member),
    heard := fun rep member => by
      obtain ⟨line, known, rest⟩ := sound.heard rep member
      exact ⟨line, List.mem_append_left _ known, rest⟩ }

/-- A batch is admitted as a whole and its first items are sent, one to each
worker that is free. -/
theorem submit {w : Wire} (sound : w.Sound yy tcl lines) {items : Obj}
    {failures : Child → List (Option Bytes)} {s : Pool}
    (deliver : ∀ next its pend, listElements tcl items = .ok its → poolItems yy tcl next its = .ok pend →
      ∀ item ∈ pend, Deliverable yy tcl item)
    (healthy : HealthyStep yy tcl w (.director (.submit items failures)))
    (submitted : poolSubmit yy tcl w.pool items failures = .ok s) :
    Wire.Sound yy tcl lines { w with pool := s } := by
  obtain ⟨unsent, its, pend, read, numbered, rfl⟩ := poolSubmit_ok submitted
  have fresh := deliver _ its pend read numbered
  have nothing : ∀ c, failures c = [] := by
    refine healthy fun its' pend' read' numbered' item member => Deliverable.writable ?_
    obtain rfl := Except.ok.inj (read.symm.trans read')
    obtain rfl := Except.ok.inj (numbered.symm.trans numbered')
    exact (List.mem_append.mp member).elim (sound.pending item) (fresh item)
  have accepted : Wire.Sound yy tcl lines { w with pool := poolAccept w.pool pend } :=
    { sound with
      conserved := (sound.conserved.accepted unsent numbered).1,
      pending := List.forall_mem_append.mpr ⟨sound.pending, fresh⟩ }
  have fed := accepted.feedAll (fun c (member : c ∈ w.pool.workers) => member) sound.conserved.distinct
  simp only [nothing]
  exact fed

/-- Every line of JSON has a byte. -/
theorem readReply_nonempty (spec : yy.Spec) {text : Bytes} {rep : PoolReply}
    (read : readReply yy tcl text = some rep) : text ≠ [] := by
  rintro rfl
  unfold readReply at read
  cases decoded : jsonDecode yy tcl [] with
  | error e =>
    rw [decoded] at read
    cases read
  | ok v =>
    obtain ⟨t, spelled, _⟩ := (jsonDecode_ok_iff spec tcl).mp decoded
    have nothing := Rfc8259.readText_complete jsonIsNumberLiteral_iff spelled
    cases nothing

/-- The item a worker answers is the one in flight on it. -/
theorem answer {w : Wire} (sound : w.Sound yy tcl lines) {c : Child} {line : Bytes}
    (healthy : HealthyStep yy tcl w (.answer c line)) (left : w.answered c < (sentTo w.pool c).length) :
    Wire.Sound yy tcl (lines ++ [line])
      ({ w with answered := Function.update w.answered c (w.answered c + 1) }.put c line) := by
  obtain ⟨item, held⟩ : ∃ item, dictGet c w.pool.inflight = some item := by
    refine Option.ne_none_iff_exists'.mp fun idle => ?_
    have all := (sound.free c idle).1
    omega
  obtain ⟨last, waiting | ⟨all, _⟩⟩ := sound.busy c item held
  · obtain ⟨one, quiet⟩ := waiting
    have next : (sentTo w.pool c)[w.answered c]? = some item := by
      rw [List.getLast?_eq_getElem?] at last
      rwa [show w.answered c = (sentTo w.pool c).length - 1 by omega]
    have known : (c, item) ∈ w.pool.sent := by
      obtain ⟨e, inside, rfl⟩ := List.mem_map.mp (List.mem_of_getElem? next)
      obtain ⟨member, own⟩ := List.mem_filter.mp inside
      obtain rfl := of_decide_eq_true own
      exact member
    have deliverable := sound.sent _ known
    obtain ⟨request, out⟩ := Option.isSome_iff_exists.mp deliverable.writable
    have answers := deliverable.answers out (healthy item request next out)
    refine { sound.grow line with free := ?_, busy := ?_, written := ?_ }
    · intro d idle
      have other : d ≠ c := by
        rintro rfl
        exact nomatch held.symm.trans idle
      simp only [Wire.put, Function.update_of_ne other]
      exact sound.free d idle
    · intro d item' held'
      by_cases same : d = c
      · subst same
        obtain rfl := Option.some.inj (held.symm.trans held')
        refine ⟨last, Or.inr ⟨?_, line, ?_, answers⟩⟩
        · simp only [Wire.put, Function.update_self, one]
        · simp only [Wire.put, Function.update_self, quiet, List.nil_append]
      · simp only [Wire.put, Function.update_of_ne same]
        exact sound.busy d item' held'
    · intro d
      by_cases same : d = c
      · subst same
        simp only [Wire.put, Function.update_self, quiet, List.nil_append]
        exact List.forall_mem_singleton.mpr (List.mem_append_right _ (List.mem_singleton.mpr rfl))
      · simp only [Wire.put, Function.update_of_ne same]
        exact (sound.grow line).written d
  · omega

/-- The line read from a worker is the answer to its item. -/
theorem receive (spec : yy.Spec) {w w' : Wire} (sound : w.Sound yy tcl lines) {spawn : Option Bytes}
    {failures : List (Option Bytes)} (healthy : HealthyStep yy tcl w (.receive spawn failures))
    (stepped : wireStep yy tcl w (.receive spawn failures) = some w') : w'.Sound yy tcl lines := by
  obtain ⟨c, control, read⟩ := Option.bind_eq_some_iff.mp stepped
  cases next : w.stdout c with
  | nil =>
    rw [next] at read
    cases read
  | cons line rest =>
    obtain ⟨item, held⟩ : ∃ item, dictGet c w.pool.inflight = some item := by
      refine Option.ne_none_iff_exists'.mp fun idle => ?_
      exact List.cons_ne_nil _ _ (next.symm.trans (sound.free c idle).2)
    obtain ⟨last, ⟨_, quiet⟩ | ⟨all, line', shape, text, rep, received, taken, same⟩⟩ := sound.busy c item held
    · exact absurd (next.symm.trans quiet) (List.cons_ne_nil _ _)
    · obtain ⟨rfl, rfl⟩ := List.cons.inj (next.symm.trans shape)
      have nothing : failures = [] := healthy fun item member => (sound.pending item member).writable
      have nonempty := readReply_nonempty spec taken
      rw [wireStep_receive control next received nonempty taken held same] at stepped
      obtain ⟨s, kept, rfl⟩ := Option.map_eq_some_iff.mp stepped
      obtain ⟨fed, _⟩ := Option.filter_eq_some_iff.mp kept
      obtain rfl := Option.some.inj fed
      subst nothing
      have live : c ∈ w.pool.workers := sound.conserved.live c (List.mem_map_of_mem (mem_of_dictGet held))
      have free : Wire.Sound yy tcl lines
          { w with pool := poolReceive w.pool c rep, stdout := Function.update w.stdout c [] } := by
        refine { sound with
          conserved := sound.conserved.received held same, free := ?_, busy := ?_, written := ?_, heard := ?_ }
        · intro d idle
          by_cases same : d = c
          · subst same
            exact ⟨all, Function.update_self ..⟩
          · have before : dictGet d (dictRemove c w.pool.inflight) = none := idle
            rw [dictGet_dictRemove, if_neg (Ne.symm same)] at before
            simp only [Function.update_of_ne same]
            exact sound.free d before
        · intro d item' held'
          have before : dictGet d (dictRemove c w.pool.inflight) = some item' := held'
          rw [dictGet_dictRemove] at before
          split_ifs at before with same
          simp only [Function.update_of_ne (Ne.symm same)]
          exact sound.busy d item' before
        · intro d
          by_cases same : d = c
          · subst same
            simp only [Function.update_self]
            exact List.forall_mem_nil _
          · simp only [Function.update_of_ne same]
            exact sound.written d
        · refine List.forall_mem_append.mpr ⟨sound.heard,
            List.forall_mem_singleton.mpr ⟨line, ?_, text, received, taken⟩⟩
          exact sound.written c line (next ▸ List.mem_cons_self ..)
      exact free.feed live

/-- The items of a submit all reach their workers. -/
def Delivers (yy : Yyjson) (tcl : Tcl) : WireEvent → Prop
  | .director (.submit items _) => ∀ next its pend, listElements tcl items = .ok its →
      poolItems yy tcl next its = .ok pend → ∀ item ∈ pend, Deliverable yy tcl item
  | _ => True

/-- The line an event writes, if any. -/
def lineOf (e : WireEvent) : List Bytes := (e.written.map Prod.snd).toList

/-- The director's own events keep the wire sound. -/
theorem direct {w : Wire} (sound : w.Sound yy tcl lines) {e : PoolEvent} {s : Pool}
    (deliver : Delivers yy tcl (.director e)) (healthy : HealthyStep yy tcl w (.director e))
    (stepped : poolStep yy tcl w.pool e = some s) : Wire.Sound yy tcl lines { w with pool := s } := by
  have conserved := poolStep_conserved sound.conserved stepped
  cases e with
  | submit items failures =>
    simp only [poolStep] at stepped
    split_ifs at stepped
    cases submitted : poolSubmit yy tcl w.pool items failures with
    | error e =>
      rw [submitted] at stepped
      obtain rfl := Option.some.inj stepped
      exact sound
    | ok s' =>
      rw [submitted] at stepped
      obtain rfl := Option.some.inj stepped
      exact sound.submit deliver healthy submitted
  | readable c info spawn failures =>
    obtain rfl : info = true := healthy
    simp only [poolStep, poolReadable, if_true] at stepped
    split_ifs at stepped
    obtain rfl := Option.some.inj stepped
    exact sound.same conserved rfl rfl rfl rfl rfl
  | gets got spawn failures =>
    obtain rfl : got = .dry false := healthy
    obtain ⟨c, _, rfl⟩ := Option.map_eq_some_iff.mp stepped
    simp only [poolTurn, Bool.false_eq_true, if_false] at conserved ⊢
    unfold poolCheckDone at conserved ⊢
    split_ifs at conserved ⊢ <;> exact sound.same conserved rfl rfl rfl rfl rfl
  | stderr chunk =>
    simp only [poolStep] at stepped
    split_ifs at stepped
    obtain rfl := Option.some.inj stepped
    exact sound.same conserved rfl rfl rfl rfl rfl

/-- One event, of either side of a pipe, keeps the wire sound: what a worker
reads was sent, and what the director reads was answered. -/
theorem step (spec : yy.Spec) {w w' : Wire} (sound : w.Sound yy tcl lines) {e : WireEvent}
    (deliver : Delivers yy tcl e)
    (healthy : HealthyStep yy tcl w e) (stepped : wireStep yy tcl w e = some w') :
    w'.Sound yy tcl (lines ++ lineOf e) := by
  cases e with
  | director e =>
    simp only [wireStep] at stepped
    split_ifs at stepped
    obtain ⟨s, directed, rfl⟩ := Option.map_eq_some_iff.mp stepped
    simp only [lineOf, WireEvent.written, Option.map_none, Option.toList_none, List.append_nil]
    exact sound.direct deliver healthy (Wire.direct_some directed)
  | receive spawn failures =>
    simp only [lineOf, WireEvent.written, Option.map_none, Option.toList_none, List.append_nil]
    exact sound.receive spec healthy stepped
  | answer c line =>
    simp only [wireStep] at stepped
    split_ifs at stepped with left
    obtain rfl := Option.some.inj stepped
    exact sound.answer healthy left
  | write c line => exact absurd healthy not_false

/-- By induction on the events. The lines that workers have read are kept
beside the state, and each step adds those of its event. -/
theorem run (spec : yy.Spec) {events : List WireEvent} {w w' : Wire} (sound : w.Sound yy tcl lines)
    (deliver : ∀ e ∈ events, Delivers yy tcl e) (healthy : HealthyRun yy tcl w events)
    (ran : wireRun yy tcl w events = some w') : w'.Sound yy tcl (lines ++ events.flatMap lineOf) := by
  induction events generalizing w lines with
  | nil =>
    obtain rfl := Option.some.inj ran
    simpa only [List.flatMap_nil, List.append_nil] using sound
  | cons e events ih =>
    obtain ⟨w₁, stepped, rest⟩ := Option.bind_eq_some_iff.mp ran
    obtain ⟨here, later⟩ := List.forall_mem_cons.mp deliver
    have next := ih (sound.step spec here healthy.1 stepped) later (healthy.2 w₁ stepped) rest
    rwa [List.append_assoc] at next

end Wire.Sound

theorem poolSpawns_idle {spawns : List (Option Bytes)} {s s' : Pool} (started : poolSpawns spawns s = .ok s') :
    s'.dead = s.dead ∧ s'.sent = s.sent := by
  induction spawns generalizing s with
  | nil =>
    obtain rfl : s = s' := Except.ok.inj started
    exact ⟨rfl, rfl⟩
  | cons spawn spawns ih =>
    obtain ⟨⟨s₁, c⟩, here, later⟩ := Except.bind_ok.mp started
    cases spawn with
    | some message => cases here
    | none =>
      obtain ⟨rfl, rfl⟩ := Prod.mk.inj (Except.ok.inj here)
      exact @ih { s with workers := s.workers ++ [s.children], children := s.children + 1 } later

/-- A new pool has empty pipes and nothing to answer. -/
theorem newWire_sound {maxtries : Nat} {positive : 1 ≤ maxtries} {children : Child} {spawns : List (Option Bytes)}
    {s : Pool} (created : poolCreate maxtries positive children spawns = .ok s) : (newWire s).Sound yy tcl [] := by
  have conserved : s.Conserved yy tcl := poolCreate_conserved created
  obtain ⟨pending, inflight, results, _⟩ := conserved.unsubmitted (poolSpawns_sameBatch created).once
  obtain ⟨dead, sent⟩ := poolSpawns_idle created
  have none : ∀ c, sentTo s c = [] := fun c => by
    unfold sentTo
    rw [sent]
    rfl
  refine ⟨conserved, dead, ?_, ?_, fun c _ => ⟨?_, rfl⟩, fun c item held => ?_, fun _ => List.forall_mem_nil _, ?_⟩
  · exact (pending : (newWire s).pool.pending = []) ▸ List.forall_mem_nil _
  · exact (sent : (newWire s).pool.sent = []) ▸ List.forall_mem_nil _
  · exact (congrArg List.length (none c)).symm
  · rw [show (newWire s).pool.inflight = [] from inflight] at held
    cases held
  · exact (results : (newWire s).pool.results = []) ▸ List.forall_mem_nil _

end

/-- Healthy workers all survive a batch, and each reply is one that a worker
wrote, so none is of a given-up item. -/
def BatchSafe (yy : Yyjson) (tcl : Tcl) (items : Obj) : Prop :=
  ∀ maxtries positive children spawns s₀ events w, poolCreate maxtries positive children spawns = .ok s₀ →
    (∀ items' failures, .director (.submit items' failures) ∈ events → items' = items) →
    HealthyRun yy tcl (newWire s₀) events → wireRun yy tcl (newWire s₀) events = some w →
    w.pool.dead = 0 ∧ ∀ rep ∈ w.pool.results, ∃ e c line text, e ∈ events ∧ e.written = some (c, line) ∧
      channelRead line = some text ∧ readReply yy tcl text = some rep

/-- The items of a batch are admitted one by one and numbered in their
order. -/
theorem poolItems_admitted {yy : Yyjson} {tcl : Tcl} {next : Nat} {its : List Obj} {pend : List PoolItem}
    (numbered : poolItems yy tcl next its = .ok pend) :
    List.Forall₂ (fun it item => ∃ entries, poolAdmit yy tcl it = .ok entries ∧
      ∃ id, item = numberItem id entries) its
      pend := by
  induction its generalizing next pend with
  | nil =>
    obtain rfl : [] = pend := Except.ok.inj numbered
    exact List.Forall₂.nil
  | cons it its ih =>
    obtain ⟨entries, admitted, rest⟩ := Except.bind_ok.mp numbered
    obtain ⟨pend, later, rfl⟩ := Except.map_ok.mp rest
    exact List.Forall₂.cons ⟨entries, admitted, next, rfl⟩ (ih later)

section

variable {yy : Yyjson} {tcl : Tcl}

/-- What `dict size` makes of a Tcl value is a Tcl dict. -/
theorem dictEntries_lawful (tclSpec : tcl.Spec) {it : Obj} (lawful : it.Lawful) {entries : List (Bytes × Obj)}
    (read : dictEntries tcl it = .ok entries) : (Obj.dict entries).Lawful := by
  cases it with
  | dict entries' =>
    obtain rfl : entries' = entries := Except.ok.inj read
    exact lawful
  | str s => exact tclSpec.dict_lawful _ _ lawful read
  | list items => exact tclSpec.dict_lawful _ _ lawful read
  | typed x => exact tclSpec.dict_lawful _ _ lawful read

/-- Every item of an accepted batch reaches its worker if and only if every
item is clean. -/
theorem poolItems_deliverable_iff (spec : yy.Spec) (tclSpec : tcl.Spec) {next : Nat} {its : List Obj}
    {pend : List PoolItem} (lawful : ∀ it ∈ its, it.Lawful) (numbered : poolItems yy tcl next its = .ok pend) :
    (∀ item ∈ pend, Deliverable yy tcl item) ↔
      ∀ it ∈ its, ∀ entries, dictEntries tcl it = .ok entries → ItemClean entries := by
  have pairs := poolItems_admitted numbered
  clear numbered
  induction pairs with
  | nil => exact iff_of_true (List.forall_mem_nil _) (List.forall_mem_nil _)
  | cons here _ ih =>
    obtain ⟨first, later⟩ := List.forall_mem_cons.mp lawful
    obtain ⟨entries, admitted, id, rfl⟩ := here
    obtain ⟨read, holds⟩ := poolAdmit_ok spec admitted
    rw [List.forall_mem_cons, List.forall_mem_cons,
      deliverable_iff spec tclSpec holds (dictEntries_lawful tclSpec first read) id]
    refine and_congr ⟨fun clean entries' read' => ?_, fun clean => clean entries read⟩ (ih later)
    obtain rfl := Except.ok.inj (read.symm.trans read')
    exact clean

/-- The items of a batch reach the workers, and cost none, if and only if
all their strings are well-formed UTF-8. -/
theorem pool_delivers_iff (spec : yy.Spec) (tclSpec : tcl.Spec) {items : Obj} {its : List Obj}
    {pend : List PoolItem}
    (read : listElements tcl items = .ok its) (lawful : ∀ it ∈ its, it.Lawful)
    (accepted : poolItems yy tcl 0 its = .ok pend) :
    ((∀ item ∈ pend, Deliverable yy tcl item) ∧ BatchSafe yy tcl items) ↔
      ∀ it ∈ its, ∀ entries, dictEntries tcl it = .ok entries → ItemClean entries := by
  rw [poolItems_deliverable_iff spec tclSpec lawful accepted]
  refine ⟨And.left, fun clean => ⟨clean, ?_⟩⟩
  intro maxtries positive children spawns s₀ events w created only healthy ran
  have deliver : ∀ e ∈ events, Wire.Sound.Delivers yy tcl e := by
    intro e member
    cases e with
    | director e =>
      cases e with
      | submit items' failures =>
        obtain rfl := only items' failures member
        intro next its' pend' read' numbered'
        obtain rfl := Except.ok.inj (read.symm.trans read')
        exact (poolItems_deliverable_iff spec tclSpec lawful numbered').mpr clean
      | _ => trivial
    | _ => trivial
  have sound := (newWire_sound created).run spec deliver healthy ran
  refine ⟨sound.alive, fun rep member => ?_⟩
  obtain ⟨line, known, text, received, taken⟩ := sound.heard rep member
  rw [List.nil_append] at known
  obtain ⟨e, inside, own⟩ := List.mem_flatMap.mp known
  obtain ⟨⟨c, line⟩, written, rfl⟩ := Option.map_eq_some_iff.mp (Option.mem_toList.mp own)
  exact ⟨e, c, line, text, inside, written, received, taken⟩

end

theorem pool_delivers_sample :
    ((∀ item ∈ [goItem 0], Deliverable referenceYyjson wordTcl item) ∧
      BatchSafe referenceYyjson wordTcl loneItems) ↔
      ∀ it ∈ [loneItem], ∀ entries, dictEntries wordTcl it = .ok entries → ItemClean entries :=
  pool_delivers_iff referenceYyjson_spec wordTcl_spec rfl
    (List.forall_mem_singleton.mpr ⟨List.nodup_singleton _, trivial, trivial⟩) rfl

/-- An item with U+0000 in a string. -/
def nulEntries : List (Bytes × Obj) := [(ascii "op", .str (ascii "go")), (ascii "s", .str [0xC0, 0x80])]

/-- The pool takes it and the channel writes it, but no worker can decode
it. -/
theorem pool_delivers_nul :
    poolItems referenceYyjson wordTcl 0 [.dict nulEntries] = .ok [numberItem 0 nulEntries] ∧
      (∃ written, requestLine referenceYyjson wordTcl (numberItem 0 nulEntries) = some written ∧
        (0 : UInt8) ∈ written) ∧
      ¬ Deliverable referenceYyjson wordTcl (numberItem 0 nulEntries) := by
  have admitted : poolAdmit referenceYyjson wordTcl (.dict nulEntries) = .ok nulEntries := rfl
  have lawful : (Obj.dict nulEntries).Lawful :=
    ⟨show [ascii "op", ascii "s"].Nodup by decide, trivial, trivial, trivial⟩
  refine ⟨rfl, ⟨_, rfl, by decide⟩, fun deliverable => ?_⟩
  have clean := (deliverable_iff referenceYyjson_spec wordTcl_spec
    (poolAdmit_ok referenceYyjson_spec admitted).2 lawful
    0).mp deliverable
  exact absurd (clean [0xC0, 0x80] (by decide)) (by decide)

end Machteld
