import Machteld.Pool.Run

namespace Machteld

/-- The reply of an item that was given up. -/
def Poisoned (k : Nat) (rep : PoolReply) : Prop := ∃ tries, rep = poisonReply k tries

/-- What no procedure changes once the batch is there. -/
structure Pool.SameBatch (s s' : Pool) : Prop where
  submitted : s'.submitted = s.submitted
  once : s'.submittedOnce = s.submittedOnce
  maxtries : s'.maxtries = s.maxtries

theorem Pool.SameBatch.trans {s s' s'' : Pool} (first : s.SameBatch s') (second : s'.SameBatch s'') :
    s.SameBatch s'' :=
  ⟨second.submitted.trans first.submitted, second.once.trans first.once, second.maxtries.trans first.maxtries⟩

theorem poolLost_sameBatch (s : Pool) (c : Child) : s.SameBatch (poolLost s c) := by
  cases held : dictGet c s.inflight with
  | none => rw [poolLost_idle held]; exact ⟨rfl, rfl, rfl⟩
  | some item =>
    by_cases low : (dictGet item.id s.tries).getD 0 + 1 < s.maxtries
    · rw [poolLost_requeued held low]; exact ⟨rfl, rfl, rfl⟩
    · rw [poolLost_poisoned held low]; exact ⟨rfl, rfl, rfl⟩

/-- A lost worker adds at most the reply of an item that has run out of
tries. -/
theorem poolLost_results {s : Pool} {c : Child} {rep : PoolReply} (member : rep ∈ (poolLost s c).results) :
    rep ∈ s.results ∨ ∃ k, Poisoned k rep := by
  cases held : dictGet c s.inflight with
  | none => rw [poolLost_idle held] at member; exact Or.inl member
  | some item =>
    by_cases low : (dictGet item.id s.tries).getD 0 + 1 < s.maxtries
    · rw [poolLost_requeued held low] at member
      exact Or.inl member
    · rw [poolLost_poisoned held low] at member
      exact (List.mem_append.mp member).imp_right fun last => ⟨item.id, _, List.mem_singleton.mp last⟩

theorem Pool.Moves.sameBatch {s s' : Pool} (moved : Pool.Moves s s') : s.SameBatch s' := by
  induction moved with
  | refl => exact ⟨rfl, rfl, rfl⟩
  | tail _ moved ih =>
    refine ih.trans ?_
    cases moved with
    | lost => exact poolLost_sameBatch _ _
    | _ => exact ⟨rfl, rfl, rfl⟩

/-- Single changes add no reply but that of a given-up item. -/
theorem Pool.Moves.results {s s' : Pool} (moved : Pool.Moves s s') {rep : PoolReply} (member : rep ∈ s'.results) :
    rep ∈ s.results ∨ ∃ k, Poisoned k rep := by
  induction moved with
  | refl => exact Or.inl member
  | tail _ moved ih =>
    cases moved with
    | lost => exact (poolLost_results member).elim ih Or.inr
    | _ => exact ih member

section

variable (yy : Yyjson) (tcl : Tcl)

/-- `PoolReadable` read the reply from a worker on which the item was in
flight. -/
def ReadInFlight (s₀ : Pool) (events : List PoolEvent) (k : Nat) (rep : PoolReply) : Prop :=
  ∃ before text spawn failures after s c item, events = before ++ .gets (.line text) spawn failures :: after ∧
    poolRun yy tcl s₀ before = some s ∧ s.control = some c ∧ dictGet c s.inflight = some item ∧ item.id = k ∧
    readReply yy tcl text = some rep ∧ getString yy tcl rep.id = decimal k

end

section

variable {yy : Yyjson} {tcl : Tcl}

theorem ReadInFlight.later {s₀ s : Pool} {e : PoolEvent} {events : List PoolEvent} {k : Nat} {rep : PoolReply}
    (stepped : poolStep yy tcl s₀ e = some s) (read : ReadInFlight yy tcl s events k rep) :
    ReadInFlight yy tcl s₀ (e :: events) k rep := by
  obtain ⟨before, text, spawn, failures, after, s', c, item, rfl, ran, rest⟩ := read
  refine ⟨e :: before, text, spawn, failures, after, s', c, item, rfl, ?_, rest⟩
  simp only [poolRun, stepped, Option.bind_some, ran]

/-- Where the replies of a run come from. -/
theorem poolRun_results {events : List PoolEvent} {s₀ s : Pool} (inv : s₀.Conserved yy tcl)
    (ran : poolRun yy tcl s₀ events = some s) {rep : PoolReply} (member : rep ∈ s.results) :
    rep ∈ s₀.results ∨ ∃ k, Poisoned k rep ∨ ReadInFlight yy tcl s₀ events k rep := by
  induction events generalizing s₀ with
  | nil =>
    obtain rfl := Option.some.inj ran
    exact Or.inl member
  | cons e events ih =>
    obtain ⟨s₁, stepped, rest⟩ := Option.bind_eq_some_iff.mp ran
    obtain old | ⟨k, poisoned | read⟩ := ih (poolStep_conserved inv stepped) rest
    · obtain moves | ⟨text, spawn, failures, c, item, rep', rfl, control, held, read, same, moves⟩ |
          ⟨items, failures, rfl, submitted⟩ := poolStep_cases inv stepped
      · exact (moves.results old).imp_right fun ⟨k, poisoned⟩ => ⟨k, Or.inl poisoned⟩
      · obtain before | ⟨k, poisoned⟩ := moves.results old
        · refine (List.mem_append.mp before).imp_right fun last => ⟨item.id, Or.inr ?_⟩
          obtain rfl := List.mem_singleton.mp last
          exact ⟨[], text, spawn, failures, events, s₀, c, item, rfl, rfl, control, held, rfl, read, same⟩
        · exact Or.inr ⟨k, Or.inl poisoned⟩
      · obtain ⟨_, its, pend, _, _, moves⟩ := poolSubmit_conserved inv submitted
        exact (moves.results old).imp_right fun ⟨k, poisoned⟩ => ⟨k, Or.inl poisoned⟩
    · exact Or.inr ⟨k, Or.inl poisoned⟩
    · exact Or.inr ⟨k, Or.inr (read.later stepped)⟩

theorem poolRun_append {before after : List PoolEvent} {s₀ : Pool} :
    poolRun yy tcl s₀ (before ++ after) = (poolRun yy tcl s₀ before).bind fun s => poolRun yy tcl s after := by
  induction before generalizing s₀ with
  | nil => rfl
  | cons e before ih =>
    simp only [List.cons_append, poolRun, Option.bind_assoc, ih]

/-- After the one batch the pool takes no other. -/
theorem poolRun_sameBatch {events : List PoolEvent} {s₀ s : Pool} (inv : s₀.Conserved yy tcl)
    (once : s₀.submittedOnce = true) (ran : poolRun yy tcl s₀ events = some s) : s₀.SameBatch s := by
  induction events generalizing s₀ with
  | nil =>
    obtain rfl := Option.some.inj ran
    exact ⟨rfl, rfl, rfl⟩
  | cons e events ih =>
    obtain ⟨s₁, stepped, rest⟩ := Option.bind_eq_some_iff.mp ran
    have step : s₀.SameBatch s₁ := by
      obtain moves | ⟨_, _, _, c, item, rep, _, _, _, _, _, moves⟩ | ⟨_, _, _, submitted⟩ :=
        poolStep_cases inv stepped
      · exact moves.sameBatch
      · have received : s₀.SameBatch (poolReceive s₀ c rep) := ⟨rfl, rfl, rfl⟩
        exact received.trans moves.sameBatch
      · exact absurd ((poolSubmit_ok submitted).1.symm.trans once) (by decide)
    exact step.trans (ih (poolStep_conserved inv stepped) (step.once.trans once) rest)

/-- No event changes how often an item may be tried. -/
theorem poolRun_maxtries {events : List PoolEvent} {s₀ s : Pool} (inv : s₀.Conserved yy tcl)
    (ran : poolRun yy tcl s₀ events = some s) : s.maxtries = s₀.maxtries := by
  induction events generalizing s₀ with
  | nil =>
    obtain rfl := Option.some.inj ran
    rfl
  | cons e events ih =>
    obtain ⟨s₁, stepped, rest⟩ := Option.bind_eq_some_iff.mp ran
    refine (ih (poolStep_conserved inv stepped) rest).trans ?_
    obtain moves | ⟨_, _, _, c, item, rep, _, _, _, _, _, moves⟩ | ⟨_, _, _, submitted⟩ :=
      poolStep_cases inv stepped
    · exact moves.sameBatch.maxtries
    · exact moves.sameBatch.maxtries
    · obtain ⟨_, its, pend, _, _, moves⟩ := poolSubmit_conserved inv submitted
      exact moves.sameBatch.maxtries

/-- Starting workers leaves the batch as it is. -/
theorem poolSpawns_sameBatch {spawns : List (Option Bytes)} {s s' : Pool} (started : poolSpawns spawns s = .ok s') :
    s.SameBatch s' := by
  induction spawns generalizing s with
  | nil =>
    obtain rfl : s = s' := Except.ok.inj started
    exact ⟨rfl, rfl, rfl⟩
  | cons spawn spawns ih =>
    obtain ⟨⟨s₁, c⟩, here, later⟩ := Except.bind_ok.mp started
    cases spawn with
    | some message => cases here
    | none =>
      obtain ⟨rfl, rfl⟩ := Prod.mk.inj (Except.ok.inj here)
      have spawned : s.SameBatch { s with workers := s.workers ++ [s.children], children := s.children + 1 } :=
        ⟨rfl, rfl, rfl⟩
      exact spawned.trans (ih later)

/-- A submit that is accepted, and what runs on from it. -/
theorem poolRun_submit {before after : List PoolEvent} {s₀ s₁ s₂ s : Pool} {items : Obj}
    {failures : Child → List (Option Bytes)} (there : poolRun yy tcl s₀ before = some s₁)
    (submitted : poolSubmit yy tcl s₁ items failures = .ok s₂)
    (ran : poolRun yy tcl s₀ (before ++ .submit items failures :: after) = some s) :
    poolRun yy tcl s₂ after = some s := by
  rw [poolRun_append, there, Option.bind_some] at ran
  obtain ⟨s', stepped, rest⟩ := Option.bind_eq_some_iff.mp ran
  simp only [poolStep, submitted] at stepped
  split_ifs at stepped
  obtain rfl := Option.some.inj stepped
  exact rest

/-- Replies of different ids are all found again by their id. -/
theorem foldl_byid {key : PoolReply → Bytes} {results : List PoolReply} (distinct : (results.map key).Nodup)
    (byid : List (Bytes × PoolReply)) :
    (∀ k, k ∉ results.map key →
      dictGet k (results.foldl (fun byid r => dictPut (key r) r byid) byid) = dictGet k byid) ∧
      ∀ r ∈ results, dictGet (key r) (results.foldl (fun byid r => dictPut (key r) r byid) byid) = some r := by
  induction results generalizing byid with
  | nil => exact ⟨fun _ _ => rfl, List.forall_mem_nil _⟩
  | cons r results ih =>
    obtain ⟨fresh, distinct⟩ := List.nodup_cons.mp distinct
    obtain ⟨others, inside⟩ := ih distinct (dictPut (key r) r byid)
    simp only [List.foldl_cons]
    refine ⟨fun k absent => ?_, List.forall_mem_cons.mpr ⟨?_, inside⟩⟩
    · simp only [List.map_cons, List.mem_cons, not_or] at absent
      rw [others k absent.2, dictGet_dictPut, if_neg fun same => absent.1 same.symm]
    · rw [others _ fresh, dictGet_dictPut, if_pos rfl]

theorem forall₂_filterMap {α β : Type} {p : α → β → Prop} {f : α → Option β} {l : List α}
    (each : ∀ a ∈ l, ∃ b, f a = some b ∧ p a b) : List.Forall₂ p l (l.filterMap f) := by
  induction l with
  | nil => exact List.Forall₂.nil
  | cons a l ih =>
    obtain ⟨⟨b, found, holds⟩, later⟩ := List.forall_mem_cons.mp each
    rw [List.filterMap_cons_some found]
    exact List.Forall₂.cons holds (ih later)

/-- A pool with nothing left to do has one reply for each id, and hands them
out in order. -/
theorem Pool.Conserved.replies {s : Pool} (inv : s.Conserved yy tcl) (empty : s.pending = [])
    (idle : s.inflight = []) :
    List.Forall₂ (fun k rep => rep ∈ s.results ∧ getString yy tcl rep.id = decimal k) (List.range s.submitted)
      (poolReplies yy tcl s) := by
  have ids := inv.ids
  simp only [Pool.ids, empty, idle, List.map_nil, List.nil_append] at ids
  have distinct : (s.results.map (getString yy tcl ·.id)).Nodup :=
    ids.nodup_iff.mpr (List.nodup_range.map fun _ _ => decimal_injective)
  have found := (foldl_byid distinct []).2
  refine forall₂_filterMap fun k member => ?_
  have named : decimal k ∈ s.results.map (getString yy tcl ·.id) := ids.mem_iff.mpr (List.mem_map_of_mem member)
  obtain ⟨rep, inside, same⟩ := List.mem_map.mp named
  exact ⟨rep, same ▸ found rep inside, inside, same⟩

/-- The replies of a pool that is done and not stuck: one for each id, read
while its item was in flight, or of an item that was given up. -/
theorem poolRun_replies {maxtries : Nat} {positive : 1 ≤ maxtries} {children : Child} {spawns : List (Option Bytes)}
    {s₀ : Pool} (created : poolCreate maxtries positive children spawns = .ok s₀)
    {events : List PoolEvent} {s : Pool}
    (ran : poolRun yy tcl s₀ events = some s) (done : s.done = true) (unstuck : s.fatal = []) :
    List.Forall₂ (fun k rep => getString yy tcl rep.id = decimal k ∧
      (Poisoned k rep ∨ ReadInFlight yy tcl s₀ events k rep)) (List.range s.submitted) (poolReplies yy tcl s) := by
  have inv₀ : s₀.Conserved yy tcl := poolCreate_conserved created
  have inv := poolRun_conserved inv₀ ran
  have initial := poolSpawns_sameBatch created
  obtain ⟨empty, idle⟩ := (inv.settled done).resolve_left (not_not.mpr unstuck)
  refine (inv.replies empty idle).imp fun k rep ⟨member, named⟩ => ⟨named, ?_⟩
  have none : s₀.results = [] := (inv₀.unsubmitted initial.once).2.2.1
  obtain old | ⟨k', poisoned | heard⟩ := poolRun_results inv₀ ran member
  · rw [none] at old
    cases old
  · obtain ⟨tries, rfl⟩ := poisoned
    obtain rfl := decimal_injective (show decimal k' = decimal k from named)
    exact Or.inl ⟨tries, rfl⟩
  · obtain ⟨b, text, spawn, fs, a, w, c, item, split, ran', control, held, rfl, reply, own⟩ := heard
    obtain rfl := decimal_injective (own.symm.trans named)
    exact Or.inr ⟨b, text, spawn, fs, a, w, c, item, split, ran', control, held, rfl, reply, own⟩

/-- A reply under the id of the item in flight is taken. -/
theorem poolTurn_accepts {s : Pool} {c : Child} {text : Bytes} {rep : PoolReply} {item : PoolItem}
    (nonempty : text ≠ [])
    (read : readReply yy tcl text = some rep) (held : dictGet c s.inflight = some item)
    (same : getString yy tcl rep.id = decimal item.id) (spawn : Option Bytes) (failures : List (Option Bytes)) :
    poolTurn yy tcl s c spawn failures (.line text) = poolFeed failures (poolReceive s c rep) c := by
  obtain ⟨a, text, rfl⟩ := List.exists_cons_of_ne_nil nonempty
  simp only [poolTurn, read, held, if_pos same]

/-- In every state after the batch each id is in one place; and when the
pool is done and not stuck, `PoolWait` returns one reply for each id, in
order. -/
theorem poolRun_batch {maxtries : Nat} {positive : 1 ≤ maxtries} {children : Child} {spawns : List (Option Bytes)}
    {s₀ : Pool} (created : poolCreate maxtries positive children spawns = .ok s₀) {before after : List PoolEvent}
    {s₁ s₂ s : Pool} {items : Obj} {its : List Obj} {failures : Child → List (Option Bytes)}
    (there : poolRun yy tcl s₀ before = some s₁) (read : listElements tcl items = .ok its)
    (submitted : poolSubmit yy tcl s₁ items failures = .ok s₂)
    (ran : poolRun yy tcl s₀ (before ++ .submit items failures :: after) = some s) :
    (s.ids yy tcl).Perm ((List.range its.length).map decimal) ∧ (s.ids yy tcl).Nodup ∧
      (∀ c ∈ s.inflight.map Prod.fst, c ∈ s.workers) ∧ (s.inflight.map Prod.fst).Nodup ∧
      (∀ id, s.putBack.count id ≤ maxtries - 1) ∧
      (s.done = true → s.fatal = [] → ∀ woken, ∃ replies, poolWait yy tcl s woken = .ok replies ∧
        List.Forall₂ (fun k rep => getString yy tcl rep.id = decimal k ∧
          (Poisoned k rep ∨ ReadInFlight yy tcl s₀ (before ++ .submit items failures :: after) k rep))
          (List.range its.length) replies) := by
  have inv₀ : s₀.Conserved yy tcl := poolCreate_conserved created
  have inv₁ := poolRun_conserved inv₀ there
  obtain ⟨inv₂, its', pend, read', count, moves⟩ := poolSubmit_conserved inv₁ submitted
  obtain rfl := Except.ok.inj (read'.symm.trans read)
  have rest := poolRun_submit there submitted ran
  have inv := poolRun_conserved inv₂ rest
  have same := moves.sameBatch.trans (poolRun_sameBatch inv₂ moves.sameBatch.once rest)
  have total : s.submitted = its'.length := same.submitted.trans count
  have initial := poolSpawns_sameBatch created
  have limit : s.maxtries = maxtries := (poolRun_maxtries inv₀ ran).trans initial.maxtries
  have ids := inv.ids
  rw [total] at ids
  refine ⟨ids, ids.nodup_iff.mpr (List.nodup_range.map fun _ _ => decimal_injective), inv.live, inv.single,
    fun id => limit ▸ inv.limit id, fun done unstuck woken => ?_⟩
  refine ⟨poolReplies yy tcl s, by simp only [poolWait, unstuck, ne_eq, not_true, if_false, done, if_true], ?_⟩
  rw [← total]
  exact poolRun_replies created ran done unstuck

end

/-- A new pool of one worker. -/
def lonePool : Pool :=
  { width := 1, maxtries := 3, positive := by decide, pending := [], results := [], inflight := [], workers := [0],
    nextid := 0, dead := 0, requeued := 0, errbuf := [], fatal := [], done := true, submitted := 0,
    submittedOnce := false, tries := [], children := 1, control := none, sent := [], putBack := [] }

theorem lonePool_created : poolCreate 3 (by decide) 0 [none] = .ok lonePool := rfl

def loneItem : Obj := .dict [(ascii "op", .str (ascii "go"))]

def loneItems : Obj := .list [loneItem]

/-- The lone worker has the lone item. -/
def loneBusy : Pool :=
  let item := numberItem 0 [(ascii "op", .str (ascii "go"))]
  { lonePool with
    inflight := [(0, item)], nextid := 1, submitted := 1, submittedOnce := true, done := false, sent :=
      [(0, item)] }

theorem loneItems_submitted : poolSubmit referenceYyjson wordTcl lonePool loneItems (fun _ => []) = .ok loneBusy :=
  rfl

/-- A reply as a worker writes it. -/
def earlyReply (k : String) : List (Bytes × Obj) := [(ascii "id", .str (ascii k)), (ascii "ok", .str (ascii "1"))]

def earlyLine (k : String) : Bytes := ascii "\x7b\"id\":" ++ (ascii k ++ ascii ",\"ok\":1\x7d")

def earlyRep (k : String) : PoolReply := ⟨earlyReply k, .str (ascii k), .str (ascii "1"), rfl, rfl⟩

/-- The line of the example is read as its reply. -/
theorem earlyLine_read {tcl : Tcl} (spec : tcl.Spec) {k : String} (whole : Utf8.WellFormed (ascii k))
    (emitted : jsonEmit referenceYyjson true 0 (.dict (earlyReply k)) = .ok (earlyLine k)) :
    readReply referenceYyjson tcl (earlyLine k) = some (earlyRep k) := by
  have one : Utf8.WellFormed (ascii "1") := by decide
  have fits : Fits 0 (.dict (earlyReply k)) :=
    ⟨Nat.le_of_ble_eq_true rfl, ⟨show [ascii "id", ascii "ok"].Nodup
      by decide, by decide, whole, by decide, one, trivial⟩,
      trivial, trivial, trivial⟩
  have decoded := fits.jsonDecode_emitted referenceYyjson_spec tcl emitted
  have value : ¬ IsOptionWord (getString referenceYyjson tcl (.dict (earlyReply k))) := spec.id_not_option _ _
  have encoded := (@jsonEncode_plain referenceYyjson tcl (.dict (earlyReply k))).2 value
  simp only [readReply, decoded, encoded, emitted]
  rfl

def twoItems : Obj := .list [loneItem, loneItem]

def goItem (id : Nat) : PoolItem := numberItem id [(ascii "op", .str (ascii "go"))]

/-- The lone worker has the first item of the two. -/
def earlyFed : Pool :=
  { lonePool with
    pending := [goItem 1], inflight := [(0, goItem 0)], nextid := 2, submitted := 2, submittedOnce := true, done :=
      false,
    sent := [(0, goItem 0)] }

/-- The worker of the first item dies; the one in its place answers both. -/
def replacedEvents : List PoolEvent :=
  [.readable 0 false none [], .readable 1 true none [], .gets (.line (earlyLine "0")) none [],
    .gets (.line (earlyLine "1")) none [], .gets (.dry false) none []]

/-- The first item is with the new worker. -/
def replacedFed : Pool :=
  { earlyFed with
    inflight := [(1, goItem 0)], workers := [1], dead := 1, requeued := 1, tries := [(0, 1)], children := 2,
    sent := [(0, goItem 0), (1, goItem 0)], putBack := [0] }

def replacedDone : Pool :=
  { replacedFed with
    pending := [], inflight := [], results := [earlyRep "0", earlyRep "1"], done := true,
    sent := [(0, goItem 0), (1, goItem 0), (1, goItem 1)] }

theorem replaced_ran :
    poolRun referenceYyjson wordTcl lonePool ([] ++ .submit twoItems (fun _ => []) :: replacedEvents) =
      some replacedDone := by
  have read0 : readReply referenceYyjson wordTcl (earlyLine "0") = some (earlyRep "0") :=
    earlyLine_read wordTcl_spec (by decide) rfl
  have read1 : readReply referenceYyjson wordTcl (earlyLine "1") = some (earlyRep "1") :=
    earlyLine_read wordTcl_spec (by decide) rfl
  have submit : poolStep referenceYyjson wordTcl lonePool (.submit twoItems fun _ => []) = some earlyFed := rfl
  have died : poolStep referenceYyjson wordTcl earlyFed (.readable 0 false none []) = some replacedFed := rfl
  have first : poolTurn referenceYyjson wordTcl { replacedFed with control := some 1 } 1 none []
    (.line (earlyLine "0")) = _ :=
    poolTurn_accepts (List.cons_ne_nil _ _) read0 rfl rfl none []
  have second : poolTurn referenceYyjson wordTcl (poolFeed []
    (poolReceive { replacedFed with control := some 1 } 1 (earlyRep "0")) 1)
      1 none [] (.line (earlyLine "1")) = _ := poolTurn_accepts (List.cons_ne_nil _ _) read1 rfl rfl none []
  have reads : poolRun referenceYyjson wordTcl replacedFed (replacedEvents.drop 1) = some replacedDone := by
    refine Option.bind_eq_some_iff.mpr ⟨_, rfl, Option.bind_eq_some_iff.mpr ⟨_, congrArg some first, ?_⟩⟩
    exact Option.bind_eq_some_iff.mpr ⟨_, congrArg some second, rfl⟩
  exact Option.bind_eq_some_iff.mpr ⟨_, submit, Option.bind_eq_some_iff.mpr ⟨_, died, reads⟩⟩

theorem poolRun_batch_sample :
    (replacedDone.ids referenceYyjson wordTcl).Perm ((List.range [loneItem, loneItem].length).map decimal) ∧
      replacedDone.putBack = [0] ∧ ∀ woken, ∃ replies,
        poolWait referenceYyjson wordTcl replacedDone woken = .ok replies ∧
        List.Forall₂ (fun k rep => getString referenceYyjson wordTcl rep.id = decimal k ∧
          (Poisoned k rep ∨ ReadInFlight referenceYyjson wordTcl lonePool
            ([] ++ .submit twoItems (fun _ => []) :: replacedEvents) k rep))
            (List.range [loneItem, loneItem].length) replies := by
  have batch := poolRun_batch lonePool_created rfl rfl
    (show poolSubmit referenceYyjson wordTcl lonePool twoItems (fun _ => []) = .ok earlyFed from rfl) replaced_ran
  exact ⟨batch.1, rfl, batch.2.2.2.2.2 rfl rfl⟩

end Machteld
