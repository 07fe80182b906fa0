import Machteld.Pmap.Errors
import Machteld.Pmap.Registry
import Machteld.Pool.Wire

namespace Machteld

def isLetter (c : UInt8) : Bool :=
  (decide (0x41 ≤ c) && decide (c ≤ 0x5A)) || (decide (0x61 ≤ c) && decide (c ≤ 0x7A))

/-- The documented behaviour of Tcl that the reply of a given-up item relies
on: 0 is false, `expr` leaves a text alone that starts with a letter but not
as `Inf` and `NaN` do, and plain words are a list. -/
structure TclOps.Spec (ops : TclOps) (tcl : Tcl) : Prop where
  not_zero : ops.notOf (.str (ascii "0")) = .ok true
  expr_text : ∀ c s, isLetter c = true → c ∉ ascii "IiNn" → tcl.exprOf (.str (c :: s)) = .ok (.str (c :: s))
  list_words : ∃ words, tcl.listOf (.str (ascii "MACHTELD POOL poison")) = .ok words

section

variable (yy : Yyjson) (tcl : Tcl) (ops : TclOps)

/-- A reply with the id of the k-th request that was read from a worker
while that request was in flight on it. -/
def PmapHeard (world : PmapWorld) (o : PmapOptions) (cmd : List Bytes) (reqs : Obj) (k : Nat)
    (rep : PoolReply) : Prop :=
  ∃ s₀, poolCreateWords ops world.children world.launches (pmapCreateWords o cmd) = .ok s₀ ∧
    ReadInFlight yy tcl s₀ (.submit reqs world.failures :: world.events) k rep

/-- The reply tells of success. -/
def Succeeded (rep : PoolReply) : Prop := ops.notOf rep.ok = .ok false

def Failed (rep : PoolReply) : Prop := ops.notOf rep.ok = .ok true

/-- What a reply has to be for `pmap` to take it as it is: `ok` is a
boolean, `expr` leaves the members alone that are used, and the code is a
list. -/
structure PmapRegular (rep : PoolReply) : Prop where
  truth : Succeeded ops rep ∨ Failed ops rep
  result : Succeeded ops rep → ∀ v, dictGet (ascii "result") rep.reply = some v → tcl.exprOf v = .ok v
  message : Failed ops rep → ∀ v, dictGet (ascii "msg") rep.reply = some v → tcl.exprOf v = .ok v
  code : Failed ops rep → ∀ v, dictGet (ascii "code") rep.reply = some v →
    tcl.exprOf v = .ok v ∧ ∃ words, listElements tcl v = .ok words

/-- A reply that was heard, or that of a request that was given up, which is
a regular failure. -/
def PmapReply (world : PmapWorld) (o : PmapOptions) (cmd : List Bytes) (reqs : Obj) (k : Nat)
    (rep : PoolReply) : Prop :=
  PmapHeard yy tcl ops world o cmd reqs k rep ∨ Poisoned k rep ∧ Failed ops rep ∧ PmapRegular tcl ops rep

/-- The `result` of a reply, or nothing where it has none. -/
def resultOf (rep : PoolReply) : Obj := (dictGet (ascii "result") rep.reply).getD (.str [])

/-- The code is missing, empty or `NONE`. -/
def Uncoded (rep : PoolReply) : Prop :=
  ∀ code, dictGet (ascii "code") rep.reply = some code →
    getString yy tcl code = [] ∨ getString yy tcl code = ascii "NONE"

/-- The failure a reply tells of. -/
structure PmapRaised (rep : PoolReply) (e : TclError) : Prop where
  message : e.message = getString yy tcl ((dictGet (ascii "msg") rep.reply).getD (.str (ascii "item failed")))
  uncoded : Uncoded yy tcl rep → e.errorcode = [ascii "MACHTELD", ascii "PMAP", ascii "failed"]
  coded : ¬ Uncoded yy tcl rep → ∃ code words, dictGet (ascii "code") rep.reply = some code ∧
    listElements tcl code = .ok words ∧ e.errorcode = words.map (getString yy tcl)

/-- How a call ends that has got its replies. -/
inductive PmapOutcome (replies : List PoolReply) : Bool → Except TclError (List Obj) → Prop
  | raw : PmapOutcome replies true (.ok (replies.map fun r => .dict r.reply))
  | results (all : ∀ r ∈ replies, Succeeded ops r ∧ PmapRegular tcl ops r) :
    PmapOutcome replies false (.ok (replies.map resultOf))
  | failure {before : List PoolReply} {rep : PoolReply} {after : List PoolReply} {e : TclError}
    (split : replies = before ++ rep :: after) (earlier : ∀ r ∈ before, Succeeded ops r ∧ PmapRegular tcl ops r)
    (fails : Failed ops rep) (raised : PmapRaised yy tcl rep e) : PmapOutcome replies false (.error e)
  | irregular {before : List PoolReply} {rep : PoolReply} {after : List PoolReply} {r : Except TclError (List Obj)}
    (split : replies = before ++ rep :: after) (earlier : ∀ r ∈ before, Succeeded ops r ∧ PmapRegular tcl ops r)
    (odd : ¬ PmapRegular tcl ops rep) : PmapOutcome replies false r

end

section

variable {yy : Yyjson} {tcl : Tcl} {ops : TclOps}

theorem exprGet_settled {key : Bytes} {dflt : Obj} {req : List (Bytes × Obj)}
    (settled : ∀ v, dictGet key req = some v → tcl.exprOf v = .ok v) :
    exprGet tcl key dflt req = .ok ((dictGet key req).getD dflt) := by
  unfold exprGet
  cases found : dictGet key req with
  | none => rfl
  | some v => exact settled v found

/-- A reply that tells of a failure becomes the error that it tells of. -/
theorem PmapRegular.raised {rep : PoolReply} (regular : PmapRegular tcl ops rep) (fails : Failed ops rep) :
    PmapRaised yy tcl rep (pmapFailure yy tcl rep) := by
  have message : exprGet tcl (ascii "msg") (.str (ascii "item failed")) rep.reply = _ :=
    exprGet_settled (regular.message fails)
  have code : exprGet tcl (ascii "code") (.str []) rep.reply = _ :=
    exprGet_settled fun v found => (regular.code fails v found).1
  unfold pmapFailure
  simp only [message, code]
  cases found : dictGet (ascii "code") rep.reply with
  | none =>
    have uncoded : Uncoded yy tcl rep := fun code known => by rw [found] at known; cases known
    exact ⟨rfl, fun _ => rfl, fun coded => absurd uncoded coded⟩
  | some code =>
    obtain ⟨words, listed⟩ := (regular.code fails code found).2
    simp only [Option.getD_some]
    split_ifs with empty
    · have uncoded : Uncoded yy tcl rep := fun code' known => by
        obtain rfl := Option.some.inj (found.symm.trans known)
        exact empty
      exact ⟨rfl, fun _ => rfl, fun coded => absurd uncoded coded⟩
    · have raised : returnError yy tcl code ((dictGet (ascii "msg") rep.reply).getD (.str (ascii "item failed"))) =
          ⟨getString yy tcl ((dictGet (ascii "msg") rep.reply).getD (.str (ascii "item failed"))),
            words.map (getString yy tcl)⟩ := by
        unfold returnError
        rw [listed]
      rw [raised]
      exact ⟨rfl, fun uncoded => absurd (uncoded code found) empty, fun _ => ⟨code, words, found, listed, rfl⟩⟩

/-- The last loop goes on behind a success. -/
theorem PmapOutcome.cons {r : PoolReply} {replies : List PoolReply} {out : Except TclError (List Obj)}
    (succeeded : Succeeded ops r) (regular : PmapRegular tcl ops r)
    (outcome : PmapOutcome yy tcl ops replies false out) :
    PmapOutcome yy tcl ops (r :: replies) false (out.map fun values => resultOf r :: values) := by
  have here := And.intro succeeded regular
  cases outcome with
  | results all => exact .results (List.forall_mem_cons.mpr ⟨here, all⟩)
  | failure split earlier fails raised =>
    exact .failure (by rw [split, List.cons_append]) (List.forall_mem_cons.mpr ⟨here, earlier⟩) fails raised
  | irregular split earlier odd =>
    exact .irregular (by rw [split, List.cons_append]) (List.forall_mem_cons.mpr ⟨here, earlier⟩) odd

/-- The results in their order up to the first failure. The induction is on
the replies, and what comes behind a failure is not looked at. -/
theorem pmapResults_outcome (replies : List PoolReply) :
    PmapOutcome yy tcl ops replies false (pmapResults yy tcl ops replies) := by
  induction replies with
  | nil => exact .results (List.forall_mem_nil _)
  | cons r replies ih =>
    by_cases regular : PmapRegular tcl ops r
    · obtain succeeded | failed := regular.truth
      · have value : exprGet tcl (ascii "result") (.str []) r.reply = .ok (resultOf r) :=
          exprGet_settled (regular.result succeeded)
        have step : pmapResults yy tcl ops (r :: replies) =
            (pmapResults yy tcl ops replies).map fun values => resultOf r :: values := by
          simp only [pmapResults, show ops.notOf r.ok = .ok false from succeeded, value]
          rfl
        rw [step]
        exact ih.cons succeeded regular
      · have step : pmapResults yy tcl ops (r :: replies) = .error (pmapFailure yy tcl r) := by
          simp only [pmapResults, show ops.notOf r.ok = .ok true from failed]
        rw [step]
        exact .failure (List.nil_append _).symm (List.forall_mem_nil _) failed (regular.raised failed)
    · exact .irregular (List.nil_append _).symm (List.forall_mem_nil _) regular

/-- The reply of a poisoned item tells of a failure as any other one does.
-/
theorem Poisoned.regular (spec : ops.Spec tcl) {k : Nat} {rep : PoolReply} (poisoned : Poisoned k rep) :
    Failed ops rep ∧ PmapRegular tcl ops rep := by
  obtain ⟨tries, rfl⟩ := poisoned
  have fails : Failed ops (poisonReply k tries) := spec.not_zero
  have text : ∀ c s, isLetter c = true → c ∉ ascii "IiNn" → ∀ v, some (Obj.str (c :: s)) = some v →
      tcl.exprOf v = .ok v := by
    rintro c s letter other v same
    obtain rfl := Option.some.inj same
    exact spec.expr_text c s letter other
  have not : ¬ Succeeded ops (poisonReply k tries) := fun succeeded =>
    Bool.noConfusion (Except.ok.inj (fails.symm.trans succeeded))
  refine ⟨fails, .inr fails, fun succeeded => absurd succeeded not, fun _ v found => ?_, fun _ v found => ⟨?_, ?_⟩⟩
  · exact text 0x6B _ (by decide) (by decide) v found
  · exact text 0x4D _ (by decide) (by decide) v found
  · obtain rfl := Option.some.inj (show some (Obj.str (ascii "MACHTELD POOL poison")) = some v from found)
    exact spec.list_words

theorem ReadInFlight.more {s₀ : Pool} {events : List PoolEvent} {k : Nat} {rep : PoolReply}
    (read : ReadInFlight yy tcl s₀ events k rep) (more : List PoolEvent) :
    ReadInFlight yy tcl s₀ (events ++ more) k rep := by
  obtain ⟨before, text, spawn, failures, after, s, c, item, rfl, rest⟩ := read
  exact ⟨before, text, spawn, failures, after ++ more, s, c, item,
    by rw [List.append_assoc, List.cons_append], rest⟩

/-- What a wait returns is the replies of a pool that is done. -/
theorem poolWait_ok {s : Pool} {woken : Woken} {replies : List PoolReply}
    (waited : poolWait yy tcl s woken = .ok replies) :
    ∃ s', (s.done = true ∧ s' = s ∨ woken = .done s') ∧ s'.fatal = [] ∧ replies = poolReplies yy tcl s' := by
  unfold poolWait at waited
  split_ifs at waited with fatal done
  · exact ⟨s, .inl ⟨done, rfl⟩, not_not.mp fatal, (Except.ok.inj waited).symm⟩
  · cases woken with
    | timeout s' => cases waited
    | done s' =>
      simp only at waited
      split_ifs at waited with stuck
      exact ⟨s', .inr rfl, not_not.mp stuck, (Except.ok.inj waited).symm⟩

theorem poolCreateWords_ok {children : Child} {launches : Nat → Option Bytes} {argl : List Bytes} {s : Pool}
    (created : poolCreateWords ops children launches argl = .ok s) :
    ∃ maxtries positive spawns, poolCreate maxtries positive children spawns = .ok s := by
  obtain ⟨⟨o, cmd⟩, _, later⟩ := Except.bind_ok.mp created
  simp only at later
  split_ifs at later
  exact ⟨o.maxtries, o.positive, _, later⟩

/-- The replies of a batch, where the wait has ended well. -/
theorem pmapBatch_replies (spec : ops.Spec tcl) {world : PmapWorld} {o : PmapOptions}
    {cmd : List Bytes} {reqs : Obj}
    {its : List Obj} (read : listElements tcl reqs = .ok its) {s₀ s₂ s : Pool}
    (created : poolCreateWords ops world.children world.launches (pmapCreateWords o cmd) = .ok s₀)
    (submitted : poolSubmit yy tcl s₀ reqs world.failures = .ok s₂) {events more : List PoolEvent}
    (split : events ++ more = world.events) (ran : poolRun yy tcl s₂ events = some s) (done : s.done = true)
    (unstuck : s.fatal = []) :
    List.Forall₂ (PmapReply yy tcl ops world o cmd reqs) (List.range its.length) (poolReplies yy tcl s) := by
  obtain ⟨maxtries, positive, spawns, start⟩ := poolCreateWords_ok created
  have inv₀ : s₀.Conserved yy tcl := poolCreate_conserved start
  obtain ⟨inv₂, its', pend, read', count, moves⟩ := poolSubmit_conserved inv₀ submitted
  obtain rfl := Except.ok.inj (read'.symm.trans read)
  have idle : s₀.control = none := poolSpawns_control start
  have whole : poolRun yy tcl s₀ (.submit reqs world.failures :: events) = some s := by
    simp only [poolRun, poolStep, idle, submitted, Option.isSome_none, Bool.false_eq_true, if_false,
      Option.bind_some]
    exact ran
  have same := moves.sameBatch.trans (poolRun_sameBatch inv₂ moves.sameBatch.once ran)
  have total : s.submitted = its'.length := same.submitted.trans count
  rw [← total]
  refine (poolRun_replies start whole done unstuck).imp fun k rep answered => ?_
  obtain ⟨_, poisoned | heard⟩ := answered
  · exact .inr ⟨poisoned, poisoned.regular spec⟩
  · refine .inl ⟨s₀, created, ?_⟩
    rw [← split, ← List.cons_append]
    exact heard.more more

/-- How the body of the `catch` ends. -/
theorem pmapBatch_cases (spec : ops.Spec tcl) {world : PmapWorld} {o : PmapOptions} {cmd : List Bytes} {reqs : Obj}
    {its : List Obj} (read : listElements tcl reqs = .ok its) {p : Option Pool}
    {r : Except TclError (List PoolReply)} (batched : pmapBatch yy tcl ops world o cmd reqs = some (p, r)) :
    (∀ s, p = some s → s.Since world.children) ∧
      ((∃ e, r = .error e ∧ PoolOwn e) ∨ ∃ replies, r = .ok replies ∧
        List.Forall₂ (PmapReply yy tcl ops world o cmd reqs) (List.range its.length) replies) := by
  unfold pmapBatch at batched
  cases created : poolCreateWords ops world.children world.launches (pmapCreateWords o cmd) with
  | error e =>
    rw [created] at batched
    obtain ⟨rfl, rfl⟩ := Prod.mk.inj (Option.some.inj batched)
    exact ⟨nofun, .inl ⟨e, rfl, poolCreateWords_error created⟩⟩
  | ok s₀ =>
    obtain ⟨maxtries, positive, spawns, start⟩ := poolCreateWords_ok created
    have since₀ := poolCreate_since start
    have inv₀ : s₀.Conserved yy tcl := poolCreate_conserved start
    simp only [created] at batched
    cases submitted : poolSubmit yy tcl s₀ reqs world.failures with
    | error e =>
      rw [submitted] at batched
      obtain ⟨rfl, rfl⟩ := Prod.mk.inj (Option.some.inj batched)
      refine ⟨fun s same => ?_, .inl ⟨e, rfl, poolSubmit_error read submitted⟩⟩
      obtain rfl := Option.some.inj same
      exact since₀
    | ok s₂ =>
      have since₂ := poolSubmit_since inv₀ submitted since₀
      have inv₂ := (poolSubmit_conserved inv₀ submitted).1
      simp only [submitted] at batched
      cases duration : dur2ms "POOL" (decimal o.timeout ++ ascii "ms") with
      | error e =>
        rw [duration] at batched
        obtain ⟨rfl, rfl⟩ := Prod.mk.inj (Option.some.inj batched)
        refine ⟨fun s same => ?_, .inl ⟨e, rfl, ascii "badvalue", by decide, dur2ms_error duration⟩⟩
        obtain rfl := Option.some.inj same
        exact since₂
      | ok ms =>
        simp only [duration] at batched
        split_ifs at batched with early
        · obtain ⟨rfl, rfl⟩ := Prod.mk.inj (Option.some.inj batched)
          refine ⟨fun s same => ?_, ?_⟩
          · obtain rfl := Option.some.inj same
            exact since₂
          cases waited : poolWait yy tcl s₂ (.done s₂) with
          | error e => exact .inl ⟨e, rfl, poolWait_error waited⟩
          | ok replies =>
            obtain ⟨s, which, unstuck, rfl⟩ := poolWait_ok waited
            obtain rfl : s = s₂ := which.elim (fun same => same.2) fun same => (Woken.done.inj same).symm
            have done := early.resolve_left (not_not.mpr unstuck)
            exact .inr ⟨_, rfl, pmapBatch_replies spec read created submitted (List.nil_append _) rfl done unstuck⟩
        · obtain ⟨woken, ended, both⟩ := Option.map_eq_some_iff.mp batched
          obtain ⟨rfl, rfl⟩ := Prod.mk.inj both
          obtain ⟨s₃, ran, ended⟩ := Option.bind_eq_some_iff.mp ended
          have since₃ := poolRun_since inv₂ ran since₂
          refine ⟨fun s same => ?_, ?_⟩
          · obtain rfl := Option.some.inj same
            split_ifs at ended
            · obtain rfl := Option.some.inj ended
              exact since₃
            · obtain rfl := Option.some.inj ended
              exact since₃
          cases waited : poolWait yy tcl s₂ woken with
          | error e => exact .inl ⟨e, rfl, poolWait_error waited⟩
          | ok replies =>
            obtain ⟨s, ⟨finished, -⟩ | same, unstuck, rfl⟩ := poolWait_ok waited
            · exact absurd finished (not_or.mp early).2
            subst same
            split_ifs at ended with timer done
            · cases ended
            · obtain rfl := Woken.done.inj (Option.some.inj ended)
              exact .inr ⟨_, rfl, pmapBatch_replies spec read created submitted
                (List.append_nil _) ran done unstuck⟩

theorem pmapUncreated_registry {world : PmapWorld} {o : PmapOptions} {cmd : List Bytes} {registry : List Child}
    (others : ∀ c ∈ registry, c < world.children) : pmapUncreated ops world o cmd registry = registry := by
  unfold pmapUncreated
  split
  · rfl
  · exact registry_closed others (poolStarted_since _ _)

/-- One call of `pmap` on a list of requests: no worker stays registered,
and it fails itself, or has a reply to each request and ends as they tell.
-/
theorem pmap_outcome (spec : ops.Spec tcl) {world : PmapWorld} {registry : List Child} {reqs : Obj}
    {its rest : List Obj}
    {last : PmapEnd} (read : listElements tcl reqs = .ok its) (others : ∀ c ∈ registry, c < world.children)
    (called : pmap yy tcl ops world registry (reqs :: rest) = some last) :
    last.registry = registry ∧
      ((∃ e, last.result = .error e ∧ PmapOwn e) ∨
        ∃ o cmd replies, pmapOptions (rest.map (getString yy tcl)) pmapDefaults = .ok (o, cmd) ∧
          List.Forall₂ (PmapReply yy tcl ops world o cmd reqs) (List.range its.length) replies ∧
          PmapOutcome yy tcl ops replies o.raw last.result) := by
  cases rest with
  | nil =>
    obtain rfl := Option.some.inj called
    exact ⟨rfl, .inl ⟨_, rfl, pmapFail_own (by decide) _⟩⟩
  | cons a rest =>
    simp only [pmap] at called
    cases parsed : pmapOptions ((a :: rest).map (getString yy tcl)) pmapDefaults with
    | error e =>
      rw [parsed] at called
      obtain rfl := Option.some.inj called
      exact ⟨rfl, .inl ⟨e, rfl, pmapOptions_error parsed⟩⟩
    | ok parts =>
      obtain ⟨o, cmd⟩ := parts
      simp only [parsed] at called
      split_ifs at called with empty
      · obtain rfl := Option.some.inj called
        exact ⟨rfl, .inl ⟨_, rfl, pmapFail_own (by decide) _⟩⟩
      rw [read] at called
      cases its with
      | nil =>
        obtain rfl := Option.some.inj called
        refine ⟨rfl, .inr ⟨o, cmd, [], rfl, .nil, ?_⟩⟩
        cases o.raw with
        | true => exact .raw
        | false => exact .results (List.forall_mem_nil _)
      | cons it its =>
        obtain ⟨⟨p, r⟩, batched, rfl⟩ := Option.map_eq_some_iff.mp called
        obtain ⟨since, ends⟩ := pmapBatch_cases spec read batched
        refine ⟨?_, ?_⟩
        · cases p with
          | none => exact pmapUncreated_registry others
          | some s => exact registry_closed others (since s rfl).workers
        · obtain ⟨e, rfl, own⟩ | ⟨replies, rfl, origins⟩ := ends
          · exact .inl ⟨_, rfl, own.restated⟩
          · refine .inr ⟨o, cmd, replies, rfl, origins, ?_⟩
            cases o.raw with
            | true => exact .raw
            | false => exact pmapResults_outcome replies

end

/-- `!` on the two numbers a worker writes, and decimal integers. -/
def sampleOps : TclOps where
  notOf v :=
    match v with
    | .str [0x30] => .ok true
    | .str [0x31] => .ok false
    | _ => .error ⟨ascii "can't use non-numeric string as operand of \"!\"", [ascii "ARITH", ascii "DOMAIN"]⟩
  integerOf s := if s ≠ [] ∧ s.all isDigit then some (digitsValue s) else none

/-- Texts without quoting are lists of their words. -/
def sampleTcl : Tcl :=
  { wordTcl with
    listOf := fun v =>
      match v with
      | .str s => .ok ((s.splitOnP fun c => c == space).map .str)
      | _ => .error ⟨ascii "missing list", []⟩ }

theorem sampleTcl_spec : sampleTcl.Spec := { wordTcl_spec with }

theorem sampleOps_spec : sampleOps.Spec sampleTcl where
  not_zero := rfl
  expr_text _ _ _ _ := rfl
  list_words := ⟨_, rfl⟩

/-- The one worker writes a reply without a result. -/
def samplePmapWorld : PmapWorld where
  children := 0
  launches _ := none
  failures _ := []
  events := [.readable 0 true none [], .gets (.line (earlyLine "0")) none [], .gets (.dry false) none []]
  timedOut := false

def sampleArgs : List Obj := [.str (ascii "-width"), .str (ascii "1"), .str (ascii "--"), .str (ascii "worker")]

def samplePmapOptions : PmapOptions := { pmapDefaults with width := ascii "1" }

def sampleDone : Pool :=
  { loneBusy with inflight := [], results := [earlyRep "0"], done := true }

theorem sample_created : poolCreateWords sampleOps samplePmapWorld.children samplePmapWorld.launches
    (pmapCreateWords samplePmapOptions [ascii "worker"]) = .ok lonePool := rfl

theorem sample_ran : poolRun referenceYyjson sampleTcl loneBusy samplePmapWorld.events = some sampleDone := by
  have read : readReply referenceYyjson sampleTcl (earlyLine "0") = some (earlyRep "0") :=
    earlyLine_read sampleTcl_spec (by decide) rfl
  have turn : poolTurn referenceYyjson sampleTcl { loneBusy with control := some 0 } 0 none []
    (.line (earlyLine "0")) =
      { loneBusy with inflight := [], results := [earlyRep "0"], done := true, control := some 0 } :=
    (poolTurn_accepts (List.cons_ne_nil _ _) read rfl rfl none []).trans rfl
  have heard : poolStep referenceYyjson sampleTcl { loneBusy with control := some 0 }
      (.gets (.line (earlyLine "0")) none []) =
      some { loneBusy with inflight := [], results := [earlyRep "0"], done := true, control := some 0 } :=
    congrArg some turn
  exact Option.bind_eq_some_iff.mpr ⟨_, rfl, Option.bind_eq_some_iff.mpr ⟨_, heard, rfl⟩⟩

theorem sample_called : pmap referenceYyjson sampleTcl sampleOps samplePmapWorld [] (loneItems :: sampleArgs) =
    some ⟨.ok [.str []], []⟩ := by
  have submitted : poolSubmit referenceYyjson sampleTcl lonePool loneItems samplePmapWorld.failures =
    .ok loneBusy := rfl
  have duration : dur2ms "POOL" (decimal samplePmapOptions.timeout ++ ascii "ms") = .ok 300000 := rfl
  have batch : pmapBatch referenceYyjson sampleTcl sampleOps samplePmapWorld samplePmapOptions
    [ascii "worker"] loneItems =
      some (some sampleDone, .ok [earlyRep "0"]) := by
    simp only [pmapBatch, sample_created, submitted, duration, pmapWoken, sample_ran]
    rfl
  have call : pmapCall referenceYyjson sampleTcl sampleOps samplePmapWorld [] samplePmapOptions [ascii "worker"]
      loneItems = some ⟨.ok [.str []], []⟩ := by
    rw [pmapCall, batch]
    rfl
  exact call

theorem pmap_outcome_sample : ∃ last,
    pmap referenceYyjson sampleTcl sampleOps samplePmapWorld [] (loneItems :: sampleArgs) = some last ∧
      last.registry = [] ∧ ∃ o cmd replies,
        List.Forall₂ (PmapReply referenceYyjson sampleTcl sampleOps samplePmapWorld o cmd loneItems)
          (List.range 1) replies ∧
          PmapOutcome referenceYyjson sampleTcl sampleOps replies o.raw last.result := by
  obtain ⟨registry, ⟨e, failed, -⟩ | ⟨o, cmd, replies, -, origins, outcome⟩⟩ :=
    pmap_outcome sampleOps_spec rfl (List.forall_mem_nil _) sample_called
  · cases failed
  · exact ⟨_, sample_called, registry, o, cmd, replies, origins, outcome⟩

/-- The worker's reply to the one request has no result, and `pmap` returns
an empty one. -/
theorem pmap_resultless : ∃ last,
    pmap referenceYyjson sampleTcl sampleOps samplePmapWorld [] (loneItems :: sampleArgs) = some last ∧
      last.result = .ok [.str []] ∧ ∀ k rep,
        PmapHeard referenceYyjson sampleTcl sampleOps samplePmapWorld samplePmapOptions [ascii "worker"]
          loneItems k rep →
          dictGet (ascii "result") rep.reply = none := by
  refine ⟨_, sample_called, rfl, ?_⟩
  rintro k rep ⟨s₀, -, before, text, spawn, failures, after, s, c, item, split, -, -, -, -, reads, -⟩
  have member : PoolEvent.gets (.line text) spawn failures ∈
      PoolEvent.submit loneItems samplePmapWorld.failures :: samplePmapWorld.events :=
    split ▸ List.mem_append_right _ List.mem_cons_self
  have known : text = earlyLine "0" ∧ spawn = none ∧ failures = [] := by simpa [samplePmapWorld] using member
  have read : readReply referenceYyjson sampleTcl (earlyLine "0") = some (earlyRep "0") :=
    earlyLine_read sampleTcl_spec (by decide) rfl
  rw [known.1, read] at reads
  obtain rfl := Option.some.inj reads
  decide

end Machteld
