import Machteld.Decimal
import Machteld.Json.Value
import Machteld.Prog

namespace Machteld

abbrev childToken (n : Nat) : Bytes := handleToken "child" n

/-- The children of `proc_ctx`, the last one started first, and the number
of tokens made; before the counter of the source comes round no two are the
same. -/
structure ChildRegistry where
  tokens : List Bytes
  counter : Nat
  issued : ∀ token ∈ tokens, ∃ n ≤ counter, token = childToken n
  distinct : counter < 2 ^ 31 → tokens.Nodup

namespace ChildRegistry

def empty : ChildRegistry := ⟨[], 0, nofun, fun _ => List.nodup_nil⟩

theorem fresh (r : ChildRegistry) {n : Nat} (above : r.counter < n) (few : n < 2 ^ 31) :
    childToken n ∉ r.tokens := by
  intro member
  obtain ⟨m, below, same⟩ := r.issued _ member
  have equal := handleToken_injective few (by omega) same
  omega

/-- The end of `child_launch`. -/
def track (r : ChildRegistry) : ChildRegistry where
  tokens := childToken (r.counter + 1) :: r.tokens
  counter := r.counter + 1
  issued := List.forall_mem_cons.mpr ⟨⟨_, Nat.le_refl _, rfl⟩, fun token member =>
    have ⟨n, below, same⟩ := r.issued token member
    ⟨n, Nat.le_succ_of_le below, same⟩⟩
  distinct := fun few => List.nodup_cons.mpr ⟨r.fresh (Nat.lt_succ_self _) few, r.distinct (Nat.lt_of_succ_lt few)⟩

/-- A child that was tracked and taken out again, as its channels could not
be made. -/
def untrack (r : ChildRegistry) : ChildRegistry where
  tokens := r.tokens
  counter := r.counter + 1
  issued := fun token member =>
    have ⟨n, below, same⟩ := r.issued token member
    ⟨n, Nat.le_succ_of_le below, same⟩
  distinct := fun few => r.distinct (Nat.lt_of_succ_lt few)

/-- `registry_remove` -/
def remove (r : ChildRegistry) (token : Bytes) : ChildRegistry where
  tokens := r.tokens.erase token
  counter := r.counter
  issued := fun t member => r.issued t (List.mem_of_mem_erase member)
  distinct := fun few => (r.distinct few).erase token

end ChildRegistry

inductive ChildEvent
  | started (token : Bytes)
  | closed (token : Bytes)

/-- The registry and what has happened to it, the last event first. -/
structure ScopeWorld where
  registry : ChildRegistry
  events : List ChildEvent

/-- The calls of a script: of the registry, and all others. -/
inductive ScriptCall
  | childStart
  | childList
  | childClose (token : Bytes)
  | other (words : List Obj)

abbrev ScriptCall.Answer : ScriptCall → Type
  | .childStart => Option Bytes
  | .childList => List Bytes
  | .childClose _ => Bool
  | .other _ => Obj

/-- What the system makes of a call. -/
inductive ScriptChoice
  | launched
  | refused
  | noChannels
  | answered (v : Obj)

def childStartAct (w : ScopeWorld) : ScriptChoice → Option (Option Bytes × ScopeWorld)
  | .launched =>
    some (some (childToken (w.registry.counter + 1)),
      ⟨w.registry.track, .started (childToken (w.registry.counter + 1)) :: w.events⟩)
  | .refused => some (none, w)
  | .noChannels => some (none, ⟨w.registry.untrack, w.events⟩)
  | .answered _ => none

/-- `child close` of one token: it fails only where there is no such child.
-/
def childCloseAct (token : Bytes) (w : ScopeWorld) : Bool × ScopeWorld :=
  if w.registry.tokens.contains token then (true, ⟨w.registry.remove token, .closed token :: w.events⟩) else
    (false, w)

def scriptAct : (c : ScriptCall) → ScriptChoice → ScopeWorld → Option (c.Answer × ScopeWorld)
  | .childStart, choice, w => childStartAct w choice
  | .childList, _, w => some (w.registry.tokens, w)
  | .childClose token, _, w => some (childCloseAct token w)
  | .other _, .answered v, w => some (v, w)
  | .other _, _, _ => none

/-- An interpreter, in which nothing happens between two calls of a script.
-/
def scriptHost : Host ScriptCall ScriptCall.Answer where
  World := ScopeWorld
  Choice := ScriptChoice
  act := scriptAct
  Move := Empty
  move m := nomatch m

/-- How a script completes, as `catch` has it: the code, the level it is
meant for, the result and the other return options but those of the error
trace. A `return` is of a level above zero, and no code is left to be one.
-/
structure TclCompletion where
  code : Int
  level : Nat
  result : Obj
  options : List (Bytes × Obj)
  merged : code ≠ 2

def tclError : Int := 1

def tclBreak : Int := 3

def tclContinue : Int := 4

theorem tclError_ne : tclError ≠ 2 := by decide

/-- `invoked "break" outside of a loop` -/
def outsideLoop (c : TclCompletion) : TclCompletion where
  code := tclError
  level := 0
  result := .str (ascii "invoked \"" ++ (ascii (if c.code = tclBreak then "break" else "continue") ++
    ascii "\" outside of a loop"))
  options := dictPut (ascii "-errorcode")
    (.list [.str (ascii "TCL"), .str (ascii "RESULT"), .str (ascii "UNEXPECTED")]) c.options
  merged := tclError_ne

/-- What a procedure makes of the completion of its body: a `return` is one
level nearer, and there is no loop to leave. -/
def procResult (c : TclCompletion) : TclCompletion :=
  if c.level = 0 then if c.code = tclBreak ∨ c.code = tclContinue then outsideLoop c else c
  else ⟨c.code, c.level - 1, c.result, c.options, c.merged⟩

abbrev Script := Prog ScriptCall ScriptCall.Answer

/-- The loop of `scope` over the children that are there after its body. -/
def scopeClose (before : List Bytes) : List Bytes → Script Unit
  | [] => .done ()
  | c :: rest =>
    if before.contains c then scopeClose before rest
    else (Prog.ask (.childClose c)).bind fun _ => scopeClose before rest

/-- `scope`: what is caught of the body is returned with its options. -/
def scope (body : Script TclCompletion) : Script TclCompletion :=
  (Prog.ask .childList).bind fun before =>
    body.bind fun completion =>
      (Prog.ask .childList).bind fun tokens => (scopeClose before tokens).bind fun _ =>
        .done (procResult completion)

/-- A procedure's return passes a completion on unless it is a break, a
continue or has a level. -/
theorem procResult_same_iff (c : TclCompletion) :
    procResult c = c ↔ c.level = 0 ∧ c.code ≠ tclBreak ∧ c.code ≠ tclContinue := by
  unfold procResult
  by_cases ground : c.level = 0
  · rw [if_pos ground]
    by_cases loop : c.code = tclBreak ∨ c.code = tclContinue
    · rw [if_pos loop]
      refine iff_of_false ?_ fun fine => loop.elim fine.2.1 fine.2.2
      intro same
      have code : tclError = c.code := congrArg TclCompletion.code same
      rcases loop with leave | leave
      · exact absurd (code.trans leave) (by decide)
      · exact absurd (code.trans leave) (by decide)
    · rw [if_neg loop]
      exact iff_of_true rfl ⟨ground, fun leave => loop (.inl leave), fun leave => loop (.inr leave)⟩
  · rw [if_neg ground]
    refine iff_of_false ?_ fun fine => ground fine.1
    intro same
    have level : c.level - 1 = c.level := congrArg TclCompletion.level same
    omega

/-- What has become of a world by the events since then. -/
structure ScopeWorld.Since (w u : ScopeWorld) (events : List ChildEvent) : Prop where
  happened : u.events = events ++ w.events
  counted : w.registry.counter ≤ u.registry.counter
  old : u.registry.counter < 2 ^ 31 → ∀ token ∈ w.registry.tokens, token ∈ u.registry.tokens ↔
    .closed token ∉ events
  made : ∀ token ∈ u.registry.tokens, token ∈ w.registry.tokens ∨ ∃ n > w.registry.counter, token = childToken n
  started : ∀ token, .started token ∈ events →
    ∃ n > w.registry.counter, n ≤ u.registry.counter ∧ token = childToken n

theorem ScopeWorld.Since.refl (w : ScopeWorld) : w.Since w [] where
  happened := rfl
  counted := Nat.le_refl _
  old _ _ member := iff_of_true member List.not_mem_nil
  made _ member := .inl member
  started _ event := absurd event List.not_mem_nil

/-- A launch adds one child to what was started since. -/
theorem ScopeWorld.Since.launched {w u : ScopeWorld} {events : List ChildEvent} (since : w.Since u events) :
    w.Since ⟨u.registry.track, .started (childToken (u.registry.counter + 1)) :: u.events⟩
      (.started (childToken (u.registry.counter + 1)) :: events) where
  happened := by rw [since.happened, List.cons_append]
  counted := Nat.le_succ_of_le since.counted
  old few token member := by
    have other : token ≠ childToken (u.registry.counter + 1) := by
      rintro rfl
      exact w.registry.fresh (Nat.lt_succ_of_le since.counted) few member
    have tracked : token ∈ u.registry.track.tokens ↔ token ∈ u.registry.tokens := by
      simp only [ChildRegistry.track, List.mem_cons, other, false_or]
    rw [tracked, since.old (Nat.lt_of_succ_lt few) token member, List.mem_cons]
    simp
  made token member := by
    rcases List.mem_cons.mp member with rfl | before
    · exact .inr ⟨_, Nat.lt_succ_of_le since.counted, rfl⟩
    · exact since.made token before
  started token event := by
    rcases List.mem_cons.mp event with same | before
    · exact ⟨_, Nat.lt_succ_of_le since.counted, Nat.le_refl _, ChildEvent.started.inj same⟩
    · obtain ⟨n, above, below, same⟩ := since.started token before
      exact ⟨n, above, Nat.le_succ_of_le below, same⟩

theorem ScopeWorld.Since.noChannels {w u : ScopeWorld} {events : List ChildEvent} (since : w.Since u events) :
    w.Since ⟨u.registry.untrack, u.events⟩ events where
  happened := since.happened
  counted := Nat.le_succ_of_le since.counted
  old few := since.old (Nat.lt_of_succ_lt few)
  made := since.made
  started token event := by
    obtain ⟨n, above, below, same⟩ := since.started token event
    exact ⟨n, above, Nat.le_succ_of_le below, same⟩

theorem ChildRegistry.mem_remove {r : ChildRegistry} {token t : Bytes} (few : r.counter < 2 ^ 31) :
    t ∈ (r.remove token).tokens ↔ t ≠ token ∧ t ∈ r.tokens := (r.distinct few).mem_erase_iff

/-- A close takes its child from what is left. -/
theorem ScopeWorld.Since.closed {w u : ScopeWorld} {events : List ChildEvent} (since : w.Since u events)
    (token : Bytes) :
    w.Since ⟨u.registry.remove token, .closed token :: u.events⟩ (.closed token :: events) where
  happened := by rw [since.happened, List.cons_append]
  counted := since.counted
  old few t member := by
    have few : u.registry.counter < 2 ^ 31 := few
    rw [ChildRegistry.mem_remove few, since.old few t member, List.mem_cons, not_or]
    exact and_congr_left fun _ => not_congr ⟨fun same => same ▸ rfl, fun same => ChildEvent.closed.inj same⟩
  made t member := since.made t (List.mem_of_mem_erase member)
  started t event := since.started t ((List.mem_cons.mp event).resolve_left nofun)

/-- One call of a script. -/
theorem scriptAct_since {w u v : ScopeWorld} {events : List ChildEvent} (since : w.Since u events) {c : ScriptCall}
    {choice : ScriptChoice} {a : c.Answer} (acts : scriptAct c choice u = some (a, v)) :
    ∃ later, w.Since v later := by
  cases c with
  | childStart =>
    cases choice with
    | launched =>
      obtain ⟨rfl, rfl⟩ := Prod.mk.inj (Option.some.inj acts)
      exact ⟨_, since.launched⟩
    | refused =>
      obtain ⟨rfl, rfl⟩ := Prod.mk.inj (Option.some.inj acts)
      exact ⟨_, since⟩
    | noChannels =>
      obtain ⟨rfl, rfl⟩ := Prod.mk.inj (Option.some.inj acts)
      exact ⟨_, since.noChannels⟩
    | answered => cases acts
  | childList =>
    obtain ⟨rfl, rfl⟩ := Prod.mk.inj (Option.some.inj acts)
    exact ⟨_, since⟩
  | childClose token =>
    have act : childCloseAct token u = (a, v) := Option.some.inj acts
    unfold childCloseAct at act
    split_ifs at act
    · obtain ⟨rfl, rfl⟩ := Prod.mk.inj act
      exact ⟨_, since.closed token⟩
    · obtain ⟨rfl, rfl⟩ := Prod.mk.inj act
      exact ⟨_, since⟩
  | other words =>
    cases choice with
    | answered v =>
      obtain ⟨rfl, rfl⟩ := Prod.mk.inj (Option.some.inj acts)
      exact ⟨_, since⟩
    | launched => cases acts
    | refused => cases acts
    | noChannels => cases acts

/-- A run of any script. -/
theorem script_since {α : Type} {p q : Script α} {w u : ScopeWorld} (run : scriptHost.Reaches p w q u) :
    ∃ events, w.Since u events := by
  refine Host.Reaches.invariant (S := scriptHost) (I := fun u => ∃ events, w.Since u events) ?_ ?_ run ⟨[], .refl w⟩
  · rintro c choice a u v ⟨events, since⟩ acts
    exact scriptAct_since since acts
  · exact fun m => nomatch m

theorem scriptHost_still : scriptHost.Move → False := fun m => nomatch m

/-- The list of children is the registry's. -/
theorem childList_iff {w u : ScopeWorld} {tokens : List Bytes} :
    scriptHost.Reaches (Prog.ask .childList) w (.done tokens) u ↔ w.registry.tokens = tokens ∧ w = u := by
  refine (Host.Reaches.ask_iff scriptHost_still).trans ?_
  constructor
  · rintro ⟨choice, acts⟩
    exact Prod.mk.inj (Option.some.inj acts)
  · rintro ⟨rfl, rfl⟩
    exact ⟨.launched, rfl⟩

theorem childClose_iff {w u : ScopeWorld} {token : Bytes} {closed : Bool} :
    scriptHost.Reaches (Prog.ask (.childClose token)) w (.done closed) u ↔ childCloseAct token w = (closed, u) := by
  refine (Host.Reaches.ask_iff scriptHost_still).trans ?_
  constructor
  · rintro ⟨choice, acts⟩
    exact Option.some.inj acts
  · exact fun act => ⟨.launched, congrArg some act⟩

theorem childCloseAct_counter (token : Bytes) (w : ScopeWorld) :
    (childCloseAct token w).2.registry.counter = w.registry.counter := by
  unfold childCloseAct
  split_ifs
  · rfl
  · rfl

/-- A close takes one token from the registry and leaves the others. -/
theorem childCloseAct_tokens {w : ScopeWorld} (few : w.registry.counter < 2 ^ 31) (token t : Bytes) :
    t ∈ (childCloseAct token w).2.registry.tokens ↔ t ≠ token ∧ t ∈ w.registry.tokens := by
  unfold childCloseAct
  by_cases known : w.registry.tokens.contains token = true
  · rw [if_pos known]
    exact ChildRegistry.mem_remove few
  · rw [if_neg known]
    refine ⟨fun member => ⟨?_, member⟩, And.right⟩
    rintro rfl
    exact known (List.contains_iff_mem.mpr member)

/-- The loop closes what is new among the tokens it goes through. -/
theorem scopeClose_tokens {before : List Bytes} {tokens : List Bytes} {w v : ScopeWorld}
    (run : scriptHost.Reaches (scopeClose before tokens) w (.done ()) v) (few : w.registry.counter < 2 ^ 31) :
    ∀ t, t ∈ v.registry.tokens ↔ t ∈ w.registry.tokens ∧ (t ∈ tokens → t ∈ before) := by
  induction tokens generalizing w with
  | nil =>
    obtain ⟨_, rfl⟩ := (Host.Reaches.done_iff scriptHost_still).mp run
    exact fun t => ⟨fun member => ⟨member, nofun⟩, And.left⟩
  | cons c rest ih =>
    rw [scopeClose] at run
    split_ifs at run with old
    · intro t
      rw [ih run few t]
      have kept : c ∈ before := List.contains_iff_mem.mp old
      refine and_congr_right fun _ => ⟨fun later member => ?_,
        fun all member => all (List.mem_cons_of_mem _ member)⟩
      rcases List.mem_cons.mp member with rfl | inside
      · exact kept
      · exact later inside
    · obtain ⟨closed, u, act, others⟩ := Host.Reaches.bind_iff.mp run
      have after := childCloseAct_tokens few c
      have counter := childCloseAct_counter c w
      rw [childClose_iff.mp act] at after counter
      have new : c ∉ before := fun member => old (List.contains_iff_mem.mpr member)
      intro t
      rw [ih others (counter.symm ▸ few) t, after t]
      constructor
      · rintro ⟨⟨other, member⟩, later⟩
        exact ⟨member, fun inside => later ((List.mem_cons.mp inside).resolve_left other)⟩
      · rintro ⟨member, all⟩
        refine ⟨⟨?_, member⟩, fun inside => all (List.mem_cons_of_mem _ inside)⟩
        rintro rfl
        exact new (all (List.mem_cons_self ..))

/-- The loop starts no child. -/
theorem scopeClose_counter {before : List Bytes} {tokens : List Bytes} {w v : ScopeWorld}
    (run : scriptHost.Reaches (scopeClose before tokens) w (.done ()) v) :
    v.registry.counter = w.registry.counter := by
  induction tokens generalizing w with
  | nil =>
    obtain ⟨_, rfl⟩ := (Host.Reaches.done_iff scriptHost_still).mp run
    rfl
  | cons c rest ih =>
    rw [scopeClose] at run
    split_ifs at run
    · exact ih run
    · obtain ⟨closed, u, act, others⟩ := Host.Reaches.bind_iff.mp run
      have counter := childCloseAct_counter c w
      rw [childClose_iff.mp act] at counter
      exact (ih others).trans counter

/-- The loop comes to its end. -/
theorem scopeClose_runs (before tokens : List Bytes) (w : ScopeWorld) :
    ∃ v, scriptHost.Reaches (scopeClose before tokens) w (.done ()) v := by
  induction tokens generalizing w with
  | nil => exact ⟨w, .refl⟩
  | cons c rest ih =>
    rw [scopeClose]
    split_ifs
    · exact ih w
    · obtain ⟨v, others⟩ := ih (childCloseAct c w).2
      exact ⟨v, Host.Reaches.bind_iff.mpr ⟨(childCloseAct c w).1, _, childClose_iff.mpr rfl, others⟩⟩

/-- A run of `scope` is one of its body and one of the loop. -/
theorem scope_reaches_iff {body : Script TclCompletion} {w v : ScopeWorld} {c' : TclCompletion} :
    scriptHost.Reaches (scope body) w (.done c') v ↔ ∃ c u, scriptHost.Reaches body w (.done c) u ∧
      scriptHost.Reaches (scopeClose w.registry.tokens u.registry.tokens) u (.done ()) v ∧ procResult c = c' := by
  unfold scope
  constructor
  · intro run
    obtain ⟨before, _, first, rest⟩ := Host.Reaches.bind_iff.mp run
    obtain ⟨rfl, rfl⟩ := childList_iff.mp first
    obtain ⟨c, u, ran, rest⟩ := Host.Reaches.bind_iff.mp rest
    obtain ⟨tokens, _, second, rest⟩ := Host.Reaches.bind_iff.mp rest
    obtain ⟨rfl, rfl⟩ := childList_iff.mp second
    obtain ⟨_, _, closed, last⟩ := Host.Reaches.bind_iff.mp rest
    obtain ⟨same, rfl⟩ := (Host.Reaches.done_iff scriptHost_still).mp last
    exact ⟨c, u, ran, closed, same⟩
  · rintro ⟨c, u, ran, closed, rfl⟩
    refine Host.Reaches.bind_iff.mpr ⟨_, w, childList_iff.mpr ⟨rfl, rfl⟩, ?_⟩
    refine Host.Reaches.bind_iff.mpr ⟨c, u, ran, ?_⟩
    refine Host.Reaches.bind_iff.mpr ⟨_, u, childList_iff.mpr ⟨rfl, rfl⟩, ?_⟩
    exact Host.Reaches.bind_iff.mpr ⟨(), v, closed, .refl⟩

/-- Whatever the body did, its completion is the one `scope` has exactly
where it is no `return`, `break` or `continue`, and while fewer than 2^31
children have been started the children that are left are those from before
that it did not close. -/
theorem scope_transparent_iff (body : Script TclCompletion) (w : ScopeWorld) :
    (∀ c u, scriptHost.Reaches body w (.done c) u → ∃ c' v, scriptHost.Reaches (scope body) w (.done c') v ∧
      (c' = c ↔ c.level = 0 ∧ c.code ≠ tclBreak ∧ c.code ≠ tclContinue)) ∧
    ∀ c' v, scriptHost.Reaches (scope body) w (.done c') v →
      ∃ c u events, scriptHost.Reaches body w (.done c) u ∧ u.events = events ++ w.events ∧
        (c' = c ↔ c.level = 0 ∧ c.code ≠ tclBreak ∧ c.code ≠ tclContinue) ∧
        (v.registry.counter < 2 ^ 31 → (∀ token, .started token ∈ events → token ∉ v.registry.tokens) ∧
          ∀ token, token ∈ v.registry.tokens ↔ token ∈ w.registry.tokens ∧ .closed token ∉ events) := by
  constructor
  · intro c u ran
    obtain ⟨v, closed⟩ := scopeClose_runs w.registry.tokens u.registry.tokens u
    exact ⟨_, v, scope_reaches_iff.mpr ⟨c, u, ran, closed, rfl⟩, procResult_same_iff c⟩
  · intro c' v run
    obtain ⟨c, u, ran, closed, rfl⟩ := scope_reaches_iff.mp run
    obtain ⟨events, since⟩ := script_since ran
    refine ⟨c, u, events, ran, since.happened, procResult_same_iff c, fun few => ?_⟩
    rw [scopeClose_counter closed] at few
    have left : ∀ token, token ∈ v.registry.tokens ↔ token ∈ w.registry.tokens ∧ .closed token ∉ events := by
      intro token
      rw [scopeClose_tokens closed few token]
      constructor
      · rintro ⟨member, kept⟩
        have old := kept member
        exact ⟨old, (since.old few token old).mp member⟩
      · rintro ⟨old, unclosed⟩
        exact ⟨(since.old few token old).mpr unclosed, fun _ => old⟩
    refine ⟨fun token event member => ?_, left⟩
    obtain ⟨n, above, below, rfl⟩ := since.started token event
    exact w.registry.fresh above (Nat.lt_of_le_of_lt below few) ((left _).mp member).1

def ScopeWorld.empty : ScopeWorld := ⟨.empty, []⟩

theorem tclOk_ne : (0 : Int) ≠ 2 := by decide

theorem tclBreak_ne : tclBreak ≠ 2 := by decide

/-- `break`, and `return` of nothing. -/
def breakCompletion : TclCompletion := ⟨tclBreak, 0, .str [], [], tclBreak_ne⟩

def returnCompletion : TclCompletion := ⟨0, 1, .str [], [], tclOk_ne⟩

theorem scope_not_transparent :
    (∃ c' v, scriptHost.Reaches (scope (.done breakCompletion)) .empty (.done c') v ∧ c'.code = tclError ∧
      c'.result = .str (ascii "invoked \"break\" outside of a loop")) ∧
    ∃ c' v, scriptHost.Reaches (scope (.done returnCompletion)) .empty (.done c') v ∧ c'.level = 0 ∧
      returnCompletion.level = 1 := by
  constructor
  · refine ⟨_, .empty, scope_reaches_iff.mpr ⟨breakCompletion, .empty, .refl, .refl, rfl⟩, ?_, ?_⟩
    · rfl
    · rfl
  · exact ⟨_, .empty, scope_reaches_iff.mpr ⟨returnCompletion, .empty, .refl, .refl, rfl⟩, rfl, rfl⟩

end Machteld
