import Machteld.Worker.Answer

namespace Machteld

/-- A procedure: its parameters with their defaults, its body as what a call
makes of the variables, and the words Tcl shows for a wrong call. -/
structure TclProc where
  params : List (Bytes × Option Obj)
  body : List (Bytes × Obj) → Completion
  usage : Bytes

/-- `InitArgsAndLocals`: the words of a call go to the parameters in order.
The last one takes what is left where it is named `args`. -/
def initArgsAndLocals : List (Bytes × Option Obj) → List Obj → Option (List (Bytes × Obj))
  | [], [] => some []
  | [], _ :: _ => none
  | [(aname, dflt)], argv =>
    if aname = ascii "args" then some [(aname, .list argv)]
    else
      match argv, dflt with
      | [value], _ => some [(aname, value)]
      | [], some dflt => some [(aname, dflt)]
      | _, _ => none
  | (aname, _) :: next :: params, value :: argv =>
    (initArgsAndLocals (next :: params) argv).map fun frame => (aname, value) :: frame
  | (aname, dflt) :: next :: params, [] =>
    dflt.bind fun dflt => (initArgsAndLocals (next :: params) []).map fun frame => (aname, dflt) :: frame

/-- What becomes of a request for a procedure. -/
inductive Bound
  | usage (aname : Bytes)
  | wrongArgs
  | called (frame : List (Bytes × Obj))

section

variable (yy : Yyjson) (tcl : Tcl)

def TclProc.wrongArgs (proc : TclProc) : Completion :=
  .raised 1 (.str (tcl.wrongNumArgs proc.usage).message)
    (some (errorcodeObj (tcl.wrongNumArgs proc.usage))) (by decide)
    (fun _ => Option.some_ne_none _)

/-- What `worker on` registers. -/
def TclProc.handler (proc : TclProc) : Handler where
  params := proc.params
  run argv := ((initArgsAndLocals proc.params argv).map proc.body).getD (proc.wrongArgs tcl)

/-- The loop of `WorkerDispatch` and the call behind it. -/
def workerBind (req : List (Bytes × Obj)) (proc : TclProc) : Bound :=
  match bindParams req (proc.handler tcl) (proc.params.map Prod.fst) with
  | .error aname => .usage aname
  | .ok argv => ((initArgsAndLocals proc.params argv).map Bound.called).getD .wrongArgs

def Bound.reply (proc : TclProc) (id op : Obj) : Bound → Except TclError (List (Bytes × Obj))
  | .usage aname =>
    .ok (failureReply id (.str (ascii "MACHTELD WORKER usage"))
      (getString yy tcl op ++ (ascii " needs \"" ++ (aname ++ ascii "\""))))
  | .wrongArgs => workerOutcome id (proc.wrongArgs tcl)
  | .called frame => workerOutcome id (proc.body frame)

/-- A call of a known operation binds its arguments and runs its procedure.
-/
theorem workerCall_bind {ops : List (Bytes × Handler)} {req : List (Bytes × Obj)} {id op : Obj} {proc : TclProc}
    (found : dictGet (getString yy tcl op) ops = some (proc.handler tcl)) :
    workerCall yy tcl ops req id op = (workerBind tcl req proc).reply yy tcl proc id op := by
  simp only [workerCall, found, workerBind]
  have params : (proc.handler tcl).params = proc.params := rfl
  rw [params]
  cases bound : bindParams req (proc.handler tcl) (proc.params.map Prod.fst) with
  | error aname => rfl
  | ok argv =>
    simp only [TclProc.handler]
    cases frame : initArgsAndLocals proc.params argv with
    | none => rfl
    | some frame => rfl

/-- The values of the parameters by name: the member of the request, or else
the default, or else nothing for an `args` at the end. The first name
without any of these is missing. -/
def byName (req : List (Bytes × Obj)) (handler : Handler) : List Bytes → Except Bytes (List Obj)
  | [] => .ok []
  | aname :: anames =>
    match dictGet aname req with
    | some value => (byName req handler anames).map fun values => value :: values
    | none =>
      if aname = ascii "args" ∧ anames = [] then .ok [.list []]
      else
        match infoDefault handler aname with
        | some dflt => (byName req handler anames).map fun values => dflt :: values
        | none => .error aname

/-- The missing parameter, or the variables the procedure has to be called
with. -/
def boundByName (req : List (Bytes × Obj)) (proc : TclProc) : Bound :=
  match byName req (proc.handler tcl) (proc.params.map Prod.fst) with
  | .error aname => .usage aname
  | .ok values => .called ((proc.params.map Prod.fst).zip values)

end

/-- An `args` the request has no member for. -/
def skipped (req : List (Bytes × Obj)) (aname : Bytes) : Bool := aname == ascii "args" && (dictGet aname req).isNone

/-- The parameter at the end is named `args`. -/
def TclProc.HasTail (proc : TclProc) : Prop := (proc.params.getLast?.map Prod.fst) = some (ascii "args")

instance (proc : TclProc) : Decidable proc.HasTail := inferInstanceAs (Decidable (_ = _))

/-- The other parameters with their values. -/
def TclProc.ordinary (proc : TclProc) (values : List Obj) : List ((Bytes × Option Obj) × Obj) :=
  if proc.HasTail then (proc.params.zip values).dropLast else proc.params.zip values

/-- The values that are not left out. -/
def keptValues (req : List (Bytes × Obj)) (ordinary : List ((Bytes × Option Obj) × Obj)) : List Obj :=
  (ordinary.filter fun p => !skipped req p.1.1).map Prod.snd

/-- What is left out moves no value: the others are the values of the first
parameters, and those behind have their values as defaults. -/
def Unmoved (req : List (Bytes × Obj)) (ordinary : List ((Bytes × Option Obj) × Obj)) : Prop :=
  keptValues req ordinary = (ordinary.map Prod.snd).take (keptValues req ordinary).length ∧
    ∀ p ∈ ordinary.drop (keptValues req ordinary).length, p.1.2 = some p.2

/-- The requests whose members go where they belong. -/
def BindsRight (tcl : Tcl) (req : List (Bytes × Obj)) (proc : TclProc) : Prop :=
  match byName req (proc.handler tcl) (proc.params.map Prod.fst) with
  | .error aname => aname ≠ ascii "args"
  | .ok values => (proc.HasTail → dictGet (ascii "args") req = none) ∧ Unmoved req (proc.ordinary values)

/-- What the last parameter gets from the words that are left. -/
def LastHolds (last : Bytes × Option Obj) (left : List Obj) (value : Obj) : Prop :=
  if last.1 = ascii "args" then value = .list left else left = [value] ∨ left = [] ∧ last.2 = some value

/-- The last parameter takes one argument, or all that are left where it is
`args`; a missing one takes its default. -/
theorem initArgs_last (last : Bytes × Option Obj) (argv : List Obj) (value : Obj) :
    initArgsAndLocals [last] argv = some [(last.1, value)] ↔ LastHolds last argv value := by
  obtain ⟨aname, dflt⟩ := last
  unfold LastHolds initArgsAndLocals
  split_ifs with tail
  · simp [eq_comm]
  · cases argv with
    | nil => cases dflt <;> simp
    | cons first left =>
      cases left with
      | nil => simp
      | cons second left => simp

/-- A call fills the variables with the given values exactly when its words
are those values as far as they go, and defaults are the rest. -/
theorem initArgs_iff {params : List (Bytes × Option Obj)} {last : Bytes × Option Obj} {argv values : List Obj}
    {value : Obj} (same : values.length = params.length) :
    initArgsAndLocals (params ++ [last]) argv =
        some (((params ++ [last]).map Prod.fst).zip (values ++ [value])) ↔
      argv.take params.length = values.take argv.length ∧
        (∀ p ∈ (params.zip values).drop argv.length, p.1.2 = some p.2) ∧
        LastHolds last (argv.drop params.length) value := by
  induction params generalizing argv values with
  | nil =>
    obtain rfl : values = [] := List.length_eq_zero_iff.mp same
    simpa using initArgs_last last argv value
  | cons first params ih =>
    obtain ⟨aname, dflt⟩ := first
    cases values with
    | nil => cases same
    | cons v values =>
      have lengths : values.length = params.length := Nat.succ.inj same
      obtain ⟨next, later, split⟩ : ∃ next later, params ++ [last] = next :: later :=
        List.exists_cons_of_ne_nil (List.append_ne_nil_of_right_ne_nil params (List.cons_ne_nil last []))
      have step := @ih
      rw [split] at step
      cases argv with
      | nil =>
        have rest := @step [] values lengths
        simp only [List.take_nil, List.length_nil, List.take_zero, List.drop_zero, List.drop_nil,
          true_and] at rest ⊢
        rw [List.cons_append, split, initArgsAndLocals]
        cases dflt with
        | none => simp
        | some d =>
          simp only [Option.bind_some, List.map_cons, List.cons_append, List.zip_cons_cons, List.forall_mem_cons,
            Option.some_inj]
          constructor
          · intro called
            obtain ⟨frame, inner, whole⟩ := Option.map_eq_some_iff.mp called
            obtain ⟨head, rfl⟩ := List.cons.inj whole
            obtain ⟨-, rfl⟩ := Prod.mk.inj head
            obtain ⟨defaults, holds⟩ := rest.mp inner
            exact ⟨⟨rfl, defaults⟩, holds⟩
          · rintro ⟨⟨rfl, defaults⟩, holds⟩
            have inner := rest.mpr ⟨defaults, holds⟩
            exact Option.map_eq_some_iff.mpr ⟨_, inner, rfl⟩
      | cons a argv =>
        have rest := @step argv values lengths
        rw [List.cons_append, split, initArgsAndLocals]
        simp only [List.map_cons, List.cons_append, List.zip_cons_cons, List.length_cons, List.take_succ_cons,
          List.drop_succ_cons, List.cons.injEq]
        constructor
        · intro called
          obtain ⟨frame, inner, whole⟩ := Option.map_eq_some_iff.mp called
          obtain ⟨head, rfl⟩ := List.cons.inj whole
          obtain ⟨-, rfl⟩ := Prod.mk.inj head
          obtain ⟨words, defaults, holds⟩ := rest.mp inner
          exact ⟨⟨rfl, words⟩, defaults, holds⟩
        · rintro ⟨⟨rfl, words⟩, defaults, holds⟩
          have inner := rest.mpr ⟨words, defaults, holds⟩
          exact Option.map_eq_some_iff.mpr ⟨_, inner, rfl⟩

section

variable {req : List (Bytes × Obj)} {handler : Handler}

/-- Each name gets one value. -/
theorem byName_length {anames : List Bytes} {values : List Obj} (bound : byName req handler anames = .ok values) :
    values.length = anames.length := by
  induction anames generalizing values with
  | nil =>
    obtain rfl := Except.ok.inj bound
    rfl
  | cons aname anames ih =>
    rw [byName] at bound
    split at bound
    · obtain ⟨later, rest, rfl⟩ := Except.map_ok.mp bound
      simp [ih rest]
    · split at bound
      · rename_i tail
        obtain rfl := Except.ok.inj bound
        rw [tail.2]
        rfl
      · split at bound
        · obtain ⟨later, rest, rfl⟩ := Except.map_ok.mp bound
          simp [ih rest]
        · cases bound

/-- A missing parameter is answered, unless it is an `args`. -/
theorem bindParams_missing {anames : List Bytes} {aname : Bytes}
    (missing : byName req handler anames = .error aname)
    (other : aname ≠ ascii "args") : bindParams req handler anames = .error aname := by
  induction anames with
  | nil => cases missing
  | cons first anames ih =>
    rw [byName] at missing
    rw [bindParams]
    cases member : dictGet first req with
    | some value =>
      simp only [member] at missing ⊢
      rw [ih (Except.map_error missing)]
      rfl
    | none =>
      simp only [member] at missing ⊢
      split at missing
      · cases missing
      · by_cases tail : first = ascii "args"
        · rw [if_pos tail]
          split at missing
          · exact ih (Except.map_error missing)
          · exact absurd (tail.symm.trans (Except.error.inj missing)) (Ne.symm other)
        · rw [if_neg tail]
          cases default : infoDefault handler first with
          | some dflt =>
            simp only [default] at missing ⊢
            rw [ih (Except.map_error missing)]
            rfl
          | none =>
            simp only [default] at missing ⊢
            exact missing

/-- The loop never asks for an `args`. -/
theorem bindParams_error {anames : List Bytes} {aname : Bytes}
    (failed : bindParams req handler anames = .error aname) :
    aname ≠ ascii "args" := by
  induction anames with
  | nil => cases failed
  | cons first anames ih =>
    rw [bindParams] at failed
    split at failed
    · exact ih (Except.map_error failed)
    · split_ifs at failed with tail
      · exact ih failed
      · split at failed
        · exact ih (Except.map_error failed)
        · obtain rfl := Except.error.inj failed
          exact tail

/-- The words of the call are the values of the parameters that are not left
out. -/
theorem bindParams_kept {params : List (Bytes × Option Obj)} {values : List Obj}
    (bound : byName req handler (params.map Prod.fst) = .ok values) :
    bindParams req handler (params.map Prod.fst) = .ok (keptValues req (params.zip values)) := by
  induction params generalizing values with
  | nil => rfl
  | cons first params ih =>
    obtain ⟨aname, dflt⟩ := first
    rw [List.map_cons, byName] at bound
    rw [List.map_cons, bindParams]
    cases member : dictGet aname req with
    | some value =>
      simp only [member] at bound ⊢
      obtain ⟨later, rest, rfl⟩ := Except.map_ok.mp bound
      have stays : skipped req aname = false := by simp [skipped, member]
      rw [ih rest]
      simp [keptValues, stays, Except.map]
    | none =>
      simp only [member] at bound ⊢
      by_cases tail : aname = ascii "args"
      · have gone : dictGet (ascii "args") req = none := tail ▸ member
        have out : skipped req aname = true := by simp [skipped, tail, gone]
        rw [if_pos tail]
        split_ifs at bound with last
        · obtain rfl := Except.ok.inj bound
          have nothing : params = [] := List.map_eq_nil_iff.mp last.2
          subst nothing
          simp [bindParams, keptValues, out]
        · split at bound
          · obtain ⟨later, rest, rfl⟩ := Except.map_ok.mp bound
            rw [ih rest]
            simp [keptValues, out]
          · cases bound
      · have stays : skipped req aname = false := by simp [skipped, tail]
        rw [if_neg tail]
        rw [if_neg fun both => tail both.1] at bound
        cases default : infoDefault handler aname with
        | some d =>
          simp only [default] at bound ⊢
          obtain ⟨later, rest, rfl⟩ := Except.map_ok.mp bound
          rw [ih rest]
          simp [keptValues, stays, Except.map]
        | none =>
          simp only [default] at bound
          cases bound

/-- The value of the parameter at the end stands on its own. -/
theorem byName_last {anames : List Bytes} {last : Bytes} {values : List Obj}
    (bound : byName req handler (anames ++ [last]) = .ok values) :
    ∃ earlier value, values = earlier ++ [value] ∧ byName req handler [last] = .ok [value] := by
  induction anames generalizing values with
  | nil =>
    have single := byName_length bound
    match values, single with
    | [value], _ => exact ⟨[], value, rfl, bound⟩
  | cons first anames ih =>
    have more : anames ++ [last] ≠ [] := List.append_ne_nil_of_right_ne_nil anames (List.cons_ne_nil last [])
    rw [List.cons_append, byName] at bound
    split at bound
    · obtain ⟨later, rest, rfl⟩ := Except.map_ok.mp bound
      obtain ⟨earlier, value, rfl, alone⟩ := ih rest
      exact ⟨_ :: earlier, value, rfl, alone⟩
    · rw [if_neg fun both => more both.2] at bound
      split at bound
      · obtain ⟨later, rest, rfl⟩ := Except.map_ok.mp bound
        obtain ⟨earlier, value, rfl, alone⟩ := ih rest
        exact ⟨_ :: earlier, value, rfl, alone⟩
      · cases bound

end

theorem Obj.ne_singleton (v : Obj) : v ≠ .list [v] := by
  intro same
  have sizes := congrArg sizeOf same
  simp only [Obj.list.sizeOf_spec, List.cons.sizeOf_spec, List.nil.sizeOf_spec] at sizes
  omega

theorem keptValues_length (req : List (Bytes × Obj)) (ordinary : List ((Bytes × Option Obj) × Obj)) :
    (keptValues req ordinary).length ≤ ordinary.length := by
  rw [keptValues, List.length_map]
  exact List.length_filter_le _ _

theorem keptValues_append (req : List (Bytes × Obj)) (front back : List ((Bytes × Option Obj) × Obj)) :
    keptValues req (front ++ back) = keptValues req front ++ keptValues req back := by
  rw [keptValues, List.filter_append, List.map_append]
  rfl

/-- Where the request has a list of arguments, all of them are kept. -/
theorem keptValues_all {req : List (Bytes × Obj)} {value : Obj} (member : dictGet (ascii "args") req = some value)
    (ordinary : List ((Bytes × Option Obj) × Obj)) : keptValues req ordinary = ordinary.map Prod.snd := by
  have stays : ∀ aname, skipped req aname = false := by
    intro aname
    by_cases tail : aname = ascii "args"
    · simp [skipped, tail, member]
    · simp [skipped, tail]
  rw [keptValues, List.filter_eq_self.mpr fun p _ => by rw [stays]; rfl]

/-- The words of a call in a list with a last parameter that is not the
tail. -/
theorem call_ordinary {params : List (Bytes × Option Obj)} {last : Bytes × Option Obj} {argv values : List Obj}
    {value : Obj} (same : values.length = params.length) (notTail : last.1 ≠ ascii "args")
    (short : argv.length ≤ params.length + 1) :
    initArgsAndLocals (params ++ [last]) argv =
        some (((params ++ [last]).map Prod.fst).zip (values ++ [value])) ↔
      argv = (values ++ [value]).take argv.length ∧
        ∀ p ∈ (params.zip values ++ [(last, value)]).drop argv.length, p.1.2 = some p.2 := by
  have zipped : (params.zip values).length = params.length := by
    rw [List.length_zip, same, Nat.min_self]
  rw [initArgs_iff same, LastHolds, if_neg notTail]
  by_cases full : argv.length = params.length + 1
  · have left : argv.drop params.length ≠ [] := by
      intro nothing
      have length := congrArg List.length nothing
      simp only [List.length_drop, List.length_nil] at length
      omega
    have noneLeft : (params.zip values).drop argv.length = [] := List.drop_eq_nil_of_le (by omega)
    have noneLeft' : (params.zip values ++ [(last, value)]).drop argv.length = [] :=
      List.drop_eq_nil_of_le (by simp only [List.length_append, List.length_singleton]; omega)
    have whole : values.take argv.length = values := List.take_of_length_le (by omega)
    have whole' : (values ++ [value]).take argv.length = values ++ [value] :=
      List.take_of_length_le (by simp only [List.length_append, List.length_singleton]; omega)
    rw [noneLeft, noneLeft', whole, whole']
    constructor
    · rintro ⟨front, _, back | ⟨nothing, _⟩⟩
      · have joined := List.take_append_drop params.length argv
        rw [front, back] at joined
        exact ⟨joined.symm, List.forall_mem_nil _⟩
      · exact absurd nothing left
    · rintro ⟨joined, _⟩
      have front : argv.take params.length = values := by rw [joined, ← same, List.take_left]
      have back : argv.drop params.length = [value] := by rw [joined, ← same, List.drop_left]
      exact ⟨front, List.forall_mem_nil _, .inl back⟩
  · have within : argv.length ≤ params.length := by omega
    have nothing : argv.drop params.length = [] := List.drop_eq_nil_of_le within
    have all : argv.take params.length = argv := List.take_of_length_le within
    have front : (values ++ [value]).take argv.length = values.take argv.length :=
      List.take_append_of_le_length (by omega)
    have behind : (params.zip values ++ [(last, value)]).drop argv.length =
        (params.zip values).drop argv.length ++ [(last, value)] := List.drop_append_of_le_length (by omega)
    rw [nothing, all, front, behind, List.forall_mem_append, List.forall_mem_singleton]
    simp

theorem called_iff {call : Option (List (Bytes × Obj))} {frame : List (Bytes × Obj)} :
    (call.map Bound.called).getD .wrongArgs = .called frame ↔ call = some frame := by
  cases call <;> simp

/-- A procedure is called by name exactly when the values go where they
belong. -/
theorem workerBind_iff (tcl : Tcl) (req : List (Bytes × Obj)) (proc : TclProc) :
    workerBind tcl req proc = boundByName tcl req proc ↔ BindsRight tcl req proc := by
  unfold workerBind boundByName BindsRight
  cases bound : byName req (proc.handler tcl) (proc.params.map Prod.fst) with
  | error aname =>
    constructor
    · intro same
      cases asked : bindParams req (proc.handler tcl) (proc.params.map Prod.fst) with
      | error other =>
        rw [asked] at same
        obtain rfl := Bound.usage.inj same
        exact bindParams_error asked
      | ok argv =>
        simp only [asked] at same
        cases called : initArgsAndLocals proc.params argv with
        | none =>
          rw [called] at same
          cases same
        | some frame =>
          rw [called] at same
          cases same
    · intro other
      rw [bindParams_missing bound other]
  | ok values =>
    simp only [bindParams_kept bound]
    rw [called_iff]
    rcases List.eq_nil_or_concat proc.params with none | ⟨params, last, whole⟩
    · have notTail : ¬ proc.HasTail := by simp [TclProc.HasTail, none]
      rw [none, TclProc.ordinary, if_neg notTail, none]
      simp [initArgsAndLocals, keptValues, Unmoved, notTail]
    · rw [List.concat_eq_append] at whole
      have length := byName_length bound
      rw [whole, List.map_append, List.map_singleton] at bound
      obtain ⟨earlier, value, rfl, alone⟩ := byName_last bound
      have same : earlier.length = params.length := by simpa [whole] using length
      have zipped : (params ++ [last]).zip (earlier ++ [value]) = params.zip earlier ++ [(last, value)] := by
        rw [List.zip_append same.symm]
        rfl
      have inner : (params.zip earlier).length = params.length := by rw [List.length_zip, same, Nat.min_self]
      have values : (params.zip earlier).map Prod.snd = earlier := List.map_snd_zip (by omega)
      have tail : proc.HasTail ↔ last.1 = ascii "args" := by simp [TclProc.HasTail, whole]
      by_cases named : last.1 = ascii "args"
      · rw [TclProc.ordinary, if_pos (tail.mpr named), whole, zipped, List.dropLast_concat, keptValues_append,
          initArgs_iff same, LastHolds, if_pos named]
        cases member : dictGet (ascii "args") req with
        | some v =>
          have kept : (keptValues req (params.zip earlier) ++ keptValues req [(last, value)]).drop params.length =
              [value] := by
            rw [keptValues_all member, keptValues_all member, values, ← same, List.drop_left]
            rfl
          rw [kept]
          refine iff_of_false (fun holds => value.ne_singleton holds.2.2) fun both => ?_
          cases both.1 (tail.mpr named)
        | none =>
          have out : keptValues req [(last, value)] = [] := by simp [keptValues, skipped, named, member]
          have empty : value = .list [] := by
            rw [byName, named] at alone
            simp only [member, and_self, if_true] at alone
            exact (List.cons.inj (Except.ok.inj alone)).1.symm
          have short : (keptValues req (params.zip earlier)).length ≤ params.length :=
            inner ▸ keptValues_length req (params.zip earlier)
          rw [out, List.append_nil, List.take_of_length_le short, List.drop_eq_nil_of_le short, Unmoved, values]
          exact ⟨fun holds => ⟨fun _ => rfl, holds.1, holds.2.1⟩, fun both => ⟨both.2.1, both.2.2, empty⟩⟩
      · have notTail : ¬ proc.HasTail := mt tail.mp named
        have short : (keptValues req (params.zip earlier ++ [(last, value)])).length ≤ params.length + 1 := by
          have most := keptValues_length req (params.zip earlier ++ [(last, value)])
          rw [List.length_append, inner] at most
          exact most
        have all : (params.zip earlier ++ [(last, value)]).map Prod.snd = earlier ++ [value] := by
          rw [List.map_append, values]
          rfl
        rw [TclProc.ordinary, if_neg notTail, whole, zipped, call_ordinary same named short, Unmoved, all]
        exact ⟨fun holds => ⟨fun yes => absurd yes notTail, holds⟩, fun both => both.2⟩

section

variable (yy : Yyjson) (tcl : Tcl) (ops : List (Bytes × Handler))

/-- A line with a request for a registered procedure. -/
structure RequestTo (line : Bytes) (req : List (Bytes × Obj)) (op : Obj) (proc : TclProc) : Prop where
  decoded : jsonDecode yy tcl line = .ok (.dict req)
  named : ∃ word, dictGet (ascii "op") req = some word ∧ tcl.exprOf word = .ok op
  found : dictGet (getString yy tcl op) ops = some (proc.handler tcl)

/-- `WorkerDispatch` takes the request for an object, and asks for the first
missing parameter or calls the procedure with its variables bound by name.
-/
structure DispatchesByName (line : Bytes) (req : List (Bytes × Obj)) (op : Obj) (proc : TclProc) : Prop where
  taken : ∃ encoded, jsonEncode yy tcl [.str (ascii "-plain"), .dict req] = .ok encoded ∧ encoded.head? = some 0x7B
  dispatched : ∃ id, exprGet tcl (ascii "id") (.str (ascii "-1")) req = .ok id ∧
    workerDispatch yy tcl ops line = (workerBind tcl req proc).reply yy tcl proc id op
  bound : workerBind tcl req proc = boundByName tcl req proc

variable {yy tcl ops}

/-- Of a request whose text is no option, `json encode` shows that it is an
object. -/
theorem RequestTo.taken (spec : yy.Spec) {line : Bytes} {req : List (Bytes × Obj)} {op : Obj} {proc : TclProc}
    (request : RequestTo yy tcl ops line req op proc) (value : ¬ IsOptionWord (tcl.stringOf (.dict req))) :
    ∃ encoded, jsonEncode yy tcl [.str (ascii "-plain"), .dict req] = .ok encoded ∧ encoded.head? = some 0x7B := by
  obtain ⟨t, text, decoded⟩ := (jsonDecode_ok_iff spec tcl).mp request.decoded
  have fits := yyToTcl_fits text.sane.numbers text.strings decoded
  obtain ⟨encoded, emitted, _⟩ :=
    (fits.emitted spec : ∃ out, jsonEmit yy true 0 (.dict req) = .ok out ∧ Rfc8259.Text (Obj.dict req).tree out)
  exact ⟨encoded, ((@jsonEncode_plain yy tcl (.dict req)).2 value).trans emitted,
    (head_of_emitted fits.typedValues emitted).mpr ⟨req, rfl⟩⟩

/-- A request that is read whole is dispatched to the procedure of its
operation, with the id it has. -/
theorem RequestTo.dispatched (spec : yy.Spec) {line : Bytes} {req : List (Bytes × Obj)} {op : Obj} {proc : TclProc}
    (request : RequestTo yy tcl ops line req op proc) (value : ¬ IsOptionWord (tcl.stringOf (.dict req))) :
    workerDispatch yy tcl ops line = (exprGet tcl (ascii "id") (.str (ascii "-1")) req).bind fun id =>
      (workerBind tcl req proc).reply yy tcl proc id op := by
  obtain ⟨word, member, exprValue⟩ := request.named
  have opValue : exprGet tcl (ascii "op") (.str []) req = .ok op := by
    rw [exprGet, member]
    exact exprValue
  obtain ⟨encoded, accepted, brace⟩ := request.taken spec value
  simp only [workerDispatch, request.decoded, accepted, if_pos brace, dictEntries, Except.bind, opValue,
    workerCall_bind yy tcl request.found]

end

/-- `worker on f {args x} body`, and a request that gives `x` only. -/
def shiftProc : TclProc where
  params := [(ascii "args", none), (ascii "x", none)]
  body _ := .ok (.str [])
  usage := ascii "f args x"

def shiftRequest : List (Bytes × Obj) := [(ascii "op", .str (ascii "f")), (ascii "x", .str (ascii "1"))]

def shiftLine : Bytes := ascii "\x7b\"op\":\"f\",\"x\":1\x7d"

theorem shiftLine_request :
    RequestTo referenceYyjson wordTcl [(ascii "f", shiftProc.handler wordTcl)] shiftLine shiftRequest
      (.str (ascii "f"))
      shiftProc where
  decoded := by
    have f : Utf8.WellFormed (ascii "f") := by decide
    have one : Utf8.WellFormed (ascii "1") := by decide
    have fits : Fits 0 (.dict shiftRequest) :=
      ⟨by decide, ⟨by decide, by decide, f, by decide, one, trivial⟩, trivial, trivial, trivial⟩
    exact fits.jsonDecode_emitted referenceYyjson_spec wordTcl rfl
  named := ⟨_, rfl, rfl⟩
  found := rfl

end Machteld
