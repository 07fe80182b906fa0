import Machteld.Worker.Reply

namespace Machteld

open Rfc8259

/-- The handler returned normally with a value plain JSON can carry. -/
def Completion.Carries : Completion → Prop
  | .ok res => Carried [(ascii "result", res)]
  | .raised .. => False

/-- A completion whose reply comes through: no U+0000 and no other
ill-formed string in what plain JSON carries, and no code without an
`-errorcode` unless the id is -1 anyway. -/
def Completion.Clean (id : Obj) : Completion → Prop
  | .ok res => Carried [(ascii "result", res)] → ∀ s ∈ res.plainStrings, Utf8.WellFormed s
  | .raised _ res (some code) _ _ =>
    Carried (failureExtra code res) →
      (∀ s ∈ code.plainStrings, Utf8.WellFormed s) ∧ ∀ s ∈ res.plainStrings, Utf8.WellFormed s
  | .raised _ _ none _ _ => id = .str (ascii "-1")

section

variable (yy : Yyjson) (tcl : Tcl) (ops : List (Bytes × Handler))

def CallCarries (req : List (Bytes × Obj)) (op : Obj) : Prop :=
  match dictGet (getString yy tcl op) ops with
  | none => False
  | some handler =>
    match bindParams req handler (handler.params.map Prod.fst) with
    | .error _ => False
    | .ok argv => (handler.run argv).Carries

def CallClean (req : List (Bytes × Obj)) (id op : Obj) : Prop :=
  match dictGet (getString yy tcl op) ops with
  | none => True
  | some handler =>
    match bindParams req handler (handler.params.map Prod.fst) with
    | .error aname => Utf8.WellFormed aname
    | .ok argv => (handler.run argv).Clean id

/-- The id a request decodes with, and -1 for one that has none. -/
def requestId (line : Bytes) : Obj :=
  match jsonDecode yy tcl line with
  | .ok (.dict req) => (dictGet (ascii "id") req).getD (.str (ascii "-1"))
  | _ => .str (ascii "-1")

/-- The request reaches a handler, which returns a value plain JSON carries.
-/
def Succeeds (line : Bytes) : Prop :=
  match jsonDecode yy tcl line with
  | .ok (.dict req) =>
    ¬ IsOptionWord (tcl.stringOf (.dict req)) ∧
      match exprGet tcl (ascii "id") (.str (ascii "-1")) req, exprGet tcl (ascii "op") (.str []) req with
      | .ok _, .ok op => CallCarries yy tcl ops req op
      | _, _ => False
  | _ => False

/-- The requests whose reply comes out as it should. A request whose text
passes for an option of `json encode`, an `id` or `op` that is a NaN, and a
completion without an `-errorcode` lose the id, so there it must be -1; an
id that `expr` rewrites as a number is another id. -/
def Answerable (line : Bytes) : Prop :=
  match jsonDecode yy tcl line with
  | .ok (.dict req) =>
    let id := (dictGet (ascii "id") req).getD (.str (ascii "-1"))
    if IsOptionWord (tcl.stringOf (.dict req)) then id = .str (ascii "-1")
    else
      match exprGet tcl (ascii "id") (.str (ascii "-1")) req, exprGet tcl (ascii "op") (.str []) req with
      | .ok id', .ok op => id' = id ∧ CallClean yy tcl ops req id op
      | _, _ => id = .str (ascii "-1")
  | _ => True

/-- `WorkerAnswer` comes to an end with a line for `puts`, and once that
line is written it answers the request if and only if `cond` holds. -/
def Settles (reply : Except TclError (List (Bytes × Obj))) (id : Obj) (success cond : Prop) : Prop :=
  ∃ encoded, (caughtReply tcl reply).bind (encodeReply yy tcl) = .ok encoded ∧
    ∀ written, channelWrite encoded = some written → (Answered yy tcl id success (written ++ [lf]) ↔ cond)

end

section

variable {yy : Yyjson} {tcl : Tcl} {ops : List (Bytes × Handler)}

theorem Settles.congr {reply : Except TclError (List (Bytes × Obj))} {id : Obj} {success cond cond' : Prop}
    (settles : Settles yy tcl reply id success cond) (same : cond ↔ cond') :
    Settles yy tcl reply id success cond' := by
  obtain ⟨encoded, answered, exact⟩ := settles
  exact ⟨encoded, answered, fun written sent => (exact written sent).trans same⟩

/-- A reply under an id that can be written answers a request exactly where
it has the request's id, tells of success where there is one, and has
strings that can be written. -/
theorem ReplyId.settles {id : Obj} (ready : ReplyId tcl id) (spec : yy.Spec) (tclSpec : tcl.Spec) (ok : Bool)
    {extra : List (Bytes × Obj)} (other : ∀ e ∈ extra, e.1 ≠ ascii "id" ∧ e.1 ≠ ascii "ok") (id' : Obj)
    (success : Prop) :
    Settles yy tcl (.ok ((ascii "id", id) :: replyTail ok extra)) id' success
      ((Carried extra → ∀ s ∈ plainStringsOfEntries extra, Utf8.WellFormed s) ∧ id = id' ∧
        (Carried extra ∧ ok = true ↔ success)) := by
  obtain ⟨encoded, answered, exact⟩ := ready.answered spec tclSpec ok other
  exact ⟨encoded, answered, fun written sent => exact written sent id' success⟩

/-- A failure with strings of its own making. -/
theorem ReplyId.settles_failure {id : Obj} (ready : ReplyId tcl id) (spec : yy.Spec) (tclSpec : tcl.Spec)
    {code msg : Bytes} (codeClean : Utf8.WellFormed code) (id' : Obj) {success : Prop} (fails : ¬ success) :
    Settles yy tcl (.ok (failureReply id (.str code) msg)) id' success (Utf8.WellFormed msg ∧ id = id') := by
  have settled := ready.settles spec tclSpec false (failureExtra_other (.str code) (.str msg)) id' success
  refine settled.congr ?_
  have carried := failureExtra_carried code msg
  have clean := failureExtra_strings (.str code) (.str msg)
  simp only [carried, true_imp_iff, clean, Bool.false_eq_true, and_false, fails, and_true]
  refine and_congr_left fun _ => ?_
  exact ⟨fun both => both.2 msg (List.mem_singleton.mpr rfl),
    fun whole => ⟨List.forall_mem_singleton.mpr codeClean, List.forall_mem_singleton.mpr whole⟩⟩

theorem minusId (tclSpec : tcl.Spec) : ReplyId tcl (.str (ascii "-1")) :=
  ⟨by decide, show Utf8.WellFormed (ascii "-1") by decide, trivial, tclSpec.expr_minus⟩

/-- An error whose code is several clean words. -/
structure CodedError (e : TclError) : Prop where
  message : Utf8.WellFormed e.message
  words : ∃ a b rest, e.errorcode = a :: b :: rest
  clean : ∀ word ∈ e.errorcode, Utf8.WellFormed word

theorem noErrorcode_coded : CodedError noErrorcode :=
  ⟨by decide, ⟨_, _, _, rfl⟩, List.forall_mem_cons.mpr ⟨by decide, List.forall_mem_cons.mpr ⟨by decide,
    List.forall_mem_cons.mpr ⟨by decide, List.forall_mem_singleton.mpr (by decide)⟩⟩⟩⟩

/-- A list of words fits into any encoding. -/
theorem wordList_fits (words : List Bytes) :
    depthOfItems (words.map Obj.str) ≤ 1 ∧ typedOfItems (words.map Obj.str) = [] ∧
      plainStringsOfItems (words.map Obj.str) = words := by
  induction words with
  | nil => exact ⟨Nat.zero_le 1, rfl, rfl⟩
  | cons word words ih =>
    obtain ⟨room, plain, strings⟩ := ih
    refine ⟨Nat.max_le.mpr ⟨Nat.le_refl 1, room⟩, plain, ?_⟩
    simp only [List.map_cons, plainStringsOfItems, Obj.plainStrings, strings, List.cons_append, List.nil_append]

/-- What `WorkerDispatch` raises is answered, under the id -1. -/
theorem CodedError.settles {e : TclError} (coded : CodedError e) (spec : yy.Spec) (tclSpec : tcl.Spec) (id' : Obj)
    {success : Prop} (fails : ¬ success) :
    Settles yy tcl (.error e) id' success (id' = .str (ascii "-1")) := by
  obtain ⟨a, b, rest, words⟩ := coded.words
  have same : tcl.exprOf (errorcodeObj e) = .ok (errorcodeObj e) := by
    unfold errorcodeObj
    rw [words]
    exact tclSpec.expr_words _ _ _
  have settled := (minusId tclSpec).settles spec tclSpec false
    (failureExtra_other (errorcodeObj e) (.str e.message)) id' success
  obtain ⟨encoded, answered, exact⟩ := settled
  refine ⟨encoded, ?_, fun written sent => (exact written sent).trans ?_⟩
  · simp only [caughtReply, same, Except.map]
    exact answered
  · obtain ⟨room, plain, strings⟩ := wordList_fits e.errorcode
    have clean := failureExtra_strings (errorcodeObj e) (.str e.message)
    have all : ∀ s ∈ plainStringsOfEntries (failureExtra (errorcodeObj e) (.str e.message)), Utf8.WellFormed s := by
      refine clean.mpr ⟨?_, List.forall_mem_singleton.mpr coded.message⟩
      show ∀ s ∈ plainStringsOfItems _, _
      rw [strings]
      exact coded.clean
    constructor
    · exact fun both => both.2.1.symm
    · rintro rfl
      exact ⟨fun _ => all, rfl, ⟨fun both => Bool.noConfusion both.2, fun yes => absurd yes fails⟩⟩

theorem needs_wellFormed {op aname : Bytes} (opClean : Utf8.WellFormed op) :
    Utf8.WellFormed (op ++ (ascii " needs \"" ++ (aname ++ ascii "\""))) ↔ Utf8.WellFormed aname := by
  have shape : ascii " needs \"" ++ (aname ++ ascii "\"") = space :: (ascii "needs \"" ++ (aname ++ [dquote])) :=
    rfl
  have inner : ascii "needs \"" ++ (aname ++ [dquote]) = ascii "needs " ++ dquote :: (aname ++ [dquote]) := rfl
  rw [shape, Utf8.wellFormed_split (by decide), inner, Utf8.wellFormed_split (by decide),
    Utf8.wellFormed_split (by decide)]
  exact ⟨fun all => all.2.2.1, fun whole => ⟨opClean, by decide, whole, Utf8.wellFormed_nil⟩⟩

theorem result_other (res : Obj) : ∀ e ∈ [(ascii "result", res)], e.1 ≠ ascii "id" ∧ e.1 ≠ ascii "ok" :=
  List.forall_mem_singleton.mpr
    ⟨show ascii "result" ≠ ascii "id" by decide, show ascii "result" ≠ ascii "ok" by decide⟩

theorem result_strings (res : Obj) :
    (∀ s ∈ plainStringsOfEntries [(ascii "result", res)], Utf8.WellFormed s) ↔
      ∀ s ∈ res.plainStrings, Utf8.WellFormed s := by
  have name : Utf8.WellFormed (ascii "result") := by decide
  simp only [plainStringsOfEntries, List.forall_mem_cons, List.append_nil, name, true_and]

/-- Every completion of the handler is answered. -/
theorem ReplyId.settles_outcome {id' : Obj} (ready : ReplyId tcl id') (spec : yy.Spec)
    (tclSpec : tcl.Spec) (id : Obj)
    (minus : id = .str (ascii "-1") → id' = id) (completion : Completion) :
    Settles yy tcl (workerOutcome id' completion) id completion.Carries (id' = id ∧ completion.Clean id) := by
  cases completion with
  | ok res =>
    have settled := ready.settles spec tclSpec true (result_other res) id (Carried [(ascii "result", res)])
    refine settled.congr ?_
    rw [result_strings]
    simp only [and_true]
    exact and_comm
  | raised code res errorcode nonzero coded =>
    cases errorcode with
    | some errorcode =>
      have settled := ready.settles spec tclSpec false (failureExtra_other errorcode res) id False
      refine settled.congr ?_
      rw [failureExtra_strings]
      simp only [Bool.false_eq_true, and_false, and_true]
      exact and_comm
    | none =>
      refine (noErrorcode_coded.settles spec tclSpec id not_false).congr ?_
      exact ⟨fun same => ⟨minus same, same⟩, And.right⟩

/-- A call is settled by the reply of its handler or by that of its failure,
and is answered exactly where the id is its own and what the reply carries
can be written. -/
theorem workerCall_settles (spec : yy.Spec) (tclSpec : tcl.Spec) {req : List (Bytes × Obj)} {id id' op : Obj}
    (ready : ReplyId tcl id') (opClean : Utf8.WellFormed (getString yy tcl op))
    (minus : id = .str (ascii "-1") → id' = id) :
    Settles yy tcl (workerCall yy tcl ops req id' op) id (CallCarries yy tcl ops req op)
      (id' = id ∧ CallClean yy tcl ops req id op) := by
  cases found : dictGet (getString yy tcl op) ops with
  | none =>
    have code : Utf8.WellFormed (ascii "MACHTELD WORKER notfound") := by decide
    have msg : Utf8.WellFormed (ascii "no handler for \"" ++ (getString yy tcl op ++ ascii "\"")) :=
      Utf8.WellFormed.append (by decide) (opClean.append (by decide))
    simp only [workerCall, CallCarries, CallClean, found]
    refine (ready.settles_failure spec tclSpec code id not_false).congr ?_
    simp only [msg, true_and, and_true]
  | some handler =>
    cases bound : bindParams req handler (handler.params.map Prod.fst) with
    | error aname =>
      have code : Utf8.WellFormed (ascii "MACHTELD WORKER usage") := by decide
      simp only [workerCall, CallCarries, CallClean, found, bound]
      refine (ready.settles_failure spec tclSpec code id not_false).congr ?_
      rw [needs_wellFormed opClean]
      exact and_comm
    | ok argv =>
      simp only [workerCall, CallCarries, CallClean, found, bound]
      exact ready.settles_outcome spec tclSpec id minus (handler.run argv)

/-- The request's id as `expr` leaves it can stand in a reply. -/
theorem exprGet_ready (tclSpec : tcl.Spec) {req : List (Bytes × Obj)} (fits : Fits 0 (.dict req)) {key : Bytes}
    {id : Obj} (value : exprGet tcl key (.str (ascii "-1")) req = .ok id) : ReplyId tcl id := by
  unfold exprGet at value
  split at value
  · rename_i v found
    have inside := fits.values found
    have settled := tclSpec.expr_again v id value
    rcases tclSpec.expr_value v id value with rfl | ⟨s, rfl, small⟩
    · exact ⟨by simpa using inside.room, inside.plain, inside.full, settled⟩
    · exact ⟨show 1 + 1 ≤ 512 by decide, wellFormed_of_ascii small, trivial, settled⟩
  · obtain rfl := Except.ok.inj value
    exact minusId tclSpec

/-- A value read of a request that was decoded is well formed. -/
theorem exprGet_string (tclSpec : tcl.Spec) {req : List (Bytes × Obj)} (fits : Fits 0 (.dict req)) {key : Bytes}
    {op : Obj} (value : exprGet tcl key (.str []) req = .ok op) : Utf8.WellFormed (getString yy tcl op) := by
  unfold exprGet at value
  split at value
  · rename_i v found
    have inside := fits.values found
    rcases tclSpec.expr_value v op value with rfl | ⟨s, rfl, small⟩
    · cases op with
      | str s => exact inside.plain
      | typed x => exact absurd inside.plain not_false
      | list items => exact tclSpec.text_wellFormed _ inside.plain
      | dict entries => exact tclSpec.text_wellFormed _ inside.plain
    · exact wellFormed_of_ascii small
  · obtain rfl := Except.ok.inj value
    exact Utf8.wellFormed_nil

/-- An error of reading a value has an errorcode. -/
theorem exprGet_coded (tclSpec : tcl.Spec) {req : List (Bytes × Obj)} {key : Bytes} {dflt : Obj} {e : TclError}
    (failed : exprGet tcl key dflt req = .error e) : CodedError e := by
  unfold exprGet at failed
  split at failed
  · rename_i v _
    obtain ⟨message, a, b, rest, words, clean⟩ := tclSpec.expr_error v e failed
    exact ⟨message, ⟨a, b, rest, words⟩, clean⟩
  · cases failed

/-- The brace that tells an object from every other plain value. -/
theorem head_of_emitted {v : Obj} {encoded : Bytes} (plain : v.typedValues = [])
    (emitted : jsonEmit yy true 0 v = .ok encoded) : encoded.head? = some 0x7B ↔ ∃ entries, v = .dict entries := by
  cases v with
  | str s =>
    obtain ⟨_, same⟩ := jsonCapped_ok.mp emitted
    obtain rfl := Except.ok.inj same
    refine ⟨fun brace => ?_, fun ⟨_, bad⟩ => nomatch bad⟩
    split_ifs at brace with number
    · obtain ⟨nonempty, chars⟩ := ((jsonIsNumberLiteral_iff s).mp number).chars
      obtain ⟨c, rest, rfl⟩ := List.exists_cons_of_ne_nil nonempty
      obtain rfl : c = 0x7B := Option.some.inj brace
      exact absurd (chars _ (List.mem_cons_self ..)) (by decide)
    · exact absurd brace (by simp only [jsonQuote, List.head?_cons, Option.some.injEq]; decide)
  | list items =>
    obtain ⟨_, inside⟩ := jsonCapped_ok.mp emitted
    obtain ⟨body, _, rfl⟩ := Except.map_ok.mp inside
    exact ⟨fun brace => absurd brace (by simp), fun ⟨_, bad⟩ => nomatch bad⟩
  | dict entries =>
    obtain ⟨_, inside⟩ := jsonCapped_ok.mp emitted
    obtain ⟨body, _, rfl⟩ := Except.map_ok.mp inside
    exact ⟨fun _ => ⟨entries, rfl⟩, fun _ => rfl⟩
  | typed x => cases plain

/-- `WorkerAnswer` never raises, and the line it writes answers the request
exactly when the request is answerable. -/
theorem workerAnswer_answers_iff (spec : yy.Spec) (tclSpec : tcl.Spec) (ops : List (Bytes × Handler))
    (line : Bytes) :
    ∃ encoded, workerAnswer yy tcl ops line = .ok encoded ∧
      ∀ written, channelWrite encoded = some written →
        (Answered yy tcl (requestId yy tcl line) (Succeeds yy tcl ops line) (written ++ [lf]) ↔
          Answerable yy tcl ops line) := by
  show Settles yy tcl (workerDispatch yy tcl ops line) (requestId yy tcl line) (Succeeds yy tcl ops line)
    (Answerable yy tcl ops line)
  have parse : ∀ msg : Bytes, Utf8.WellFormed msg → ∀ id : Obj, ∀ success : Prop, ¬ success →
      Settles yy tcl (.ok (failureReply (.str (ascii "-1")) (.str (ascii "MACHTELD WORKER parse")) msg)) id success
        (id = .str (ascii "-1")) := by
    intro msg clean id success fails
    refine ((minusId tclSpec).settles_failure spec tclSpec (by decide) id fails).congr ?_
    exact ⟨fun both => both.2.symm, fun same => ⟨clean, same.symm⟩⟩
  have notJson : Utf8.WellFormed (ascii "request is not valid JSON") := by decide
  have notObject : Utf8.WellFormed (ascii "request must be a JSON object") := by decide
  cases decoded : jsonDecode yy tcl line with
  | error e =>
    simp only [workerDispatch, requestId, Succeeds, Answerable, decoded]
    exact (parse _ notJson _ _ not_false).congr ⟨fun _ => trivial, fun _ => rfl⟩
  | ok v =>
    obtain ⟨t, text, value⟩ := (jsonDecode_ok_iff spec tcl).mp decoded
    have fits := yyToTcl_fits text.sane.numbers text.strings value
    obtain ⟨encoded, emitted, _⟩ := (fits.emitted spec : ∃ out, jsonEmit yy true 0 v = .ok out ∧ Text v.tree out)
    have brace := head_of_emitted fits.typedValues emitted
    have plainCall := @jsonEncode_plain yy tcl v
    by_cases object : ∃ req, v = .dict req
    · obtain ⟨req, rfl⟩ := object
      by_cases option : IsOptionWord (tcl.stringOf (.dict req))
      · obtain ⟨e, refused⟩ := plainCall.1 option
        simp only [workerDispatch, requestId, Succeeds, Answerable, decoded, refused, if_pos option]
        exact parse _ notObject _ _ fun both => both.1 option
      · have accepted := (plainCall.2 option).trans emitted
        simp only [workerDispatch, requestId, Succeeds, Answerable, decoded, accepted,
          if_pos (brace.mpr ⟨req, rfl⟩), dictEntries, Except.bind, option, not_false_iff, true_and]
        cases idValue : exprGet tcl (ascii "id") (.str (ascii "-1")) req with
        | error e => exact (exprGet_coded tclSpec idValue).settles spec tclSpec _ not_false
        | ok id' =>
          dsimp only
          cases opValue : exprGet tcl (ascii "op") (.str []) req with
          | error e => exact (exprGet_coded tclSpec opValue).settles spec tclSpec _ not_false
          | ok op =>
            have ready := exprGet_ready tclSpec fits idValue
            refine workerCall_settles spec tclSpec ready (exprGet_string tclSpec fits opValue) fun same => ?_
            unfold exprGet at idValue
            cases found : dictGet (ascii "id") req with
            | none =>
              rw [found] at idValue
              exact (Except.ok.inj idValue).symm
            | some v =>
              rw [found] at idValue same
              obtain rfl : v = .str (ascii "-1") := same
              exact (Except.ok.inj (tclSpec.expr_minus.symm.trans idValue)).symm
    · have refused : Settles yy tcl (workerDispatch yy tcl ops line) (.str (ascii "-1")) False True := by
        have settled := (parse _ notObject (.str (ascii "-1")) False not_false).congr (iff_of_true rfl trivial)
        have dispatched : workerDispatch yy tcl ops line = .ok (parseReply "request must be a JSON object") := by
          by_cases option : IsOptionWord (getString yy tcl v)
          · obtain ⟨e, refused⟩ := plainCall.1 option
            simp only [workerDispatch, decoded, refused]
          · have accepted := (plainCall.2 option).trans emitted
            simp only [workerDispatch, decoded, accepted, if_neg fun yes => object (brace.mp yes)]
        rw [dispatched]
        exact settled
      cases v with
      | dict req => exact absurd ⟨req, rfl⟩ object
      | str s => simpa only [requestId, Succeeds, Answerable, decoded] using refused
      | list items => simpa only [requestId, Succeeds, Answerable, decoded] using refused
      | typed x => simpa only [requestId, Succeeds, Answerable, decoded] using refused

end

/-- A handler that ends with `return -code break`. -/
def breakOps : List (Bytes × Handler) :=
  [(ascii "quit", ⟨[], fun _ => .raised 3 (.str []) none (by decide) (by decide)⟩)]

def breakLine : Bytes := ascii "\x7b\"id\":5,\"op\":\"quit\"\x7d"

theorem workerAnswer_answers_sample :
    ∃ encoded, workerAnswer referenceYyjson wordTcl breakOps breakLine = .ok encoded ∧
      ∀ written, channelWrite encoded = some written →
        (Answered referenceYyjson wordTcl (requestId referenceYyjson wordTcl breakLine)
          (Succeeds referenceYyjson wordTcl breakOps breakLine) (written ++ [lf]) ↔
          Answerable referenceYyjson wordTcl breakOps breakLine) :=
  workerAnswer_answers_iff referenceYyjson_spec wordTcl_spec breakOps _

def breakRequest : List (Bytes × Obj) := [(ascii "id", .str (ascii "5")), (ascii "op", .str (ascii "quit"))]

theorem breakRequest_read : jsonDecode referenceYyjson wordTcl breakLine = .ok (.dict breakRequest) := by
  have five : Utf8.WellFormed (ascii "5") := by decide
  have quit : Utf8.WellFormed (ascii "quit") := by decide
  have fits : Fits 0 (.dict breakRequest) :=
    ⟨by decide, ⟨by decide, by decide, five, by decide, quit, trivial⟩, trivial, trivial, trivial⟩
  exact fits.jsonDecode_emitted referenceYyjson_spec wordTcl rfl

def breakAnswer : Bytes :=
  ascii "\x7b\"id\":-1,\"ok\":0,\"code\":[\"TCL\",\"LOOKUP\",\"DICT\",\"-errorcode\"]," ++
    ascii "\"msg\":\"key \\\"-errorcode\\\" not known in dictionary\"\x7d"

/-- The reply that is sent where the handler breaks. -/
theorem breakAnswer_emitted : jsonEmit referenceYyjson true 0
    (.dict (failureReply (.str (ascii "-1")) (errorcodeObj noErrorcode) noErrorcode.message)) =
      .ok breakAnswer := by
  exact rfl

theorem breakAnswer_read : jsonDecode referenceYyjson wordTcl breakAnswer =
    .ok (.dict (failureReply (.str (ascii "-1")) (errorcodeObj noErrorcode) noErrorcode.message)) := by
  have fits : Fits 0 (.dict (failureReply (.str (ascii "-1")) (errorcodeObj noErrorcode) noErrorcode.message)) := by
    have coded := noErrorcode_coded
    have minus : Utf8.WellFormed (ascii "-1") := by decide
    have zero : Utf8.WellFormed (ascii "0") := by decide
    have words : PlainItems Utf8.WellFormed (noErrorcode.errorcode.map Obj.str) := by
      have clean := List.forall_mem_cons.mp coded.clean
      have clean' := List.forall_mem_cons.mp clean.2
      have clean'' := List.forall_mem_cons.mp clean'.2
      exact ⟨clean.1, clean'.1, clean''.1, clean''.2 _ (List.mem_singleton.mpr rfl), trivial⟩
    exact ⟨Nat.le_of_ble_eq_true rfl,
      ⟨by decide, by decide, minus, by decide, zero, by decide, words, by decide, coded.message, trivial⟩,
      trivial, trivial, ⟨List.cons_ne_nil _ _, trivial, trivial, trivial, trivial, trivial⟩, trivial, trivial⟩
  exact fits.jsonDecode_emitted referenceYyjson_spec wordTcl breakAnswer_emitted

/-- The reply to a request whose handler breaks has lost the id. -/
theorem workerAnswer_answers_break :
    workerAnswer referenceYyjson wordTcl breakOps breakLine = .ok breakAnswer ∧
      channelWrite breakAnswer = some breakAnswer ∧
      requestId referenceYyjson wordTcl breakLine = .str (ascii "5") ∧
      ∀ success, ¬ Answered referenceYyjson wordTcl (.str (ascii "5")) success (breakAnswer ++ [lf]) := by
  refine ⟨?_, channelWrite_wellFormed (by decide), ?_, fun success answered => ?_⟩
  · have dispatched : workerDispatch referenceYyjson wordTcl breakOps breakLine = .error noErrorcode := by
      unfold workerDispatch
      rw [breakRequest_read]
      rfl
    unfold workerAnswer
    rw [dispatched]
    have plain : jsonEncode referenceYyjson wordTcl
        (replyWords (failureReply (.str (ascii "-1")) (errorcodeObj noErrorcode) noErrorcode.message)) =
          .ok breakAnswer :=
      (jsonEncode_reply wordTcl_spec _ _).trans breakAnswer_emitted
    change encodeReply referenceYyjson wordTcl (failureReply (.str (ascii "-1"))
      (errorcodeObj noErrorcode) noErrorcode.message) = _
    rw [encodeReply, plain]
  · unfold requestId
    rw [breakRequest_read]
    rfl
  · obtain ⟨body, entries, ok, same, _, read, hasId, _⟩ := answered
    obtain rfl := List.append_cancel_right same
    obtain rfl := Obj.dict.inj (Except.ok.inj (breakAnswer_read.symm.trans read))
    exact absurd (Obj.str.inj (Option.some.inj hasId)) (by decide)

end Machteld
