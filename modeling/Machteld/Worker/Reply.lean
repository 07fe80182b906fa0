import Machteld.Json.Line
import Machteld.Worker.Dispatch

namespace Machteld

open Rfc8259

/-- One line with a JSON object that has the request's id and tells whether
the request succeeded. -/
def Answered (yy : Yyjson) (tcl : Tcl) (id : Obj) (success : Prop) (sent : Bytes) : Prop :=
  ∃ body entries ok, sent = body ++ [lf] ∧ lf ∉ body ∧ jsonDecode yy tcl body = .ok (.dict entries) ∧
    dictGet (ascii "id") entries = some id ∧ dictGet (ascii "ok") entries = some (.str ok) ∧
    (ok = ascii "1" ∧ success ∨ ok = ascii "0" ∧ ¬ success)

/-- The members of a reply behind its id: `ok` and what depends on it. -/
def replyTail (ok : Bool) (extra : List (Bytes × Obj)) : List (Bytes × Obj) :=
  (ascii "ok", .str (ascii (if ok then "1" else "0"))) :: extra

/-- An id as a request carries it, fit for a reply. -/
structure ReplyId (tcl : Tcl) (id : Obj) : Prop where
  room : 1 + id.depth ≤ 512
  plain : id.Plain Utf8.WellFormed
  full : id.NoEmptyList
  settled : tcl.exprOf id = .ok id

section

variable {yy : Yyjson} {tcl : Tcl}

theorem jsonEncode_reply (spec : tcl.Spec) (id : Obj) (rest : List (Bytes × Obj)) :
    jsonEncode yy tcl (replyWords ((ascii "id", id) :: rest)) = jsonEmit yy true 0
      (.dict ((ascii "id", id) :: rest)) := by
  have flag : encodeArgs yy tcl true .none none (replyWords ((ascii "id", id) :: rest)) =
      encodeArgs yy tcl true ⟨true, false, true⟩ none [.dict ((ascii "id", id) :: rest)] := rfl
  have value := @encodeArgs_value yy tcl ⟨true, false, true⟩ (.dict _) (spec.id_not_option id rest)
  exact jsonEncode_of_args (flag.trans value) (by decide)

theorem ReplyId.decoded {id : Obj} (ready : ReplyId tcl id) : yyToTcl 1 id.tree = some id := by
  have decoded := ready.plain.decoded ready.room
  rwa [Obj.canon_same ready.full] at decoded

/-- A reply decodes with its id and its `ok` as they were. -/
theorem ReplyId.reply_decoded {id : Obj} (ready : ReplyId tcl id) {ok : Bool} {extra : List (Bytes × Obj)}
    (room : 1 + depthOfEntries extra ≤ 512) (plain : typedOfEntries extra = [])
    (other : ∀ e ∈ extra, e.1 ≠ ascii "id" ∧ e.1 ≠ ascii "ok") :
    ∃ entries, yyToTcl 0 (Obj.dict ((ascii "id", id) :: replyTail ok extra)).tree = some (.dict entries) ∧
      dictGet (ascii "id") entries = some id ∧
      dictGet (ascii "ok") entries = some (.str (ascii (if ok then "1" else "0"))) := by
  have flag := yyToTcl_leaf 1 (by decide) (ascii (if ok then "1" else "0"))
  have fresh : ∀ key, key = ascii "id" ∨ key = ascii "ok" → key ∉ (treeOfEntries extra).map Prod.fst := by
    intro key which member
    rw [treeOfEntries_keys] at member
    obtain ⟨e, inside, rfl⟩ := List.mem_map.mp member
    exact which.elim (other e inside).1 (other e inside).2
  obtain ⟨entries, decoded⟩ := yyMembersToTcl_total plain room
    [(ascii "id", id), (ascii "ok", .str (ascii (if ok then "1" else "0")))]
  refine ⟨entries, ?_, ?_, ?_⟩
  · simp only [Obj.tree, replyTail, treeOfEntries, yyToTcl,
      if_neg (below_cap (show 0 < 512 by decide)), yyMembersToTcl,
      ready.decoded, Option.bind_some, Nat.zero_add]
    rw [show yyToTcl 1 (if jsonIsNumberLiteral (ascii (if ok then "1" else "0")) = true then
      Json.number (ascii (if ok then "1" else "0")) else Json.string
        (ascii (if ok then "1" else "0"))) = _ from flag]
    simp only [Option.bind_some]
    rw [show dictPut (ascii "ok") (Obj.str (ascii (if ok then "1" else "0"))) (dictPut (ascii "id") id []) =
      [(ascii "id", id), (ascii "ok", .str (ascii (if ok then "1" else "0")))] from rfl, decoded, Option.map_some]
  · rw [yyMembersToTcl_get decoded (fresh _ (Or.inl rfl))]
    rfl
  · rw [yyMembersToTcl_get decoded (fresh _ (Or.inr rfl))]
    rfl

/-- A written line answers exactly when it is the UTF-8 text that was meant.
-/
theorem answered_iff (spec : yy.Spec) {encoded written : Bytes} {t : Json} {entries : List (Bytes × Obj)} {id : Obj}
    {ok : Bool} (sent : channelWrite encoded = some written) (line : Printable encoded)
    (text : Text t encoded ↔ Utf8.WellFormed encoded) (decoded : yyToTcl 0 t = some (.dict entries))
    (hasId : dictGet (ascii "id") entries = some id)
    (hasOk : dictGet (ascii "ok") entries = some (.str (ascii (if ok then "1" else "0")))) (id' : Obj)
    (success : Prop) :
    Answered yy tcl id' success (written ++ [lf]) ↔
      Utf8.WellFormed encoded ∧ id = id' ∧ (ok = true ↔ success) := by
  constructor
  · rintro ⟨body, entries', ok', same, _, read, hasId', hasOk', which⟩
    obtain rfl : written = body := List.append_cancel_right same
    obtain ⟨t', text', decoded'⟩ := (jsonDecode_ok_iff spec tcl).mp read
    rcases channelWrite_some sent with ⟨whole, rfl⟩ | ⟨_, nul⟩
    · obtain rfl := text_unique (text.mpr whole) text'
      obtain rfl : entries = entries' := by
        have both := decoded.symm.trans decoded'
        simpa using both
      have flags : ascii (if ok then "1" else "0") = ok' := by
        have both := hasOk.symm.trans hasOk'
        simpa using both
      refine ⟨whole, Option.some.inj (hasId.symm.trans hasId'), ?_⟩
      rcases which with ⟨one, yes⟩ | ⟨zero, no⟩
      · refine ⟨fun _ => yes, fun _ => ?_⟩
        by_contra off
        rw [Bool.not_eq_true] at off
        subst off
        exact absurd (flags.trans one) (by decide)
      · refine ⟨fun on => ?_, fun yes => absurd yes no⟩
        subst on
        exact absurd (flags.trans zero) (by decide)
    · exact absurd nul text'.no_nul
  · rintro ⟨whole, rfl, matching⟩
    obtain rfl : written = encoded := Option.some.inj (sent.symm.trans (channelWrite_wellFormed whole))
    refine ⟨written, entries, _, rfl, one_line line sent,
      (jsonDecode_ok_iff spec tcl).mpr ⟨t, text.mpr whole, decoded⟩, hasId, hasOk, ?_⟩
    cases ok with
    | true => exact Or.inl ⟨rfl, matching.mp rfl⟩
    | false => exact Or.inr ⟨rfl, fun yes => Bool.noConfusion (matching.mpr yes)⟩

/-- What plain JSON can carry as a member of a reply. -/
structure Carried (extra : List (Bytes × Obj)) : Prop where
  room : 1 + depthOfEntries extra ≤ 512
  plain : typedOfEntries extra = []

/-- A reply under an id that can be written can be written where what it
carries can. -/
theorem ReplyId.encodable_iff {id : Obj} (ready : ReplyId tcl id) (ok : Bool) (extra : List (Bytes × Obj)) :
    Encodable true 0 (Obj.dict ((ascii "id", id) :: replyTail ok extra)).depth
      (Obj.dict ((ascii "id", id) :: replyTail ok extra)).typedValues ↔ Carried extra := by
  have idRoom := ready.room
  have typed : (Obj.dict ((ascii "id", id) :: replyTail ok extra)).typedValues = typedOfEntries extra := by
    simp only [Obj.typedValues, replyTail, typedOfEntries, ready.plain.typedValues, List.nil_append]
  have depth : (Obj.dict ((ascii "id", id) :: replyTail ok extra)).depth =
      1 + max id.depth (max 1 (depthOfEntries extra)) := rfl
  rw [typed, depth]
  constructor
  · rintro ⟨room, plain, _⟩
    exact ⟨by omega, plain rfl⟩
  · rintro ⟨room, plain⟩
    rw [plain]
    exact ⟨by omega, fun _ => rfl, List.forall_mem_nil _⟩

/-- A reply that encodes answers exactly when what it carries is UTF-8. -/
theorem ReplyId.encoded {id : Obj} (ready : ReplyId tcl id) (spec : yy.Spec) (tclSpec : tcl.Spec) (ok : Bool)
    {extra : List (Bytes × Obj)} (carried : Carried extra)
    (other : ∀ e ∈ extra, e.1 ≠ ascii "id" ∧ e.1 ≠ ascii "ok") :
    ∃ encoded, jsonEncode yy tcl (replyWords ((ascii "id", id) :: replyTail ok extra)) = .ok encoded ∧
      ∀ written, channelWrite encoded = some written → ∀ id' success,
        Answered yy tcl id' success (written ++ [lf]) ↔
          (∀ s ∈ plainStringsOfEntries extra, Utf8.WellFormed s) ∧ id = id' ∧ (ok = true ↔ success) := by
  have able := (ready.encodable_iff ok extra).mpr carried
  obtain ⟨encoded, emitted⟩ := (jsonEmit_ok_iff spec _ 0).mpr able
  refine ⟨encoded, (jsonEncode_reply tclSpec id _).trans emitted, fun written sent id' success => ?_⟩
  have piece := jsonEmit_emitted spec emitted
  obtain ⟨entries, decoded, hasId, hasOk⟩ := ready.reply_decoded carried.room carried.plain other
  have text : Text (Obj.dict ((ascii "id", id) :: replyTail ok extra)).tree encoded ↔ Utf8.WellFormed encoded :=
    ⟨And.left, fun whole => ⟨whole, piece.spelled⟩⟩
  rw [answered_iff spec sent (jsonEmit_printable emitted) text decoded hasId hasOk id' success, ← text,
    jsonEmit_text spec emitted, Obj.clean_iff]
  refine and_congr_left fun _ => ?_
  have flag : Utf8.WellFormed (ascii (if ok then "1" else "0")) := by cases ok <;> decide
  constructor
  · intro clean s member
    refine clean.2 s ?_
    simp only [Obj.plainStrings, replyTail, plainStringsOfEntries, List.mem_cons, List.mem_append, List.cons_append,
      List.nil_append]
    exact Or.inr (Or.inr (Or.inr (Or.inr member)))
  · intro clean
    refine ⟨able.written, ?_⟩
    simp only [Obj.plainStrings, replyTail, plainStringsOfEntries]
    refine List.forall_mem_cons.mpr ⟨by decide, List.forall_mem_append.mpr ⟨ready.plain.strings, ?_⟩⟩
    exact List.forall_mem_cons.mpr ⟨by decide, List.forall_mem_cons.mpr ⟨flag, clean⟩⟩

/-- What a failure carries. -/
def failureExtra (code msg : Obj) : List (Bytes × Obj) := [(ascii "code", code), (ascii "msg", msg)]

theorem failureExtra_other (code msg : Obj) : ∀ e ∈ failureExtra code msg, e.1 ≠ ascii "id" ∧ e.1 ≠ ascii "ok" := by
  intro e member
  simp only [failureExtra, List.mem_cons, List.not_mem_nil, or_false] at member
  rcases member with rfl | rfl
  · exact ⟨show ascii "code" ≠ ascii "id" by decide, show ascii "code" ≠ ascii "ok" by decide⟩
  · exact ⟨show ascii "msg" ≠ ascii "id" by decide, show ascii "msg" ≠ ascii "ok" by decide⟩

theorem failureExtra_carried (code msg : Bytes) : Carried (failureExtra (.str code) (.str msg)) :=
  ⟨Nat.le_of_ble_eq_true rfl, rfl⟩

theorem failureExtra_strings (code msg : Obj) :
    (∀ s ∈ plainStringsOfEntries (failureExtra code msg), Utf8.WellFormed s) ↔
      (∀ s ∈ code.plainStrings, Utf8.WellFormed s) ∧ ∀ s ∈ msg.plainStrings, Utf8.WellFormed s := by
  have names : Utf8.WellFormed (ascii "code") ∧ Utf8.WellFormed (ascii "msg") := ⟨by decide, by decide⟩
  simp only [failureExtra, plainStringsOfEntries, List.forall_mem_append, List.forall_mem_cons, List.cons_append,
    List.append_nil, names, true_and]

/-- A reply that does not encode is answered under its id all the same. -/
theorem ReplyId.answered {id : Obj} (ready : ReplyId tcl id) (spec : yy.Spec) (tclSpec : tcl.Spec) (ok : Bool)
    {extra : List (Bytes × Obj)} (other : ∀ e ∈ extra, e.1 ≠ ascii "id" ∧ e.1 ≠ ascii "ok") :
    ∃ encoded, encodeReply yy tcl ((ascii "id", id) :: replyTail ok extra) = .ok encoded ∧
      ∀ written, channelWrite encoded = some written → ∀ id' success,
        Answered yy tcl id' success (written ++ [lf]) ↔
          (Carried extra → ∀ s ∈ plainStringsOfEntries extra, Utf8.WellFormed s) ∧ id = id' ∧
            (Carried extra ∧ ok = true ↔ success) := by
  by_cases carried : Carried extra
  · obtain ⟨encoded, direct, answer⟩ := ready.encoded spec tclSpec ok carried other
    refine ⟨encoded, by simp only [encodeReply, direct], fun written sent id' success => ?_⟩
    rw [answer written sent id' success]
    simp only [carried, true_and, true_imp_iff]
  · obtain ⟨e, failed⟩ : ∃ e, jsonEncode yy tcl (replyWords ((ascii "id", id) :: replyTail ok extra)) =
      .error e := by
      rw [jsonEncode_reply tclSpec]
      refine Except.not_ok fun able => carried ?_
      exact (ready.encodable_iff ok extra).mp ((jsonEmit_ok_iff spec _ 0).mp able)
    have reason : Utf8.WellFormed (unencodable e.message) := by
      rw [jsonEncode_reply tclSpec] at failed
      rcases jsonEmit_error failed with rfl | rfl <;> decide
    have shape : failureReply id (.str (ascii "MACHTELD WORKER failed")) (unencodable e.message) =
        (ascii "id", id) :: replyTail false
          (failureExtra (.str (ascii "MACHTELD WORKER failed")) (.str (unencodable e.message))) := rfl
    obtain ⟨encoded, fallback, answer⟩ := ready.encoded spec tclSpec false
      (failureExtra_carried (ascii "MACHTELD WORKER failed") (unencodable e.message)) (failureExtra_other _ _)
    have sameId : exprGet tcl (ascii "id") (.str (ascii "-1")) ((ascii "id", id) :: replyTail ok extra) = .ok id :=
      ready.settled
    refine ⟨encoded, ?_, fun written sent id' success => ?_⟩
    · simp only [encodeReply, failed, sameId, Except.bind, shape, fallback]
    · rw [answer written sent id' success]
      have clean := (failureExtra_strings (.str (ascii "MACHTELD WORKER failed"))
        (.str (unencodable e.message))).mpr
        ⟨List.forall_mem_singleton.mpr (by decide), List.forall_mem_singleton.mpr reason⟩
      simp only [carried, false_and, false_imp_iff, true_and, Bool.false_eq_true]
      exact ⟨fun all => all.2, fun rest => ⟨clean, rest⟩⟩

end

end Machteld
