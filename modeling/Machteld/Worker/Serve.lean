import Machteld.Pool.Healthy

namespace Machteld

open Rfc8259

section

variable (yy : Yyjson) (tcl : Tcl) (ops : List (Bytes × Handler))

/-- `worker serve`: the lines it writes for the lines it reads. A line the
channel refuses ends the worker, a reply it refuses is left out. -/
def workerServe : List Bytes → List Bytes
  | [] => []
  | line :: lines =>
    match channelRead line with
    | none => []
    | some [] => workerServe lines
    | some (a :: asked) =>
      match workerAnswer yy tcl ops (a :: asked) with
      | .error _ => []
      | .ok encoded => (channelWrite encoded).toList ++ workerServe lines

/-- A line `worker serve` writes for a line it reads. -/
def Serves (request line : Bytes) : Prop :=
  ∃ asked encoded, channelRead request = some asked ∧ workerAnswer yy tcl ops asked = .ok encoded ∧
    channelWrite encoded = some line

/-- `WorkerDispatch` behind its checks of the line. -/
def dispatchRequest (req : List (Bytes × Obj)) : Except TclError (List (Bytes × Obj)) :=
  (exprGet tcl (ascii "id") (.str (ascii "-1")) req).bind fun id =>
    (exprGet tcl (ascii "op") (.str []) req).bind fun op => workerCall yy tcl ops req id op

/-- The reply `WorkerAnswer` sends: one that does not encode gives way to a
failure. -/
def sentReply (reply : List (Bytes × Obj)) : Except TclError (List (Bytes × Obj)) :=
  match jsonEncode yy tcl (replyWords reply) with
  | .ok _ => .ok reply
  | .error e =>
    (exprGet tcl (ascii "id") (.str (ascii "-1")) reply).map fun id =>
      failureReply id (.str (ascii "MACHTELD WORKER failed")) (unencodable e.message)

/-- The reply of a worker to a request. -/
def requestReply (req : List (Bytes × Obj)) : Except TclError (List (Bytes × Obj)) :=
  (caughtReply tcl (dispatchRequest yy tcl ops req)).bind (sentReply yy tcl)

end

/-- A reply: its id first, and under no other key. -/
structure ReplyShape (id : Obj) (reply : List (Bytes × Obj)) : Prop where
  head : ∃ rest, reply = (ascii "id", id) :: rest
  single : ascii "id" ∉ reply.tail.map Prod.fst

section

variable {yy : Yyjson} {tcl : Tcl} {ops : List (Bytes × Handler)}

theorem mem_workerServe {line : Bytes} {lines : List Bytes} (written : line ∈ workerServe yy tcl ops lines) :
    ∃ request ∈ lines, Serves yy tcl ops request line := by
  induction lines with
  | nil => cases written
  | cons request lines ih =>
    have later : line ∈ workerServe yy tcl ops lines → ∃ r ∈ request :: lines, Serves yy tcl ops r line :=
      fun there => by
      obtain ⟨r, member, serves⟩ := ih there
      exact ⟨r, List.mem_cons_of_mem _ member, serves⟩
    rw [workerServe] at written
    cases read : channelRead request with
    | none =>
      rw [read] at written
      cases written
    | some asked =>
      rw [read] at written
      cases asked with
      | nil => exact later written
      | cons a asked =>
        cases answered : workerAnswer yy tcl ops (a :: asked) with
        | error e =>
          simp only [answered] at written
          cases written
        | ok encoded =>
          simp only [answered] at written
          rcases List.mem_append.mp written with here | there
          · exact ⟨request, List.mem_cons_self, a :: asked, encoded, read, answered, Option.mem_toList.mp here⟩
          · exact later there

/-- Where every line has an answer, the lines out are the answers in order.
-/
theorem workerServe_answers {lines : List Bytes}
    (answered : ∀ request ∈ lines, channelRead request ≠ some [] ∧ ∃ line, Serves yy tcl ops request line) :
    List.Forall₂ (Serves yy tcl ops) lines (workerServe yy tcl ops lines) := by
  induction lines with
  | nil => exact .nil
  | cons request lines ih =>
    obtain ⟨⟨nonempty, line, asked, encoded, read, answer, sent⟩, later⟩ := List.forall_mem_cons.mp answered
    rw [workerServe, read]
    cases asked with
    | nil => exact absurd read nonempty
    | cons a asked =>
      simp only [answer, sent, Option.toList_some, List.singleton_append]
      exact .cons ⟨_, encoded, read, answer, sent⟩ (ih later)

theorem failureReply_shape (id code : Obj) (msg : Bytes) : ReplyShape id (failureReply id code msg) :=
  ⟨⟨_, rfl⟩, show ascii "id" ∉ [ascii "ok", ascii "code", ascii "msg"] by decide⟩

theorem successReply_shape (id res : Obj) : ReplyShape id (successReply id res) :=
  ⟨⟨_, rfl⟩, show ascii "id" ∉ [ascii "ok", ascii "result"] by decide⟩

theorem workerCall_shape {req reply : List (Bytes × Obj)} {id op : Obj}
    (called : workerCall yy tcl ops req id op = .ok reply) : ReplyShape id reply := by
  unfold workerCall at called
  cases found : dictGet (getString yy tcl op) ops with
  | none =>
    simp only [found] at called
    obtain rfl := Except.ok.inj called
    exact failureReply_shape _ _ _
  | some handler =>
    simp only [found] at called
    cases bound : bindParams req handler (handler.params.map Prod.fst) with
    | error aname =>
      simp only [bound] at called
      obtain rfl := Except.ok.inj called
      exact failureReply_shape _ _ _
    | ok argv =>
      simp only [bound] at called
      cases completed : handler.run argv with
      | ok res =>
        rw [completed] at called
        obtain rfl : successReply id res = reply := Except.ok.inj called
        exact successReply_shape _ _
      | raised code res errorcode nonzero coded =>
        rw [completed] at called
        cases errorcode with
        | none => cases called
        | some errorcode =>
          obtain rfl := Except.ok.inj called
          exact ⟨⟨_, rfl⟩, show ascii "id" ∉ [ascii "ok", ascii "code", ascii "msg"] by decide⟩

theorem ReplyShape.found {id : Obj} {reply : List (Bytes × Obj)} (shape : ReplyShape id reply) :
    dictGet (ascii "id") reply = some id := by
  obtain ⟨rest, rfl⟩ := shape.head
  exact if_pos rfl

/-- A decimal number or the id of a request that has none, which `expr`
leaves alone. -/
def Tcl.Counts (tcl : Tcl) : Prop := ∀ n, tcl.exprOf (.str (decimal n)) = .ok (.str (decimal n))

/-- The reply has the id of its request, or -1. -/
theorem requestReply_shape (tclSpec : tcl.Spec) (counts : tcl.Counts) {req reply : List (Bytes × Obj)} {k : Nat}
    (numbered : dictGet (ascii "id") req = some (.str (decimal k)))
    (replied : requestReply yy tcl ops req = .ok reply) :
    ∃ id, ReplyShape (.str id) reply ∧ (id = decimal k ∨ id = ascii "-1") := by
  obtain ⟨meant, caught, sent⟩ := Except.bind_ok.mp replied
  have first : ∃ id, ReplyShape (.str id) meant ∧ (id = decimal k ∨ id = ascii "-1") := by
    cases dispatched : dispatchRequest yy tcl ops req with
    | ok reply' =>
      rw [dispatched] at caught
      obtain rfl : reply' = meant := Except.ok.inj caught
      obtain ⟨id, own, later⟩ := Except.bind_ok.mp dispatched
      obtain ⟨op, -, called⟩ := Except.bind_ok.mp later
      rw [exprGet, numbered] at own
      obtain rfl := Except.ok.inj ((counts k).symm.trans own)
      exact ⟨_, workerCall_shape called, .inl rfl⟩
    | error e =>
      rw [dispatched] at caught
      obtain ⟨code, -, rfl⟩ := Except.map_ok.mp caught
      exact ⟨_, failureReply_shape _ _ _, .inr rfl⟩
  obtain ⟨id, shape, which⟩ := first
  unfold sentReply at sent
  cases encoded : jsonEncode yy tcl (replyWords meant) with
  | ok out =>
    rw [encoded] at sent
    obtain rfl := Except.ok.inj sent
    exact ⟨id, shape, which⟩
  | error e =>
    rw [encoded] at sent
    obtain ⟨id', own, rfl⟩ := Except.map_ok.mp sent
    have same : tcl.exprOf (.str id) = .ok (.str id) := by
      rcases which with rfl | rfl
      · exact counts k
      · exact tclSpec.expr_minus
    rw [exprGet, shape.found] at own
    obtain rfl := Except.ok.inj (same.symm.trans own)
    exact ⟨id, failureReply_shape _ _ _, which⟩

theorem encodeReply_sent {reply : List (Bytes × Obj)} {encoded : Bytes}
    (sent : encodeReply yy tcl reply = .ok encoded) :
    ∃ out, sentReply yy tcl reply = .ok out ∧ jsonEncode yy tcl (replyWords out) = .ok encoded := by
  unfold encodeReply at sent
  unfold sentReply
  cases plain : jsonEncode yy tcl (replyWords reply) with
  | ok encoded' =>
    rw [plain] at sent
    exact ⟨reply, rfl, plain.trans sent⟩
  | error e =>
    rw [plain] at sent
    obtain ⟨id, own, fallback⟩ := Except.bind_ok.mp sent
    exact ⟨_, by rw [own]; rfl, fallback⟩

/-- A line with a request of a pool in it is dispatched as that request. -/
theorem workerDispatch_request (spec : yy.Spec) {req : List (Bytes × Obj)} {line : Bytes}
    (decoded : jsonDecode yy tcl line = .ok (.dict req)) (value : ¬ IsOptionWord (tcl.stringOf (.dict req))) :
    workerDispatch yy tcl ops line = dispatchRequest yy tcl ops req := by
  obtain ⟨t, text, read⟩ := (jsonDecode_ok_iff spec tcl).mp decoded
  have fits := yyToTcl_fits text.sane.numbers text.strings read
  obtain ⟨encoded, emitted, -⟩ := (fits.emitted spec : ∃ out, jsonEmit yy true 0 (.dict req) = .ok out ∧ Text _ out)
  have brace := head_of_emitted fits.typedValues emitted
  have accepted := ((@jsonEncode_plain yy tcl (.dict req)).2 value).trans emitted
  simp only [workerDispatch, decoded, accepted, if_pos (brace.mpr ⟨req, rfl⟩), dictEntries, dispatchRequest]
  rfl

/-- The director decodes a reply to what was sent. -/
theorem readReply_sent (spec : yy.Spec) (tclSpec : tcl.Spec) {id : Obj} {sent : List (Bytes × Obj)}
    (shape : ReplyShape id sent)
    {encoded line text : Bytes} (emitted : jsonEncode yy tcl (replyWords sent) = .ok encoded)
    (written : channelWrite encoded = some line) (heard : channelRead line = some text) {rep : PoolReply}
    (read : readReply yy tcl text = some rep) : yyToTcl 0 (Obj.dict sent).tree = some (.dict rep.reply) := by
  obtain ⟨rest, rfl⟩ := shape.head
  rw [jsonEncode_reply tclSpec] at emitted
  have piece := jsonEmit_emitted spec emitted
  unfold readReply at read
  cases decoded : jsonDecode yy tcl text with
  | error e =>
    rw [decoded] at read
    cases read
  | ok v =>
    obtain ⟨t, spelled, value⟩ := (jsonDecode_ok_iff spec tcl).mp decoded
    obtain ⟨whole, rfl⟩ | ⟨-, nul⟩ := channelWrite_some written
    · have text' : Text (Obj.dict ((ascii "id", id) :: rest)).tree line := ⟨whole, piece.spelled⟩
      obtain rfl := Option.some.inj ((channelRead_plain whole text'.no_nul).symm.trans heard)
      obtain rfl := text_unique text' spelled
      obtain ⟨entries, -, rfl⟩ : ∃ entries, yyMembersToTcl 1 []
        (treeOfEntries ((ascii "id", id) :: rest)) = some entries ∧
          v = .dict entries := by
        simp only [Obj.tree, yyToTcl, Option.ite_none_left_eq_some, Option.map_eq_some_iff] at value
        obtain ⟨-, entries, inside, rfl⟩ := value
        exact ⟨entries, inside, rfl⟩
      rw [value, show rep.reply = entries from ?_]
      rw [decoded] at read
      simp only [dictEntries] at read
      split at read
      · cases read
      · split_ifs at read
        unfold replyOf at read
        split at read
        · obtain rfl := Option.some.inj read
          rfl
        · cases read
    · exact absurd spelled.1 (channelRead_nul nul heard)

/-- A leaf under the first key, and no other under it, decodes as it is. -/
theorem ReplyShape.decoded_id {id : Bytes} {sent entries : List (Bytes × Obj)} (shape : ReplyShape (.str id) sent)
    (decoded : yyToTcl 0 (Obj.dict sent).tree = some (.dict entries)) :
    dictGet (ascii "id") entries = some (.str id) := by
  obtain ⟨rest, rfl⟩ := shape.head
  have single : ascii "id" ∉ (treeOfEntries rest).map Prod.fst := by
    rw [treeOfEntries_keys]
    exact shape.single
  simp only [Obj.tree, treeOfEntries, yyToTcl, Option.ite_none_left_eq_some, Option.map_eq_some_iff, Obj.dict.injEq,
    exists_eq_right] at decoded
  obtain ⟨o, leaf, later⟩ := Option.bind_eq_some_iff.mp decoded.2
  obtain rfl := Option.some.inj ((yyToTcl_leaf 1 (by decide) id).symm.trans leaf)
  rw [yyMembersToTcl_get later single]
  exact if_pos rfl

/-- What a worker writes for a request of a pool is its reply to the
request. -/
theorem Deliverable.served (spec : yy.Spec) (tclSpec : tcl.Spec) (counts : tcl.Counts) {item : PoolItem}
    (deliverable : Deliverable yy tcl item) {request line text : Bytes} {rep : PoolReply}
    (sent : requestLine yy tcl item = some request) (serves : Serves yy tcl ops request line)
    (heard : channelRead line = some text) (read : readReply yy tcl text = some rep) :
    ∃ reply, requestReply yy tcl ops (canonEntries item.request) = .ok reply ∧
      yyToTcl 0 (Obj.dict reply).tree = some (.dict rep.reply) ∧
        (rep.id = .str (decimal item.id) ∨ rep.id = .str (ascii "-1")) := by
  obtain ⟨written, asked, out, -, received, decoded, value⟩ := deliverable
  obtain rfl := Option.some.inj (sent.symm.trans out)
  obtain ⟨asked', encoded, received', answered, put⟩ := serves
  obtain rfl := Option.some.inj (received.symm.trans received')
  have dispatched : workerDispatch yy tcl ops asked = dispatchRequest yy tcl ops (canonEntries item.request) :=
    workerDispatch_request spec decoded value
  obtain ⟨meant, caught, encodes⟩ := Except.bind_ok.mp answered
  obtain ⟨reply, goes, emitted⟩ := encodeReply_sent encodes
  have replied : requestReply yy tcl ops (canonEntries item.request) = .ok reply := by
    rw [requestReply, ← dispatched, caught]
    exact goes
  obtain ⟨id, shape, which⟩ := requestReply_shape tclSpec counts (dictGet_canonEntries item.numbered) replied
  have back := readReply_sent spec tclSpec shape emitted put heard read
  have own := Option.some.inj (rep.hasId.symm.trans (shape.decoded_id back))
  refine ⟨reply, replied, back, ?_⟩
  rcases which with rfl | rfl
  · exact .inl own
  · exact .inr own

end

end Machteld
