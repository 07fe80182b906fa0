import Machteld.Pmap.Outcome
import Machteld.Pool.Served

namespace Machteld

open Rfc8259

/-- A value that comes through plain JSON as it is, but for empty lists. -/
structure Transparent (v : Obj) : Prop where
  plain : v.Plain Utf8.WellFormed
  room : 1 + v.depth ≤ 512

section

variable (yy : Yyjson) (tcl : Tcl) (ops : List (Bytes × Handler))

/-- The handler of a request returns a value. -/
def Returns (req : List (Bytes × Obj)) (v : Obj) : Prop :=
  ∃ op handler argv, exprGet tcl (ascii "op") (.str []) req = .ok op ∧
    dictGet (getString yy tcl op) ops = some handler ∧
    bindParams req handler (handler.params.map Prod.fst) = .ok argv ∧ handler.run argv = .ok v

/-- The workers stay alive, and a write to them fails only for a request the
channel refuses. -/
def HarmlessStep (w : Wire) : WireEvent → Prop
  | .answer _ _ => True
  | e => HealthyStep yy tcl w e

def HarmlessRun : Wire → List WireEvent → Prop
  | _, [] => True
  | w, e :: events => HarmlessStep yy tcl w e ∧ ∀ w', wireStep yy tcl w e = some w' → HarmlessRun w' events

end

section

variable {yy : Yyjson} {tcl : Tcl} {ops : List (Bytes × Handler)} {pend : List PoolItem}

theorem Transparent.carried {v : Obj} (clear : Transparent v) : Carried [(ascii "result", v)] :=
  ⟨by simpa only [depthOfEntries, Nat.max_zero] using clear.room, by
    rw [typedOfEntries, clear.plain.typedValues]
    rfl⟩

theorem decimal_replyId (counts : tcl.Counts) (k : Nat) : ReplyId tcl (.str (decimal k)) :=
  ⟨Nat.le_of_ble_eq_true rfl, wellFormed_of_ascii (decimal_ascii k), trivial, counts k⟩

/-- The worker's reply to a request whose handler returns a value. -/
theorem Returns.replied (spec : yy.Spec) (tclSpec : tcl.Spec) (counts : tcl.Counts)
    {req : List (Bytes × Obj)} {k : Nat}
    {v : Obj} (numbered : dictGet (ascii "id") req = some (.str (decimal k))) (returns : Returns yy tcl ops req v)
    (clear : Transparent v) : requestReply yy tcl ops req = .ok (successReply (.str (decimal k)) v) ∧
      ∃ encoded, jsonEncode yy tcl (replyWords (successReply (.str (decimal k)) v)) = .ok encoded := by
  obtain ⟨op, handler, argv, named, found, bound, ran⟩ := returns
  have ready := decimal_replyId counts k
  have dispatched : dispatchRequest yy tcl ops req = .ok (successReply (.str (decimal k)) v) := by
    have own : exprGet tcl (ascii "id") (.str (ascii "-1")) req = .ok (.str (decimal k)) := by
      rw [exprGet, numbered]
      exact counts k
    rw [dispatchRequest, own]
    simp only [Except.bind, named, workerCall, found, bound, ran, workerOutcome]
  have able := (ready.encodable_iff true [(ascii "result", v)]).mpr clear.carried
  obtain ⟨encoded, emitted⟩ := (jsonEmit_ok_iff spec _ 0).mpr able
  have plain : jsonEncode yy tcl (replyWords (successReply (.str (decimal k)) v)) = .ok encoded :=
    (jsonEncode_reply tclSpec _ _).trans emitted
  refine ⟨?_, encoded, plain⟩
  rw [requestReply, dispatched]
  simp only [caughtReply, Except.bind, sentReply, plain]

/-- A worker whose operation returns a value answers with that value under
the item's number. -/
theorem Returns.workerAnswer (spec : yy.Spec) (tclSpec : tcl.Spec) (counts : tcl.Counts) {req : List (Bytes × Obj)}
    {line encoded : Bytes} (decoded : jsonDecode yy tcl line = .ok (.dict req))
    (value : ¬ IsOptionWord (tcl.stringOf (.dict req))) {k : Nat} {v : Obj}
    (numbered : dictGet (ascii "id") req = some (.str (decimal k))) (returns : Returns yy tcl ops req v)
    (clear : Transparent v)
    (plain : jsonEncode yy tcl (replyWords (successReply (.str (decimal k)) v)) = .ok encoded) :
    workerAnswer yy tcl ops line = .ok encoded := by
  obtain ⟨meant, caught, goes⟩ := Except.bind_ok.mp (returns.replied spec tclSpec counts numbered clear).1
  rw [Machteld.workerAnswer, workerDispatch_request spec decoded value, caught]
  change encodeReply yy tcl meant = .ok encoded
  unfold sentReply at goes
  unfold encodeReply
  cases made : jsonEncode yy tcl (replyWords meant) with
  | ok made' =>
    rw [made] at goes
    obtain rfl := Except.ok.inj goes
    exact made.symm.trans plain
  | error e =>
    rw [made] at goes
    obtain ⟨id, own, same⟩ := Except.map_ok.mp goes
    rw [own]
    simp only [Except.bind]
    rw [same, plain]

/-- What the director makes of such a reply. -/
theorem successReply_decoded {v : Obj} (clear : Transparent v) (k : Nat) :
    (Obj.dict (successReply (.str (decimal k)) v)).Plain Utf8.WellFormed ∧
      yyToTcl 0 (Obj.dict (successReply (.str (decimal k)) v)).tree =
        some (.dict (successReply (.str (decimal k)) v.canon)) := by
  have plain : (Obj.dict (successReply (.str (decimal k)) v)).Plain Utf8.WellFormed :=
    ⟨show [ascii "id", ascii "ok", ascii "result"].Nodup by decide, show Utf8.WellFormed (ascii "id") by decide,
      wellFormed_of_ascii (decimal_ascii k), show Utf8.WellFormed (ascii "ok") by decide,
      show Utf8.WellFormed (ascii "1") by
        decide, show Utf8.WellFormed (ascii "result") by decide, clear.plain, trivial⟩
  have room : 0 + (Obj.dict (successReply (.str (decimal k)) v)).depth ≤ 512 := by
    have inside := clear.room
    simp only [successReply, Obj.depth, depthOfEntries]
    omega
  exact ⟨plain, plain.decoded room⟩

/-- The reply of a handler that returned a value, at the director. -/
def returnedReply (k : Nat) (v : Obj) : PoolReply :=
  ⟨successReply (.str (decimal k)) v, .str (decimal k), .str (ascii "1"), rfl, rfl⟩

/-- The answer is read back as a reply with the value it carries. -/
theorem returnedReply_read (spec : yy.Spec) (tclSpec : tcl.Spec) {k : Nat} {v : Obj} {t : Json} {text : Bytes}
    (spelled : Text t text) (decoded : yyToTcl 0 t = some (.dict (successReply (.str (decimal k)) v))) :
    readReply yy tcl text = some (returnedReply k v) := by
  have read := (jsonDecode_ok_iff spec tcl).mpr ⟨t, spelled, decoded⟩
  have fits := yyToTcl_fits spelled.sane.numbers spelled.strings decoded
  obtain ⟨out, emitted, -⟩ := (fits.emitted spec : ∃ out, jsonEmit yy true 0 _ = .ok out ∧ Text _ out)
  have brace := (head_of_emitted fits.typedValues emitted).mpr ⟨_, rfl⟩
  have value : ¬ IsOptionWord (getString yy tcl (.dict (successReply (.str (decimal k)) v))) :=
    tclSpec.id_not_option _ _
  simp only [readReply, read, (jsonEncode_plain _).2 value, emitted, if_pos brace, dictEntries]
  rfl

/-- A worker answers such a request with one good line. -/
theorem Returns.answered (spec : yy.Spec) (tclSpec : tcl.Spec) (counts : tcl.Counts) {item : PoolItem}
    (deliverable : Deliverable yy tcl item) {request : Bytes}
    (sent : requestLine yy tcl item = some request) {v : Obj}
    (returns : Returns yy tcl ops (canonEntries item.request) v) (clear : Transparent v) :
    channelRead request ≠ some [] ∧ ∃ line, Serves yy tcl ops request line ∧
      ∀ out, Serves yy tcl ops request out → GoodReply yy tcl request out := by
  obtain ⟨written, asked, out, -, received, decoded, value⟩ := deliverable
  obtain rfl := Option.some.inj (sent.symm.trans out)
  have numbered := dictGet_canonEntries item.numbered
  obtain ⟨replied, encoded, plain⟩ := returns.replied spec tclSpec counts numbered clear
  obtain ⟨whole, back⟩ := successReply_decoded clear item.id
  have emitted : jsonEmit yy true 0 (.dict (successReply (.str (decimal item.id)) v)) = .ok encoded :=
    (jsonEncode_reply tclSpec _ _).symm.trans plain
  have room : 0 + (Obj.dict (successReply (.str (decimal item.id)) v)).depth ≤ 512 := by
    have able := (jsonEmit_ok_iff spec _ 0).mp ⟨encoded, emitted⟩
    exact able.room
  obtain ⟨encoded', emitted', spelled⟩ := (whole.emitted spec (fun _ clean => clean) room :
    ∃ out, jsonEmit yy true 0 _ = .ok out ∧ Text _ out)
  obtain rfl := Except.ok.inj (emitted.symm.trans emitted')
  have answer := returns.workerAnswer spec tclSpec counts decoded value numbered clear plain
  have put := channelWrite_wellFormed spelled.1
  refine ⟨fun empty => ?_, encoded, ⟨asked, encoded, received, answer, put⟩, ?_⟩
  · obtain rfl := Option.some.inj (received.symm.trans empty)
    obtain ⟨t, text, -⟩ := (jsonDecode_ok_iff spec tcl).mp decoded
    have nothing := readText_complete jsonIsNumberLiteral_iff text
    cases nothing
  · rintro out ⟨asked', encoded', received', answer', put'⟩
    obtain rfl := Option.some.inj (received.symm.trans received')
    obtain rfl := Except.ok.inj (answer.symm.trans answer')
    obtain rfl := Option.some.inj (put.symm.trans put')
    refine ⟨asked, encoded, returnedReply item.id v.canon, received, channelRead_plain spelled.1 spelled.no_nul,
      returnedReply_read spec tclSpec spelled back, ?_⟩
    simp only [requestId, decoded, numbered, Option.getD_some, returnedReply]

/-- Where something is made of every item, the results stand at their items'
places. -/
theorem filterMap_all {α β : Type} {f : α → Option β} {l : List α} (all : ∀ a ∈ l, (f a).isSome)
    {n : Nat} {a : α} {b : β}
    (there : l[n]? = some a) (made : f a = some b) : (l.filterMap f)[n]? = some b := by
  induction l generalizing n with
  | nil => cases there
  | cons x l ih =>
    obtain ⟨here, later⟩ := List.forall_mem_cons.mp all
    obtain ⟨y, first⟩ := Option.isSome_iff_exists.mp here
    rw [List.filterMap_cons_some first]
    cases n with
    | zero =>
      obtain rfl := Option.some.inj there
      exact first.symm.trans made
    | succ n => exact ih later there

theorem forall₂_getElem? {α β : Type} {R : α → β → Prop} {l : List α} {u : List β}
    (both : List.Forall₂ R l u) {n : Nat}
    {a : α} {b : β} (left : l[n]? = some a) (right : u[n]? = some b) : R a b := by
  induction both generalizing n with
  | nil => cases left
  | cons here _ ih =>
    cases n with
    | zero =>
      obtain rfl := Option.some.inj left
      obtain rfl := Option.some.inj right
      exact here
    | succ n => exact ih left right

/-- Two relations over one list, item by item, give one over what they
relate it to. -/
theorem forall₂_both {α β γ : Type} {R : α → β → Prop} {S : α → γ → Prop} {T : β → γ → Prop}
    {l : List α} {u : List β}
    {v : List γ} (first : List.Forall₂ R l u) (second : List.Forall₂ S l v)
    (both : ∀ a b c, R a b → S a c → T b c) :
    List.Forall₂ T u v := by
  induction first generalizing v with
  | nil =>
    cases second
    exact .nil
  | cons here _ ih =>
    cases second with
    | cons there later => exact .cons (both _ _ _ here there) (ih later)

/-- All that a worker writes for such a request. -/
theorem Returns.workerServe (spec : yy.Spec) (tclSpec : tcl.Spec) (counts : tcl.Counts) {item : PoolItem}
    (deliverable : Deliverable yy tcl item) {request : Bytes}
    (sent : requestLine yy tcl item = some request) {v : Obj}
    (returns : Returns yy tcl ops (canonEntries item.request) v) (clear : Transparent v) {reply : Bytes}
    (plain : jsonEncode yy tcl (replyWords (successReply (.str (decimal item.id)) v)) = .ok reply)
    (whole : Utf8.WellFormed reply) : workerServe yy tcl ops [request] = [reply] := by
  obtain ⟨nonempty, line, serves, -⟩ := returns.answered spec tclSpec counts deliverable sent clear
  obtain ⟨written, asked, out, -, received, decoded, value⟩ := deliverable
  obtain rfl := Option.some.inj (sent.symm.trans out)
  have answer := returns.workerAnswer spec tclSpec counts decoded value
    (dictGet_canonEntries item.numbered) clear plain
  have served := workerServe_answers (List.forall_mem_singleton.mpr ⟨nonempty, line, serves⟩)
  generalize Machteld.workerServe yy tcl ops [request] = lines at served
  cases served with
  | cons here rest =>
    cases rest
    obtain ⟨asked', encoded, received', answer', put⟩ := here
    obtain rfl := Option.some.inj (received.symm.trans received')
    obtain rfl := Except.ok.inj (answer.symm.trans answer')
    obtain rfl := Option.some.inj ((channelWrite_wellFormed whole).symm.trans put)
    rfl

/-- What the director reads of such a reply. -/
theorem Transparent.read (spec : yy.Spec) (tclSpec : tcl.Spec) {v : Obj} (clear : Transparent v)
    {k : Nat} {line : Bytes}
    (emitted : jsonEmit yy true 0 (.dict (successReply (.str (decimal k)) v)) = .ok line) :
    readReply yy tcl line = some (returnedReply k v.canon) := by
  obtain ⟨plain, decoded⟩ := successReply_decoded clear k
  have room : 0 + (Obj.dict (successReply (.str (decimal k)) v)).depth ≤ 512 :=
    ((jsonEmit_ok_iff spec _ 0).mp ⟨line, emitted⟩).room
  obtain ⟨out, emitted', spelled⟩ := (plain.emitted spec (fun _ clean => clean) room :
    ∃ out, jsonEmit yy true 0 _ = .ok out ∧ Text _ out)
  obtain rfl := Except.ok.inj (emitted.symm.trans emitted')
  exact returnedReply_read spec tclSpec spelled decoded

/-- Workers whose handlers all return, and that nothing befalls, behave. -/
theorem Wire.Served.healthy (spec : yy.Spec) (tclSpec : tcl.Spec) (counts : tcl.Counts)
    (deliverable : ∀ item ∈ pend, Deliverable yy tcl item)
    (returns : ∀ item ∈ pend, ∃ v, Returns yy tcl ops (canonEntries item.request) v ∧ Transparent v) {w : Wire}
    (served : w.Served yy tcl ops pend) {e : WireEvent} (serves : ServedStep yy tcl ops w e)
    (harmless : HarmlessStep yy tcl w e) : HealthyStep yy tcl w e := by
  cases e with
  | director e => exact harmless
  | receive spawn failures => exact harmless
  | write c line => exact absurd serves not_false
  | answer c line =>
    intro item request next sent
    have among : ∀ item ∈ sentTo w.pool c, item ∈ pend := fun item member => by
      obtain ⟨e, inside, rfl⟩ := List.mem_map.mp member
      exact served.among.sent e (List.mem_of_mem_filter inside)
    have written : ∀ item ∈ sentTo w.pool c, (requestLine yy tcl item).isSome := fun item member =>
      (deliverable item (among item member)).writable
    have all : ∀ request ∈ (sentTo w.pool c).filterMap (requestLine yy tcl),
        channelRead request ≠ some [] ∧ ∃ line, Serves yy tcl ops request line := by
      intro request member
      obtain ⟨item, inside, made⟩ := List.mem_filterMap.mp member
      obtain ⟨v, returned, clear⟩ := returns item (among item inside)
      obtain ⟨nonempty, line, answer, -⟩ :=
        returned.answered spec tclSpec counts (deliverable item (among item inside)) made clear
      exact ⟨nonempty, line, answer⟩
    have member := List.mem_of_getElem? next
    obtain ⟨v, returned, clear⟩ := returns item (among item member)
    obtain ⟨-, -, -, good⟩ :=
      returned.answered spec tclSpec counts (deliverable item (among item member)) sent clear
    exact good line (forall₂_getElem? (workerServe_answers all) (filterMap_all written next sent) serves)

/-- Workers that serve returning operations answer in time and with lines
that are read, so that a harmless run of them is a healthy one. -/
theorem healthyRun_of_served (spec : yy.Spec) (tclSpec : tcl.Spec) (counts : tcl.Counts)
    (deliverable : ∀ item ∈ pend, Deliverable yy tcl item)
    (returns : ∀ item ∈ pend, ∃ v, Returns yy tcl ops (canonEntries item.request) v ∧ Transparent v)
    {events : List WireEvent} {w : Wire} (served : w.Served yy tcl ops pend)
    (only : ∀ e ∈ events, SubmitsOnly yy tcl pend e)
    (serves : ServedRun yy tcl ops w events) (harmless : HarmlessRun yy tcl w events) :
    HealthyRun yy tcl w events := by
  induction events generalizing w with
  | nil => trivial
  | cons e events ih =>
    obtain ⟨here, later⟩ := List.forall_mem_cons.mp only
    exact ⟨served.healthy spec tclSpec counts deliverable returns serves.1 harmless.1, fun w' stepped =>
      ih (served.step here serves.1 stepped) later (serves.2 w' stepped) (harmless.2 w' stepped)⟩

/-- `pmap` takes the results of such replies. -/
theorem pmapResults_returned {tclOps : TclOps} (true' : tclOps.notOf (.str (ascii "1")) = .ok false)
    {values : List Obj} {replies : List PoolReply}
    (returned : List.Forall₂ (fun v rep => rep.ok = .str (ascii "1") ∧ dictGet (ascii "result") rep.reply =
      some (Obj.canon v))
      values replies) : pmapResults yy tcl tclOps replies = values.mapM fun v => tcl.exprOf v.canon := by
  induction returned with
  | nil => rfl
  | cons here _ ih =>
    obtain ⟨ok, result⟩ := here
    rw [List.mapM_cons, ← ih, pmapResults, ok, true']
    simp only [exprGet, result]
    rfl

/-- The reply to an item whose operation returns is its success with the
value, in the form in which JSON brings it back. -/
theorem ItemServed.returned (spec : yy.Spec) (tclSpec : tcl.Spec) (counts : tcl.Counts) {item : PoolItem}
    {rep : PoolReply}
    (served : ItemServed yy tcl ops item rep) {v : Obj} (returns : Returns yy tcl ops (canonEntries item.request) v)
    (clear : Transparent v) : rep.ok = .str (ascii "1") ∧ dictGet (ascii "result") rep.reply = some v.canon := by
  obtain ⟨reply, replied, decoded⟩ := served
  have numbered := dictGet_canonEntries item.numbered
  obtain rfl := Except.ok.inj ((returns.replied spec tclSpec counts numbered clear).1.symm.trans replied)
  have same := Option.some.inj ((successReply_decoded clear item.id).2.symm.trans decoded)
  have entries : successReply (.str (decimal item.id)) v.canon = rep.reply := Obj.dict.inj same
  have ok := rep.hasOk
  rw [← entries] at ok ⊢
  exact ⟨(Option.some.inj ok).symm, rfl⟩

/-- Behind a batch of clean items, whatever workers died on the way, the
pool hands out in the order of submission for each item the reply its
handler gives, or that it was given up after deaths. -/
theorem pool_serves (spec : yy.Spec) (tclSpec : tcl.Spec) (counts : tcl.Counts) {items : Obj} {its : List Obj}
    (read : listElements tcl items = .ok its) (lawful : ∀ it ∈ its, it.Lawful)
    (accepted : poolItems yy tcl 0 its = .ok pend)
    (clean : ∀ it ∈ its, ∀ entries, dictEntries tcl it = .ok entries → ItemClean entries) {maxtries : Nat}
    {positive : 1 ≤ maxtries} {children : Child} {spawns : List (Option Bytes)} {s₀ : Pool}
    (created : poolCreate maxtries positive children spawns = .ok s₀) {events : List WireEvent} {w : Wire}
    (only : ∀ items' failures, .director (.submit items' failures) ∈ events → items' = items)
    (serves : ServedRun yy tcl ops (newWire s₀) events) (ran : wireRun yy tcl (newWire s₀) events = some w)
    (once : w.pool.submittedOnce = true) (done : w.pool.done = true) (unstuck : w.pool.fatal = []) :
    ∃ replies, (∀ woken, poolWait yy tcl w.pool woken = .ok replies) ∧
      List.Forall₂ (fun item rep => getString yy tcl rep.id = decimal item.id ∧
        ((0 < w.pool.dead ∧ Poisoned item.id rep) ∨ ItemServed yy tcl ops item rep)) pend replies := by
  refine ⟨poolReplies yy tcl w.pool, fun woken => ?_, ?_⟩
  · simp only [poolWait, unstuck, ne_eq, not_true, if_false, done, if_true]
  · exact ((newWire_served created).run (submitsOnly_batch read accepted only) serves ran).replies
      spec tclSpec counts
      ((poolItems_deliverable_iff spec tclSpec lawful accepted).mpr clean)
        (poolItems_numbered accepted) once done unstuck

end

/-- Two operations that return a word. -/
def goOps : List (Bytes × Handler) :=
  [(ascii "go", ⟨[], fun _ => .ok (.str (ascii "gone"))⟩), (ascii "come", ⟨[], fun _ => .ok (.str (ascii "came"))⟩)]

def pairItems : List Obj := [loneItem, .dict [(ascii "op", .str (ascii "come"))]]

def comeItem : PoolItem := numberItem 1 [(ascii "op", .str (ascii "come"))]

def goLine : Bytes := ascii "\x7b\"op\":\"go\",\"id\":0\x7d"

def comeLine : Bytes := ascii "\x7b\"op\":\"come\",\"id\":1\x7d"

def goneLine : Bytes := ascii "\x7b\"id\":0,\"ok\":1,\"result\":\"gone\"\x7d"

def cameLine : Bytes := ascii "\x7b\"id\":1,\"ok\":1,\"result\":\"came\"\x7d"

/-- The second of two workers answers first, and the first one while the
director reads. -/
def pairEvents : List WireEvent :=
  [.director (.submit (.list pairItems) fun _ => []), .answer 1 cameLine, .director (.readable 1 true none []),
    .receive none [], .answer 0 goneLine, .director (.gets (.dry false) none []),
      .director (.readable 0 true none []),
    .receive none [], .director (.gets (.dry false) none [])]

def pairPool : Pool := { lonePool with width := 2, workers := [0, 1], children := 2 }

theorem pairPool_created : poolCreate 3 (by decide) 0 [none, none] = .ok pairPool := rfl

def pairFed : Pool :=
  { pairPool with
    inflight := [(0, goItem 0), (1, comeItem)], nextid := 2, submitted := 2, submittedOnce := true, done := false,
    sent := [(0, goItem 0), (1, comeItem)] }

/-- The second reply is there. -/
def pairHalf : Pool :=
  { pairFed with inflight := [(0, goItem 0)], results := [returnedReply 1 (.str (ascii "came"))] }

def pairDone : Pool :=
  { pairHalf with
    inflight := [], done := true,
    results := [returnedReply 1 (.str (ascii "came")), returnedReply 0 (.str (ascii "gone"))] }

theorem wordTcl_counts : wordTcl.Counts := fun _ => rfl

theorem gone_clear : Transparent (.str (ascii "gone")) :=
  ⟨show Utf8.WellFormed (ascii "gone") by decide, Nat.le_of_ble_eq_true rfl⟩

theorem came_clear : Transparent (.str (ascii "came")) :=
  ⟨show Utf8.WellFormed (ascii "came") by decide, Nat.le_of_ble_eq_true rfl⟩

theorem pairItems_clean : ∀ it ∈ pairItems, ∀ entries, dictEntries wordTcl it = .ok entries →
    ItemClean entries := by
  have clean : ∀ {word : Bytes}, Utf8.WellFormed word → ItemClean [(ascii "op", .str word)] := fun whole =>
    List.forall_mem_cons.mpr ⟨show Utf8.WellFormed (ascii "op") by decide, List.forall_mem_singleton.mpr whole⟩
  refine List.forall_mem_cons.mpr ⟨?_, List.forall_mem_singleton.mpr ?_⟩
  · intro entries read
    obtain rfl := Except.ok.inj read
    exact clean (show Utf8.WellFormed (ascii "go") by decide)
  · intro entries read
    obtain rfl := Except.ok.inj read
    exact clean (show Utf8.WellFormed (ascii "come") by decide)

theorem pairItems_lawful : ∀ it ∈ pairItems, it.Lawful :=
  List.forall_mem_cons.mpr ⟨⟨List.nodup_singleton _, trivial, trivial⟩,
    List.forall_mem_singleton.mpr ⟨List.nodup_singleton _, trivial, trivial⟩⟩

theorem pairItems_accepted : poolItems referenceYyjson wordTcl 0 pairItems = .ok [goItem 0, comeItem] := rfl

theorem go_returns : Returns referenceYyjson wordTcl goOps (canonEntries (goItem 0).request)
    (.str (ascii "gone")) :=
  ⟨_, _, _, rfl, rfl, rfl, rfl⟩

theorem come_returns : Returns referenceYyjson wordTcl goOps (canonEntries comeItem.request)
    (.str (ascii "came")) :=
  ⟨_, _, _, rfl, rfl, rfl, rfl⟩

theorem pairItems_deliverable : ∀ item ∈ [goItem 0, comeItem], Deliverable referenceYyjson wordTcl item :=
  (poolItems_deliverable_iff referenceYyjson_spec wordTcl_spec pairItems_lawful
    pairItems_accepted).mpr pairItems_clean

theorem goLine_served : workerServe referenceYyjson wordTcl goOps [goLine] = [goneLine] :=
  go_returns.workerServe referenceYyjson_spec wordTcl_spec wordTcl_counts
    (pairItems_deliverable _ (List.mem_cons_self ..))
    rfl gone_clear rfl (by decide)

theorem comeLine_served : workerServe referenceYyjson wordTcl goOps [comeLine] = [cameLine] :=
  come_returns.workerServe referenceYyjson_spec wordTcl_spec wordTcl_counts
    (pairItems_deliverable _ (List.mem_cons_of_mem _ (List.mem_singleton_self _))) rfl came_clear rfl (by decide)

/-- A run of workers that serve and that nothing befalls. -/
structure PairRun (w : Wire) (events : List WireEvent) (v : Wire) : Prop where
  ran : wireRun referenceYyjson wordTcl w events = some v
  served : ServedRun referenceYyjson wordTcl goOps w events
  harmless : HarmlessRun referenceYyjson wordTcl w events

theorem PairRun.cons {w w' v : Wire} {e : WireEvent} {events : List WireEvent}
    (stepped : wireStep referenceYyjson wordTcl w e = some w')
    (serves : ServedStep referenceYyjson wordTcl goOps w e)
    (harmless : HarmlessStep referenceYyjson wordTcl w e) (rest : PairRun w' events v) :
    PairRun w (e :: events) v where
  ran := Option.bind_eq_some_iff.mpr ⟨w', stepped, rest.ran⟩
  served := ⟨serves, fun _ again => Option.some.inj (stepped.symm.trans again) ▸ rest.served⟩
  harmless := ⟨harmless, fun _ again => Option.some.inj (stepped.symm.trans again) ▸ rest.harmless⟩

/-- The pipes when the director has taken the reply of a worker. -/
def Wire.took (w : Wire) (s : Pool) (c : Child) : Wire :=
  { w with pool := s, stdout := Function.update w.stdout c [] }

theorem pair_ran : ∃ w, PairRun (newWire pairPool) pairEvents w ∧ w.pool = pairDone := by
  have came : channelRead cameLine = some cameLine := channelRead_plain (by decide) (by decide)
  have gone : channelRead goneLine = some goneLine := channelRead_plain (by decide) (by decide)
  have readCame : readReply referenceYyjson wordTcl cameLine = some (returnedReply 1 (.str (ascii "came"))) :=
    came_clear.read referenceYyjson_spec wordTcl_spec rfl
  have readGone : readReply referenceYyjson wordTcl goneLine = some (returnedReply 0 (.str (ascii "gone"))) :=
    gone_clear.read referenceYyjson_spec wordTcl_spec rfl
  obtain ⟨w₁, shape₁⟩ : ∃ w, w = ({ newWire pairPool with pool := pairFed } : Wire) := ⟨_, rfl⟩
  obtain ⟨w₂, shape₂⟩ : ∃ w, w = ({ w₁ with answered := Function.update w₁.answered 1 1 } : Wire).put 1 cameLine :=
    ⟨_, rfl⟩
  obtain ⟨w₃, shape₃⟩ : ∃ w, w = ({ w₂ with pool := { pairFed with control := some 1 } } : Wire) := ⟨_, rfl⟩
  obtain ⟨w₄, shape₄⟩ : ∃ w, w = w₃.took { pairHalf with control := some 1 } 1 := ⟨_, rfl⟩
  obtain ⟨w₅, shape₅⟩ : ∃ w, w = ({ w₄ with answered := Function.update w₄.answered 0 1 } : Wire).put 0 goneLine :=
    ⟨_, rfl⟩
  obtain ⟨w₆, shape₆⟩ : ∃ w, w = ({ w₅ with pool := pairHalf } : Wire) := ⟨_, rfl⟩
  obtain ⟨w₇, shape₇⟩ : ∃ w, w = ({ w₆ with pool := { pairHalf with control := some 0 } } : Wire) := ⟨_, rfl⟩
  obtain ⟨w₈, shape₈⟩ : ∃ w, w = w₇.took { pairDone with control := some 0 } 0 := ⟨_, rfl⟩
  have submit : wireStep referenceYyjson wordTcl (newWire pairPool)
    (.director (.submit (.list pairItems) fun _ => [])) = some w₁ := by
    rw [shape₁]
    rfl
  have second : wireStep referenceYyjson wordTcl w₁ (.answer 1 cameLine) = some w₂ := by
    rw [shape₂, shape₁]
    rfl
  have turns : wireStep referenceYyjson wordTcl w₂ (.director (.readable 1 true none [])) = some w₃ := by
    rw [shape₃, shape₂, shape₁]
    rfl
  have hears : wireStep referenceYyjson wordTcl w₃ (.receive none []) = some w₄ := by
    have next : w₃.stdout 1 = [cameLine] := by
      rw [shape₃, shape₂, shape₁]
      rfl
    have held : dictGet 1 w₃.pool.inflight = some comeItem := by
      rw [shape₃]
      rfl
    refine (wireStep_receive (by rw [shape₃]) next came (List.cons_ne_nil _ _) readCame held rfl none []).trans ?_
    rw [shape₄, shape₃]
    rfl
  have first : wireStep referenceYyjson wordTcl w₄ (.answer 0 goneLine) = some w₅ := by
    rw [shape₅, shape₄, shape₃, shape₂, shape₁]
    rfl
  have leaves : wireStep referenceYyjson wordTcl w₅ (.director (.gets (.dry false) none [])) = some w₆ := by
    rw [shape₆, shape₅, shape₄]
    rfl
  have returns : wireStep referenceYyjson wordTcl w₆ (.director (.readable 0 true none [])) = some w₇ := by
    rw [shape₇, shape₆]
    rfl
  have hears' : wireStep referenceYyjson wordTcl w₇ (.receive none []) = some w₈ := by
    have next : w₇.stdout 0 = [goneLine] := by
      rw [shape₇, shape₆, shape₅, shape₄, shape₃, shape₂, shape₁]
      rfl
    have held : dictGet 0 w₇.pool.inflight = some (goItem 0) := by
      rw [shape₇]
      rfl
    refine (wireStep_receive (by rw [shape₇]) next gone (List.cons_ne_nil _ _) readGone held rfl none []).trans ?_
    rw [shape₈, shape₇]
    rfl
  have ends : wireStep referenceYyjson wordTcl w₈ (.director (.gets (.dry false) none [])) =
    some { w₈ with pool := pairDone } := by
    rw [shape₈]
    rfl
  have servedCame : ServedStep referenceYyjson wordTcl goOps w₁ (.answer 1 cameLine) := by
    rw [shape₁]
    exact congrArg (·[0]?) comeLine_served
  have servedGone : ServedStep referenceYyjson wordTcl goOps w₄ (.answer 0 goneLine) := by
    rw [shape₄, shape₃, shape₂, shape₁]
    exact congrArg (·[0]?) goLine_served
  have rest : PairRun w₄ (pairEvents.drop 4) { w₈ with pool := pairDone } :=
    .cons first servedGone trivial (.cons leaves trivial rfl (.cons returns trivial rfl
      (.cons hears' trivial (fun _ => rfl) (.cons ends trivial rfl ⟨rfl, trivial, trivial⟩))))
  have run : PairRun (newWire pairPool) pairEvents { w₈ with pool := pairDone } :=
    .cons submit trivial (fun _ _ => rfl) (.cons second servedCame trivial (.cons turns trivial rfl
      (.cons hears trivial (fun _ => rfl) rest)))
  exact ⟨_, run, rfl⟩

theorem pair_only : ∀ items' failures, WireEvent.director (.submit items' failures) ∈ pairEvents →
    items' = .list pairItems := by
  intro items' failures member
  simp only [pairEvents, List.mem_cons, List.not_mem_nil, or_false, reduceCtorEq, WireEvent.director.injEq,
    PoolEvent.submit.injEq] at member
  exact member.1

theorem pool_serves_gone : ∃ w replies, PairRun (newWire pairPool) pairEvents w ∧
    (∀ woken, poolWait referenceYyjson wordTcl w.pool woken = .ok replies) ∧
    List.Forall₂ (fun item rep => getString referenceYyjson wordTcl rep.id = decimal item.id ∧
      ((0 < w.pool.dead ∧ Poisoned item.id rep) ∨ ItemServed referenceYyjson wordTcl goOps item rep))
      [goItem 0, comeItem] replies := by
  obtain ⟨w, run, shape⟩ := pair_ran
  obtain ⟨replies, waited, each⟩ :=
    pool_serves referenceYyjson_spec wordTcl_spec wordTcl_counts rfl pairItems_lawful
    pairItems_accepted pairItems_clean pairPool_created pair_only run.served run.ran (by rw [shape]; rfl)
      (by rw [shape]; rfl)
    (by rw [shape]; rfl)
  exact ⟨w, replies, run, waited, each⟩

section

variable {yy : Yyjson} {tcl : Tcl} {ops : List (Bytes × Handler)} {pend : List PoolItem}

/-- Where the handler of every item returns a value and nothing befalls the
workers, none dies, in any run. A pool of any width then does what calling
the handlers one after another does: once the batch is done, `PoolWait`
returns the replies, and `pmap` the values in the order of the items. -/
theorem pmap_maps (spec : yy.Spec) (tclSpec : tcl.Spec) (counts : tcl.Counts) {tclOps : TclOps}
    (true' : tclOps.notOf (.str (ascii "1")) = .ok false) {items : Obj} {its : List Obj}
    (read : listElements tcl items = .ok its) (lawful : ∀ it ∈ its, it.Lawful)
    (accepted : poolItems yy tcl 0 its = .ok pend)
    (clean : ∀ it ∈ its, ∀ entries, dictEntries tcl it = .ok entries → ItemClean entries) {values : List Obj}
    (returns : List.Forall₂ (fun item v => Returns yy tcl ops (canonEntries item.request) v ∧
      Transparent v) pend values)
    {maxtries : Nat} {positive : 1 ≤ maxtries} {children : Child} {spawns : List (Option Bytes)} {s₀ : Pool}
    (created : poolCreate maxtries positive children spawns = .ok s₀) {events : List WireEvent} {w : Wire}
    (only : ∀ items' failures, .director (.submit items' failures) ∈ events → items' = items)
    (serves : ServedRun yy tcl ops (newWire s₀) events) (harmless : HarmlessRun yy tcl (newWire s₀) events)
    (ran : wireRun yy tcl (newWire s₀) events = some w) :
    w.pool.dead = 0 ∧ (w.pool.submittedOnce = true → w.pool.done = true →
      ∃ replies, (∀ woken, poolWait yy tcl w.pool woken = .ok replies) ∧
        pmapResults yy tcl tclOps replies = values.mapM fun v => tcl.exprOf v.canon) := by
  have deliverable := (poolItems_deliverable_iff spec tclSpec lawful accepted).mpr clean
  have each : ∀ item ∈ pend, ∃ v, Returns yy tcl ops (canonEntries item.request) v ∧ Transparent v :=
    fun item member => by
    obtain ⟨v, -, returned⟩ := forall₂_mem_right returns.flip member
    exact ⟨v, returned⟩
  have batch := submitsOnly_batch read accepted only
  have deliver : ∀ e ∈ events, Wire.Sound.Delivers yy tcl e := by
    intro e member
    cases e with
    | director e =>
      cases e with
      | submit items' failures =>
        obtain rfl := only items' failures member
        intro next its' pend' read' numbered'
        obtain rfl := Except.ok.inj (read.symm.trans read')
        exact (poolItems_deliverable_iff spec tclSpec lawful numbered').mpr clean
      | _ => trivial
    | _ => trivial
  have healthy := healthyRun_of_served spec tclSpec counts deliverable each
    (newWire_served created) batch serves harmless
  have alive := ((newWire_sound created).run spec deliver healthy ran).alive
  refine ⟨alive, fun once done => ?_⟩
  have unstuck : w.pool.fatal = [] := by
    obtain ⟨events', ran'⟩ := wireRun_poolRun ran
    have inv := poolRun_conserved (poolCreate_conserved created) ran'
    by_contra fatal
    exact absurd alive (inv.died fatal).ne'
  have served := ((newWire_served created).run batch serves ran).replies spec tclSpec counts deliverable
    (poolItems_numbered accepted) once done unstuck
  refine ⟨poolReplies yy tcl w.pool, fun woken => ?_, pmapResults_returned true' ?_⟩
  · simp only [poolWait, unstuck, ne_eq, not_true, if_false, done, if_true]
  · refine forall₂_both returns served ?_
    rintro item v rep ⟨returned, clear⟩ ⟨-, ⟨dead, -⟩ | own⟩
    · rw [alive] at dead
      cases dead
    · exact own.returned spec tclSpec counts returned clear

end

theorem pmap_maps_gone : ∃ w replies, PairRun (newWire pairPool) pairEvents w ∧ w.pool.dead = 0 ∧
    (∀ woken, poolWait referenceYyjson wordTcl w.pool woken = .ok replies) ∧
    pmapResults referenceYyjson wordTcl sampleOps replies = .ok [.str (ascii "gone"), .str (ascii "came")] := by
  obtain ⟨w, run, shape⟩ := pair_ran
  have one : sampleOps.notOf (.str (ascii "1")) = .ok false := rfl
  obtain ⟨alive, maps⟩ :=
    pmap_maps referenceYyjson_spec wordTcl_spec wordTcl_counts one rfl pairItems_lawful pairItems_accepted
    pairItems_clean (.cons ⟨go_returns, gone_clear⟩ (.cons ⟨come_returns, came_clear⟩ .nil))
      pairPool_created pair_only
    run.served run.harmless run.ran
  obtain ⟨replies, waited, results⟩ := maps (by rw [shape]; rfl) (by rw [shape]; rfl)
  exact ⟨w, replies, run, alive, waited, results⟩

end Machteld
