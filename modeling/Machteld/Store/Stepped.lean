import Machteld.Ledger
import Machteld.Store.Model

namespace Machteld

abbrev StoreWorld := Ledger StoreAsset × Sqlite

abbrev StoreHas (M : Multiset StoreAsset) (w : Sqlite) (x : StoreWorld) : Prop := Exactly M w x

abbrev StoreRuns {α : Type} (p : StoreM α) (post : α → StoreWorld → Prop) (x : StoreWorld) : Prop :=
  Safely storeHost storeDeal p post x

theorem storeFollows : storeHost.Follows storeEffect where
  still _ m := m.elim
  acts c choice w a v acted := by
    obtain ⟨u, same, pair⟩ := Option.map_eq_some_iff.mp acted
    obtain ⟨rfl, rfl⟩ := Prod.mk.inj pair
    exact same

namespace Sqlite

variable {w : Sqlite} {st : Nat} {s : StoreStmt}

theorem prepare_find (w : Sqlite) (st : Nat) (s : StoreStmt) : (w.prepare st s).find st = some s := by
  have first : (w.prepare st s).stmts.find? (fun s => s.1 == st) = some (st, s) :=
    List.find?_cons_of_pos (beq_self_eq_true st)
  rw [find, first]
  rfl

theorem prepare_bind (idle : w.stmts = []) (f : StoreStmt → StoreStmt) :
    (w.prepare st s).bind st f = w.prepare st (f s) := by
  simp only [bind, prepare, idle, List.map_cons, List.map_nil, if_true]

theorem prepare_finalize (idle : w.stmts = []) : (w.prepare st s).finalize st = w := by
  have gone : ((st, s) :: w.stmts).filter (fun s => decide (s.1 ≠ st)) = w.stmts := by
    rw [idle]
    exact List.filter_cons_of_neg fun other => of_decide_eq_true other rfl
  exact congrArg (fun l => { w with stmts := l }) gone

end Sqlite

section

variable {α : Type} {x : StoreWorld} {w : Sqlite} {F : Multiset StoreAsset} {p st : Nat} {s : StoreStmt}
  {post : α → StoreWorld → Prop}

/-- A statement is held from its preparation on, or none is. -/
theorem prepare_then {sql : StoreSql} {f : Option Nat → StoreM α} (has : StoreHas F w x) (own : .db p ∈ F)
    (failed : ∀ y, StoreHas F w y → StoreRuns (f none) post y)
    (made : ∀ st y, StoreHas ({.stmt st} + F) (w.prepare st ⟨p, sql, [], [], none⟩) y →
      StoreRuns (f (some st)) post y) :
    StoreRuns (StoreCall.ask (.prepare p sql) >>= f) post x := by
  refine storeFollows.take has (fun _ => rfl) (fun r same => Multiset.mem_singleton.mp same ▸ own)
    fun answer v y effect has => ?_
  obtain rfl := Option.some.inj effect
  cases answer with
  | none => exact failed y (has.swap (zero_add F))
  | some st => exact made st y has

/-- A bound key is the statement's, with a copy of its own. -/
theorem bindText_then {text : Bytes} {f : Bool → StoreM α} (has : StoreHas ({.stmt st} + F) (w.prepare st s) x)
    (idle : w.stmts = [])
    (next : ∀ ok y, StoreHas ({.stmt st} + F) (w.prepare st (if ok then { s with key := text } else s)) y →
      StoreRuns (f ok) post y) : StoreRuns (StoreCall.ask (.bindText st text) >>= f) post x := by
  refine storeFollows.use has (fun _ => rfl) (fun r same => Multiset.mem_singleton.mp same ▸
    Multiset.mem_cons_self _ _)
    fun ok v y effect has => next ok y ?_
  obtain rfl := Option.some.inj effect
  cases ok with
  | false => exact has
  | true =>
    rw [if_pos rfl, Sqlite.prepare_bind idle] at has
    exact has

/-- One step of a statement does to the tables what its text says, once it
is done; a step that fails does nothing. -/
theorem step_then {f : StoreStep → StoreM α} (has : StoreHas ({.stmt st} + F) (w.prepare st s) x)
    (next : ∀ rc v y, storeStep (w.prepare st s) st s rc = some v → StoreHas ({.stmt st} + F) v y →
      StoreRuns (f rc) post y) :
    StoreRuns (StoreCall.ask (.step st) >>= f) post x := by
  refine storeFollows.use has (fun _ => rfl) (fun r same => Multiset.mem_singleton.mp same ▸
    Multiset.mem_cons_self _ _)
    fun rc v y effect has => next rc v y ?_ has
  change ((w.prepare st s).find st).bind _ = some v at effect
  rw [Sqlite.prepare_find] at effect
  exact effect

/-- A statement that is finalized is held no more. -/
theorem finalize_then {f : Bool → StoreM α} (has : StoreHas ({.stmt st} + F) (w.prepare st s) x)
    (idle : w.stmts = [])
    (next : ∀ ok y, StoreHas F w y → StoreRuns (f ok) post y) :
    StoreRuns (StoreCall.ask (.finalize st) >>= f) post x := by
  refine storeFollows.call (N := 0) (T := fun _ => 0) has (fun _ => rfl)
    (fun _ none' => absurd none' (Multiset.notMem_zero _))
    fun ok v y effect has => next ok y ?_
  obtain rfl := Option.some.inj effect
  rw [Sqlite.prepare_finalize idle] at has
  exact has.swap (zero_add F)

/-- An object is made while a statement is open. -/
theorem newObj_then {f : Nat → StoreM α} (has : StoreHas ({.stmt st} + F) w x)
    (next : ∀ o y, StoreHas ({.stmt st} + ({.object o} + F)) w y → StoreRuns (f o) post y) :
    StoreRuns (StoreCall.ask .newObj >>= f) post x := by
  refine storeFollows.take (N := 0) has (fun _ => rfl)
    (fun _ none' => absurd none' (Multiset.notMem_zero _)) fun o v y effect has => ?_
  obtain rfl := Option.some.inj effect
  exact next o y (has.swap (add_left_comm _ _ _))

/-- An error is told with the message of the database. -/
theorem storeFail_runs {db : Option Nat} (has : StoreHas F w x) (own : ∀ p ∈ db, .db p ∈ F) :
    StoreRuns (storeFail db) (fun reply y => reply.Broken ∧ StoreHas F w y) x := by
  refine storeFollows.use has (fun _ => rfl) (fun r member => ?_) fun message v y effect has => ?_
  · cases db with
    | none => exact absurd member (Multiset.notMem_zero _)
    | some p => exact Multiset.mem_singleton.mp member ▸ own p rfl
  · obtain rfl := Option.some.inj effect
    exact storeFollows.done has fun _ later => ⟨⟨message, rfl⟩, later⟩

/-- A connection without statements is closed. -/
theorem closeDb_then {f : Bool → StoreM α} (has : StoreHas ({.db p} + F) w x) (idle : w.stmts = [])
    (next : ∀ y, StoreHas F w y → StoreRuns (f true) post y) :
    StoreRuns (StoreCall.ask (.closeDb p) >>= f) post x := by
  refine storeFollows.call (N := 0) (T := fun ok => if ok then 0 else {.db p}) has (fun _ => rfl)
    (fun _ none' => absurd none' (Multiset.notMem_zero _)) fun ok v y effect has => ?_
  obtain ⟨same, rest⟩ := Option.ite_none_right_eq_some.mp effect
  obtain rfl := Option.some.inj rest
  rw [Sqlite.busy, idle] at same
  obtain rfl : ok = true := same
  exact next y (has.swap (zero_add F))

end

/-- What is held of a connection, if there is one. -/
def dbHeld (db : Option Nat) : Multiset StoreAsset := db.elim 0 fun p => {.db p}

section

variable {α : Type} {x : StoreWorld} {w : Sqlite} {F : Multiset StoreAsset} {p : Nat} {key : Bytes}

theorem closeStore_runs (db : Option Nat) (has : StoreHas (dbHeld db + F) w x) (idle : w.stmts = []) :
    StoreRuns (closeStore db) (fun _ y => StoreHas F w y) x := by
  cases db with
  | none => exact storeFollows.done (has.swap (zero_add F)) fun _ later => later
  | some p =>
    have has : StoreHas ({.db p} + F) w x := has
    exact closeDb_then has idle fun y has => storeFollows.done has fun _ later => later

/-- The objects of Tcl that nobody gives back. -/
def objectsHeld (lost : Multiset Nat) : Multiset StoreAsset := lost.map .object

/-- What a command leaves that needs a database; one that reads may lose an
object where SQLite fails. -/
def StoreLeaves (reads : Bool) (F : Multiset StoreAsset) (good : StoreReply → Sqlite → Prop) (reply : StoreReply)
    (y : StoreWorld) :
    Prop :=
  ∃ v lost, v.stmts = [] ∧ StoreHas (objectsHeld lost + F) v y ∧
    lost.card ≤ (reads && reply.broken).toNat ∧ good reply v

/-- A command that has lost nothing. -/
theorem StoreLeaves.whole {reads : Bool} {good : StoreReply → Sqlite → Prop} {reply : StoreReply}
    {y : StoreWorld} {v : Sqlite}
    (idle : v.stmts = []) (has : StoreHas F v y) (wanted : good reply v) : StoreLeaves reads F good reply y :=
  ⟨v, 0, idle, has.swap (zero_add F).symm, Nat.zero_le _, wanted⟩

theorem storeFail_leaves {reads : Bool} {good : StoreReply → Sqlite → Prop} (has : StoreHas F w x) (own : .db p ∈ F)
    (idle : w.stmts = []) (wanted : ∀ reply, reply.Broken → good reply w) :
    StoreRuns (storeFail (some p)) (StoreLeaves reads F good) x := by
  have held : ∀ q ∈ some p, .db q ∈ F := fun q same => Option.some.inj same ▸ own
  exact Safely.mono (fun reply y done => .whole idle done.2 (wanted reply done.1)) (storeFail_runs has held)

/-- The object of a command that reads is lost where SQLite fails behind it.
-/
theorem storeFail_loses {o : Nat} {good : StoreReply → Sqlite → Prop} (has : StoreHas ({.object o} + F) w x)
    (own : .db p ∈ F)
    (idle : w.stmts = []) (wanted : ∀ reply, reply.Broken → good reply w) :
    StoreRuns (storeFail (some p)) (StoreLeaves true F good) x := by
  have held : ∀ q ∈ some p, .db q ∈ ({.object o} + F : Multiset StoreAsset) := fun q same =>
    Multiset.mem_cons_of_mem (Option.some.inj same ▸ own)
  refine Safely.mono (fun reply y done => ?_) (storeFail_runs has held)
  refine ⟨w, {o}, idle, done.2, ?_, wanted reply done.1⟩
  rw [done.1.broken]
  exact le_rfl

theorem storeFinalize_leaves {reads : Bool} {st : Nat} {s : StoreStmt} {good : StoreReply → Sqlite → Prop}
    (has : StoreHas ({.stmt st} + F) (w.prepare st s) x) (own : .db p ∈ F) (idle : w.stmts = [])
    (wanted : ∀ reply, reply.Broken → good reply w) : StoreRuns (finalizeFail p st) (StoreLeaves reads F good) x :=
  finalize_then has idle fun _ _ has => storeFail_leaves has own idle wanted

/-- The value is bound as a copy, so that its bytes may be freed behind the call.
-/
theorem bindPut_runs {M : Multiset StoreAsset} {st c : Nat} {s : StoreStmt} {bytes : Bytes}
    (has : StoreHas ({.stmt st} + M) (w.prepare st s) x) (idle : w.stmts = []) (held : .scratch c ∈ M) :
    StoreRuns (bindPut st key c bytes)
      (fun bound y => ∃ s', (bound = true → s' = { s with key := key, value := bytes }) ∧
      StoreHas ({.stmt st} + M) (w.prepare st s') y) x := by
  refine bindText_then has idle fun ok y has => ?_
  cases ok with
  | false => exact storeFollows.done has fun _ later => ⟨s, (fun none' => by cases none'), later⟩
  | true =>
    change StoreRuns (StoreCall.ask (.bindBlob st c bytes) >>= pure) _ y
    refine storeFollows.use has (fun _ => rfl) (fun r member => ?_) fun ok v y effect has => ?_
    · rcases Multiset.mem_add.mp member with same | same
      · exact Multiset.mem_singleton.mp same ▸ Multiset.mem_cons_self _ _
      · exact Multiset.mem_singleton.mp same ▸ Multiset.mem_cons_of_mem held
    · obtain rfl := Option.some.inj effect
      cases ok with
      | false => exact storeFollows.done has fun _ later => ⟨_, (fun none' => by cases none'), later⟩
      | true =>
        rw [if_pos rfl, Sqlite.prepare_bind idle] at has
        exact storeFollows.done has fun _ later => ⟨_, fun _ => rfl, later⟩

/-- A put stores its bytes under the key and touches no other key, or it
fails; where it fails, they may have been stored. -/
theorem storePut_runs {value : TclValue} (has : StoreHas F w x) (own : .db p ∈ F) (idle : w.stmts = []) :
    StoreRuns (storePut p key value) (StoreLeaves false F fun reply v => reply.Broken ∧ v = w ∨
      (reply.Broken ∨ reply = .empty) ∧ v = w.change p fun t => t.insert key value.valueBytes) x := by
  refine prepare_then has own (fun y has => storeFail_leaves has own idle fun _ broken => .inl ⟨broken, rfl⟩)
    fun st y has => ?_
  refine storeFollows.take (N := 0) has (fun _ => rfl)
    (fun _ none' => absurd none' (Multiset.notMem_zero _)) fun c v y effect has => ?_
  obtain rfl := Option.some.inj effect
  have has : StoreHas ({.stmt st} + ({.scratch c} + F)) (w.prepare st ⟨p, .put, [], [], none⟩) y :=
    has.swap (add_left_comm _ _ _)
  refine Safely.andThen (bindPut_runs has idle (Multiset.mem_cons_self _ _)) fun bound y done => ?_
  obtain ⟨s, same, has⟩ := done
  refine storeFollows.give (has.swap (add_left_comm _ _ _)) (fun _ => rfl) (fun _ => rfl) fun _ y has => ?_
  cases bound with
  | false => exact storeFinalize_leaves has own idle fun _ broken => .inl ⟨broken, rfl⟩
  | true =>
    obtain rfl := same rfl
    refine step_then has fun rc v y stepped has => ?_
    cases rc with
    | row b => cases stepped
    | failed =>
      obtain rfl := Option.some.inj stepped
      refine finalize_then has idle fun finalized y has => ?_
      exact storeFail_leaves has own idle fun _ broken => .inl ⟨broken, rfl⟩
    | done =>
      obtain rfl := Option.some.inj stepped
      have has : StoreHas ({.stmt st} + F)
          ((w.change p fun t => t.insert key value.valueBytes).prepare st
            ⟨p, .put, key, value.valueBytes, none⟩) y := has
      refine finalize_then has idle fun finalized y has => ?_
      cases finalized with
      | true =>
        exact storeFollows.done has fun _ later => .whole (v := w.change p _) idle later (.inr ⟨.inr rfl, rfl⟩)
      | false => exact storeFail_leaves has own idle fun _ broken => .inr ⟨.inl broken, rfl⟩

/-- A get answers with the bytes under the key, or with none where the key
is not there, unless the read fails. -/
theorem storeGet_runs (has : StoreHas F w x) (own : .db p ∈ F) (idle : w.stmts = []) :
    StoreRuns (storeGet p key) (StoreLeaves true F fun reply v =>
      (reply.Broken ∨ reply = ((w.table p)[key]?).elim storeMissing .binary) ∧ v = w) x := by
  refine prepare_then has own (fun y has => storeFail_leaves has own idle fun _ broken => ⟨.inl broken, rfl⟩)
    fun st y has => ?_
  refine bindText_then has idle fun bound y has => ?_
  cases bound with
  | false => exact storeFinalize_leaves has own idle fun _ broken => ⟨.inl broken, rfl⟩
  | true =>
    refine step_then has fun rc v y stepped has => ?_
    cases rc with
    | failed =>
      obtain rfl := Option.some.inj stepped
      exact storeFinalize_leaves has own idle fun _ broken => ⟨.inl broken, rfl⟩
    | done =>
      obtain ⟨missing, same⟩ := Option.ite_none_right_eq_some.mp stepped
      obtain rfl := Option.some.inj same
      refine finalize_then has idle fun _ y has => storeFollows.done has fun _ later =>
        .whole idle later ⟨.inr ?_, rfl⟩
      rw [show (w.table p)[key]? = none from missing]
      rfl
    | row b =>
      obtain ⟨there, same⟩ := Option.ite_none_right_eq_some.mp stepped
      obtain rfl := Option.some.inj same
      refine newObj_then has fun o y has => finalize_then has idle fun finalized y has => ?_
      cases finalized with
      | false => exact storeFail_loses has own idle fun _ broken => ⟨.inl broken, rfl⟩
      | true =>
        refine storeFollows.give has (fun _ => rfl) (fun _ => rfl) fun _ y has =>
          storeFollows.done has fun _ later =>
          .whole idle later ⟨.inr ?_, rfl⟩
        rw [show (w.table p)[key]? = some b from there]
        rfl

/-- A del takes the key away and answers whether it was there; where it
fails, the key may be gone. -/
theorem storeDel_runs (has : StoreHas F w x) (own : .db p ∈ F) (idle : w.stmts = []) :
    StoreRuns (storeDel p key) (StoreLeaves false F fun reply v => reply.Broken ∧ v = w ∨
      (reply.Broken ∨ reply = .count (if (w.table p).contains key then 1 else 0)) ∧
        v.tables = (w.change p fun t => t.erase key).tables ∧ v.places = w.places ∧ v.name = w.name) x := by
  refine prepare_then has own (fun y has => storeFail_leaves has own idle fun _ broken => .inl ⟨broken, rfl⟩)
    fun st y has => ?_
  refine bindText_then has idle fun bound y has => ?_
  cases bound with
  | false =>
    refine finalize_then has idle fun _ y has => ?_
    exact storeFail_leaves has own idle fun _ broken => .inl ⟨broken, rfl⟩
  | true =>
    change StoreRuns (StoreCall.ask (.step st) >>= _) _ y
    refine step_then has fun rc v y stepped has => ?_
    cases rc with
    | row b => cases stepped
    | failed =>
      obtain rfl := Option.some.inj stepped
      refine finalize_then has idle fun finalized y has => ?_
      exact storeFail_leaves has own idle fun _ broken => .inl ⟨broken, rfl⟩
    | done =>
      obtain rfl := Option.some.inj stepped
      have has : StoreHas ({.stmt st} + F) ((w.del ⟨p, .del, key, [], none⟩).prepare st
        ⟨p, .del, key, [], none⟩) y := has
      refine finalize_then has idle fun finalized y has => ?_
      cases finalized with
      | false => exact storeFail_leaves has own idle fun _ broken => .inr ⟨.inl broken, rfl, rfl, rfl⟩
      | true =>
        refine storeFollows.use has (fun _ => rfl) (fun r same => Multiset.mem_singleton.mp same ▸ own)
          fun n v y effect has => ?_
        obtain ⟨counted, same⟩ := Option.ite_none_right_eq_some.mp effect
        obtain rfl := Option.some.inj same
        refine storeFollows.done has fun _ later => .whole (v := w.del _) idle later (.inr ⟨.inr ?_, rfl, rfl, rfl⟩)
        rw [counted]
        exact congrArg StoreReply.count (Function.update_self _ _ _)

/-- The rows come in their order, each once. -/
theorem storeRows_runs {st list : Nat} (has : StoreHas ({.stmt st} + F) (w.prepare st ⟨p, .keys, [], [], none⟩) x)
    (own : .object list ∈ F) (idle : w.stmts = []) :
    StoreRuns (storeRows st list) (fun rows y => (rows.2 = true → rows.1 = (w.table p).keys) ∧
      ∃ s, StoreHas ({.stmt st} + F) (w.prepare st s) y) x := by
  have same : storeRows st list = storeRows st list >>= pure := (Prog.bind_done _).symm
  rw [same, storeRows]
  refine Safely.iterate (fun _ => {.stmt st} + F) (fun _ => [])
    (fun l v => ∃ rows, v = w.prepare st ⟨p, .keys, [], [], rows⟩ ∧
    l ++ rows.getD (w.table p).keys = (w.table p).keys) (fun _ => storeFollows.still _)
    ⟨has.clean, has.mine, has.single, has.running, has.uses, none, has.knows, rfl⟩ fun l y holds => ?_
  obtain ⟨has, rows, known, order⟩ := holds.exactly
  rw [known] at has
  refine step_then has fun rc v y stepped has => ?_
  cases rc with
  | failed =>
    obtain rfl := Option.some.inj stepped
    exact storeFollows.done has fun _ later => storeFollows.done later fun _ last =>
      ⟨(fun none' => by cases none'), _, last⟩
  | done =>
    obtain ⟨ended, same⟩ := Option.ite_none_right_eq_some.mp stepped
    obtain rfl := Option.some.inj same
    refine storeFollows.done has fun _ later => storeFollows.done later fun _ last => ⟨fun _ => ?_, _, last⟩
    rw [← order, show rows.getD (w.table p).keys = [] from ended, List.append_nil]
  | row k =>
    obtain ⟨first, same⟩ := Option.ite_none_right_eq_some.mp stepped
    obtain rfl := Option.some.inj same
    rw [Sqlite.prepare_bind idle] at has
    refine storeFollows.use has (fun _ => rfl) (fun r same => Multiset.mem_singleton.mp same ▸
      Multiset.mem_cons_of_mem own)
      fun _ v y effect has => ?_
    obtain rfl := Option.some.inj effect
    refine storeFollows.done has fun _ later => ⟨later.clean, later.mine, later.single, later.running, later.uses,
      _, later.knows, ?_⟩
    obtain ⟨left, split'⟩ := List.head?_eq_some_iff.mp (show (rows.getD (w.table p).keys).head? = some k from first)
    change l ++ [k] ++ (rows.getD (w.table p).keys).tail = _
    rw [split', List.tail_cons, List.append_assoc, List.singleton_append, ← split', order]

/-- The keys come in their order, each once, unless the read fails. -/
theorem storeKeys_runs (has : StoreHas F w x) (own : .db p ∈ F) (idle : w.stmts = []) :
    StoreRuns (storeKeys p)
      (StoreLeaves true F fun reply v => (reply.Broken ∨ reply = .words (w.table p).keys) ∧ v = w) x := by
  refine prepare_then has own (fun y has => storeFail_leaves has own idle fun _ broken => ⟨.inl broken, rfl⟩)
    fun st y has => ?_
  refine newObj_then has fun list y has => Safely.andThen (storeRows_runs has (Multiset.mem_cons_self _ _) idle)
    fun rows y done => ?_
  obtain ⟨whole, s, has⟩ := done
  refine finalize_then has idle fun finalized y has => ?_
  change StoreRuns (if _ then _ else _) _ y
  split
  · next good =>
    refine storeFollows.give has (fun _ => rfl) (fun _ => rfl) fun _ y has => storeFollows.done has fun _ later =>
      .whole idle later ⟨.inr ?_, rfl⟩
    rw [whole (Bool.and_eq_true_iff.mp good).1]
  · exact storeFail_loses has own idle fun _ broken => ⟨.inl broken, rfl⟩

end

end Machteld
