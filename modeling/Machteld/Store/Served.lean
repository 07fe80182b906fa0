import Mathlib.Tactic.Abel
import Machteld.Store.Stepped

namespace Machteld

/-- What is open, as its users know it. -/
def StorePlace.opened (w : Sqlite) : StorePlace → StoreOpened
  | memory p => .memory (w.tables (.memory p))
  | file f => .file f

def StoreCtx.model (ctx : StoreCtx) (w : Sqlite) : StoreModel :=
  ⟨w.name, fun file => w.tables (.file file), ctx.db.map fun p => (w.places p).opened w⟩

def StoreCtx.held (ctx : StoreCtx) : Multiset StoreAsset := dbHeld ctx.db + {.block ctx.address}

section

variable {x y : StoreWorld} {w v : Sqlite} {F : Multiset StoreAsset} {ctx : StoreCtx} {p : Nat} {libversion : Bytes}

theorem StoreModel.table_opened (ctx : StoreCtx) (w : Sqlite) (p : Nat) :
    (ctx.model w).table ((w.places p).opened w) = w.table p := by
  rw [Sqlite.table]
  cases w.places p <;> rfl

/-- A change of a table is one of the model. -/
theorem StorePlace.opened_change {f : StoreTable → StoreTable} {o : Option StoreOpened} (place : StorePlace)
    (tables : v.tables = Function.update w.tables place (f (w.tables place))) (name : v.name = w.name) :
    (⟨v.name, fun file => v.tables (.file file), some (place.opened v)⟩ : StoreModel) =
      StoreModel.change ⟨w.name, fun file => w.tables (.file file), o⟩ f (place.opened w) := by
  cases place with
  | memory q =>
    have files : (fun file => v.tables (.file file)) = fun file => w.tables (.file file) := funext fun file => by
      rw [tables, Function.update_of_ne (by rintro ⟨⟩)]
    rw [opened, opened, StoreModel.change, files, name, tables, Function.update_self]
  | file file =>
    have files : (fun file => v.tables (.file file)) =
        Function.update (fun file => w.tables (.file file)) file (f (w.tables (.file file))) :=
          funext fun other => by
      by_cases same : other = file
      · rw [same, tables, Function.update_self, Function.update_self]
      · rw [tables, Function.update_of_ne (fun equal => same (StorePlace.file.inj equal)),
          Function.update_of_ne same]
    rw [opened, opened, StoreModel.change, files, name]

theorem StoreCtx.model_change {f : StoreTable → StoreTable} (opened : ctx.db = some p)
    (tables : v.tables = (w.change p f).tables) (places : v.places = w.places) (name : v.name = w.name) :
    ctx.model v = (ctx.model w).change f ((w.places p).opened w) := by
  rw [StoreCtx.model, opened, Option.map_some, places]
  exact (w.places p).opened_change tables name

/-- What the command holds is its connection, which has no statements. -/
structure StoreCtx.Keeps (ctx : StoreCtx) (F : Multiset StoreAsset) (w : Sqlite) (x : StoreWorld) : Prop where
  has : StoreHas (ctx.held + F) w x
  idle : w.stmts = []

/-- Whether a command reads and ends with an error of SQLite. -/
def readFails (e : StoreRequest × StoreReply) : Bool := e.1.reads && e.2.broken

/-- What a command leaves. -/
def StoreKept (libversion : Bytes) (ctx : StoreCtx) (F : Multiset StoreAsset) (w : Sqlite) (request : StoreRequest)
    (r : StoreReply × StoreCtx) (y : StoreWorld) : Prop :=
  r.2.address = ctx.address ∧ ∃ v lost, r.2.Keeps (objectsHeld lost + F) v y ∧
    lost.card ≤ (readFails (request, r.1)).toNat ∧
    StoreServes libversion (ctx.model w) request r.1 (r.2.model v)

/-- A command that has lost nothing. -/
theorem StoreKept.whole {request : StoreRequest} {reply : StoreReply} {ctx' : StoreCtx}
    (address : ctx'.address = ctx.address)
    (has : StoreHas (ctx'.held + F) v y) (idle : v.stmts = [])
    (served : StoreServes libversion (ctx.model w) request reply (ctx'.model v)) :
    StoreKept libversion ctx F w request (reply, ctx') y := by
  refine ⟨address, v, 0, ⟨has.swap ?_, idle⟩, Nat.zero_le _, served⟩
  change _ = ctx'.held + (0 + F)
  rw [zero_add]

theorem StoreCtx.Keeps.kept {request : StoreRequest} {reply : StoreReply} (keeps : ctx.Keeps F w x)
    (has : StoreHas (ctx.held + F) w y)
    (served : StoreServes libversion (ctx.model w) request reply (ctx.model w)) :
    StoreKept libversion ctx F w request (reply, ctx) y := .whole rfl has keeps.idle served

/-- A command that needs the database. -/
theorem needDb_runs {request : StoreRequest} {command : Nat → StoreM StoreReply}
    {good : Nat → StoreReply → Sqlite → Prop}
    {served : StoreReply → StoreModel → StoreOpened → Prop} (keeps : ctx.Keeps F w x)
    (serves : ∀ reply m', (ctx.model w).Needs reply m' (served reply m') →
      StoreServes libversion (ctx.model w) request reply m')
    (runs : ∀ p, .db p ∈ ctx.held + F → StoreRuns (command p) (StoreLeaves request.reads (ctx.held + F) (good p)) x)
    (means : ∀ p reply v, ctx.db = some p → good p reply v → served reply (ctx.model v) ((w.places p).opened w)) :
    StoreRuns (needDb ctx command) (StoreKept libversion ctx F w request) x := by
  rw [needDb]
  cases opened : ctx.db with
  | none =>
    refine storeFollows.done keeps.has fun _ later => keeps.kept later (serves _ _ ?_)
    rw [StoreModel.Needs, StoreCtx.model, opened]
    exact ⟨rfl, rfl⟩
  | some p =>
    have own : .db p ∈ ctx.held + F := by simp [StoreCtx.held, dbHeld, opened]
    refine Safely.andThen (runs p own) fun reply y done => ?_
    obtain ⟨v, lost, idle, has, few, wanted⟩ := done
    refine storeFollows.done has fun _ later => ⟨rfl, v, lost, ⟨later.swap (add_left_comm _ _ _), idle⟩, few,
      serves reply _ ?_⟩
    rw [StoreModel.Needs, StoreCtx.model, opened]
    exact means p reply v opened wanted

/-- What is held of a context beside its connection. -/
theorem StoreCtx.held_swap (ctx : StoreCtx) (F : Multiset StoreAsset) :
    ctx.held + F = dbHeld ctx.db + ({.block ctx.address} + F) := add_assoc _ _ _

theorem StoreCtx.closed_held (ctx : StoreCtx) (F : Multiset StoreAsset) :
    StoreCtx.held ⟨ctx.address, none⟩ + F = {.block ctx.address} + F := by
  rw [held, dbHeld, Option.elim_none, zero_add]

/-- The message of SQLite is freed with its own function. -/
theorem freeStoreMessage_runs {message : Option (Nat × Bytes)}
    (has : StoreHas ((message.elim 0 fun m => {.message m.1}) + F) w x) :
    StoreRuns (freeStoreMessage message) (fun _ y => StoreHas F w y) x := by
  cases message with
  | none => exact storeFollows.done (has.swap (zero_add F)) fun _ later => later
  | some m =>
    have has : StoreHas ({.message m.1} + F) w x := has
    change StoreRuns (StoreCall.ask (.freeMessage m.1) >>= pure) _ x
    exact storeFollows.give has (fun _ => rfl) (fun _ => rfl) fun _ y has =>
      storeFollows.done has fun _ later => later

theorem Sqlite.openDb_file (w : Sqlite) (path : Bytes) (p : Nat) :
    (fun other => (w.openDb path p).tables (.file other)) = fun other => w.tables (.file other) :=
  funext fun other => by
  change (if path = memoryPath then Function.update w.tables (.memory p) ∅ else w.tables) (.file other) = _
  split
  · rw [Function.update_of_ne (by rintro ⟨⟩)]
  · rfl

/-- A new table is empty, and the files are as they were. -/
theorem Sqlite.openDb_model (w : Sqlite) (path : Bytes) (p : Nat) (ctx : StoreCtx) :
    StoreCtx.model ⟨ctx.address, some p⟩ (w.openDb path p) = (ctx.model w).openAt path := by
  have place : (w.openDb path p).places p = storePlace w.name path p := Function.update_self _ _ _
  have opened : (storePlace w.name path p).opened (w.openDb path p) =
      if path = memoryPath then .memory ∅ else .file (w.name path) := by
    rw [storePlace]
    by_cases memory : path = memoryPath
    · rw [if_pos memory, if_pos memory, StorePlace.opened]
      change StoreOpened.memory ((if path = memoryPath then Function.update w.tables (.memory p) ∅ else w.tables)
        (.memory p)) = _
      rw [if_pos memory, Function.update_self]
    · rw [if_neg memory, if_neg memory, StorePlace.opened]
  rw [StoreCtx.model, Option.map_some, place, opened, w.openDb_file]
  rfl

/-- An open closes the database before it, and where it fails none is open:
the connection that did not open, or could not be made ready, is closed
again. -/
theorem storeOpen_runs {path : Bytes} (keeps : ctx.Keeps F w x) :
    StoreRuns (storeOpen ctx path) (StoreKept libversion ctx F w (.openAt path)) x := by
  have shut : ∀ {reply v z}, StoreHas ({.block ctx.address} + F) v z → v.stmts = [] →
      (fun other => v.tables (.file other)) = (fun other => w.tables (.file other)) →
        v.name = w.name → reply.Broken →
      StoreKept libversion ctx F w (.openAt path) (reply, ⟨ctx.address, none⟩) z :=
        fun {reply v z} has idle files name broken =>
    .whole rfl (has.swap (ctx.closed_held F).symm) idle (.inl ⟨broken, by rw [StoreCtx.model, files, name]; rfl⟩)
  refine Safely.andThen (closeStore_runs ctx.db (keeps.has.swap (ctx.held_swap F)) keeps.idle) fun _ y has => ?_
  refine storeFollows.take (N := 0) has (fun _ => rfl)
    (fun _ none' => absurd none' (Multiset.notMem_zero _)) fun answer v y effect has => ?_
  obtain rfl := Option.some.inj effect
  cases answer with
  | error db =>
    have has : StoreHas (dbHeld db + ({.block ctx.address} + F)) w y := by cases db <;> exact has
    have own : ∀ p ∈ db, .db p ∈ dbHeld db + ({.block ctx.address} + F) := fun p same => by
      rw [same]
      exact Multiset.mem_cons_self _ _
    refine Safely.andThen (storeFail_runs has own) fun reply y done => ?_
    refine Safely.andThen (closeStore_runs db done.2 keeps.idle) fun _ z has => ?_
    exact storeFollows.done has fun _ later => shut later keeps.idle rfl rfl done.1
  | ok p =>
    have has : StoreHas ({.db p} + ({.block ctx.address} + F)) (w.openDb path p) y := has
    have own : .db p ∈ ({.db p} + ({.block ctx.address} + F) : Multiset StoreAsset) := Multiset.mem_cons_self _ _
    have files := w.openDb_file path p
    refine storeFollows.use has (fun _ => rfl) (fun r same => Multiset.mem_singleton.mp same ▸ own)
      fun ready v y effect has => ?_
    obtain rfl := Option.some.inj effect
    cases ready with
    | false =>
      refine Safely.andThen (storeFail_runs has fun q same => Option.some.inj same ▸ own) fun reply y done => ?_
      refine Safely.andThen (closeStore_runs (some p) done.2 keeps.idle) fun _ z has => ?_
      exact storeFollows.done has fun _ later => shut later keeps.idle files rfl done.1
    | true =>
      refine storeFollows.take has (fun _ => rfl) (fun r same => Multiset.mem_singleton.mp same ▸ own)
        fun created v y effect has => ?_
      obtain rfl := Option.some.inj effect
      cases created with
      | error message =>
        have has : StoreHas ((message.elim 0 fun m => {.message m.1}) + ({.db p} + ({.block ctx.address} + F)))
            (w.openDb path p) y := by cases message <;> exact has
        refine Safely.andThen (freeStoreMessage_runs has) fun _ y has => ?_
        refine Safely.andThen (closeStore_runs (some p) has keeps.idle) fun _ z has => ?_
        exact storeFollows.done has fun _ later => shut later keeps.idle files rfl ⟨_, rfl⟩
      | ok _ =>
        have has : StoreHas (0 + ({.db p} + ({.block ctx.address} + F))) (w.openDb path p) y := has
        have order : (0 + ({.db p} + ({.block ctx.address} + F)) : Multiset StoreAsset) =
          StoreCtx.held ⟨ctx.address, some p⟩ + F := by
          rw [zero_add, StoreCtx.held_swap]
          rfl
        exact storeFollows.done (has.swap order) fun _ later =>
          .whole rfl later keeps.idle (.inr ⟨rfl, w.openDb_model path p ctx⟩)

/-- A close is served whether a database is open or not. -/
theorem storeClose_runs (keeps : ctx.Keeps F w x) : StoreRuns (storeClose ctx)
    (StoreKept libversion ctx F w .close) x := by
  obtain ⟨address, db⟩ := ctx
  cases db with
  | none => exact storeFollows.done keeps.has fun _ later => keeps.kept later ⟨rfl, rfl⟩
  | some p =>
    have has : StoreHas ({.db p} + ({.block address} + F)) w x :=
      keeps.has.swap (StoreCtx.held_swap ⟨address, some p⟩ F)
    refine closeDb_then has keeps.idle fun y has => ?_
    exact storeFollows.done has fun _ later =>
      .whole (v := w) rfl (later.swap (StoreCtx.closed_held ⟨address, some p⟩ F).symm) keeps.idle ⟨rfl, rfl⟩

/-- A command leaves what the model of `store` says, and holds only its
connection and what it has lost. -/
theorem storeCmd_runs {request : StoreRequest} (keeps : ctx.Keeps F w x) :
    StoreRuns (storeCmd libversion ctx request) (StoreKept libversion ctx F w request) x := by
  cases request with
  | refused reply => exact storeFollows.done keeps.has fun _ later => keeps.kept later ⟨rfl, rfl⟩
  | version => exact storeFollows.done keeps.has fun _ later => keeps.kept later ⟨rfl, rfl⟩
  | openAt path => exact storeOpen_runs keeps
  | put key value =>
    refine needDb_runs keeps (fun _ _ needs => needs)
      (fun p own => storePut_runs keeps.has own keeps.idle) fun p reply v opened wanted => ?_
    rcases wanted with ⟨broken, rfl⟩ | ⟨told, rfl⟩
    · exact .inl ⟨broken, rfl⟩
    · exact .inr ⟨told, ctx.model_change opened rfl rfl rfl⟩
  | get key =>
    refine needDb_runs keeps (fun _ _ needs => needs)
      (fun p own => storeGet_runs keeps.has own keeps.idle) fun p reply v opened wanted => ?_
    obtain ⟨told, rfl⟩ := wanted
    rw [← StoreModel.table_opened ctx] at told
    exact ⟨told, rfl⟩
  | keys =>
    refine needDb_runs keeps (fun _ _ needs => needs)
      (fun p own => storeKeys_runs keeps.has own keeps.idle) fun p reply v opened wanted => ?_
    obtain ⟨told, rfl⟩ := wanted
    rw [← StoreModel.table_opened ctx] at told
    exact ⟨told, rfl⟩
  | del key =>
    refine needDb_runs keeps (fun _ _ needs => needs)
      (fun p own => storeDel_runs keeps.has own keeps.idle) fun p reply v opened wanted => ?_
    rcases wanted with ⟨broken, rfl⟩ | ⟨told, tables, places, name⟩
    · exact .inl ⟨broken, rfl⟩
    · rw [← StoreModel.table_opened ctx] at told
      exact .inr ⟨told, ctx.model_change opened tables places name⟩
  | close => exact storeClose_runs keeps

/-- By induction on the requests: each is served, and of Tcl objects only
those of reads that failed are lost, one at most for each. -/
theorem storeCmds_runs {requests : List StoreRequest} (keeps : ctx.Keeps F w x) :
    StoreRuns (storeCmds libversion ctx requests) (fun r y => r.2.address = ctx.address ∧
      r.1.length = requests.length ∧
      ∃ v lost, r.2.Keeps (objectsHeld lost + F) v y ∧ lost.card ≤ (requests.zip r.1).countP readFails ∧
        StoreServed libversion (ctx.model w) (requests.zip r.1) (r.2.model v)) x := by
  induction requests generalizing ctx F w x with
  | nil =>
    have whole : ctx.held + F = ctx.held + (objectsHeld 0 + F) := congrArg _ (zero_add F).symm
    exact storeFollows.done keeps.has fun _ later => ⟨rfl, rfl, w, 0, ⟨later.swap whole, keeps.idle⟩,
      Nat.zero_le _, rfl⟩
  | cons request requests ih =>
    refine Safely.andThen (storeCmd_runs keeps) fun r y done => ?_
    obtain ⟨reply, ctx'⟩ := r
    obtain ⟨address, v, lost, keeps, few, served⟩ := done
    refine Safely.andThen (ih keeps) fun r z done => ?_
    obtain ⟨replies, ctx''⟩ := r
    obtain ⟨address', length, u, lost', keeps, few', rest⟩ := done
    have both : objectsHeld lost' + (objectsHeld lost + F) = objectsHeld (lost' + lost) + F := by
      rw [objectsHeld, objectsHeld, objectsHeld, Multiset.map_add, add_assoc]
    have counted : (lost' + lost).card ≤ ((request :: requests).zip (reply :: replies)).countP readFails := by
      rw [Multiset.card_add, List.zip_cons_cons, List.countP_cons]
      have one : (readFails (request, reply)).toNat = if readFails (request, reply) = true then 1 else 0 := by
        cases readFails (request, reply) <;> rfl
      exact Nat.add_le_add few' (one ▸ few)
    exact storeFollows.done keeps.has fun _ later => ⟨address'.trans address, congrArg Nat.succ length,
      u, lost' + lost,
      ⟨later.swap (congrArg _ both), keeps.idle⟩, counted, ctx'.model v, served, rest⟩

theorem storeDelete_runs (ctx : StoreCtx) (keeps : ctx.Keeps F w x) :
    StoreRuns (storeDelete ctx) (fun _ y => StoreHas F w y) x := by
  refine Safely.andThen (closeStore_runs ctx.db (keeps.has.swap (ctx.held_swap F)) keeps.idle) fun _ y has => ?_
  change StoreRuns (StoreCall.ask (.free ctx.address) >>= pure) _ y
  exact storeFollows.give has (fun _ => rfl) (fun _ => rfl) fun _ y has =>
    storeFollows.done has fun _ later => later

/-- A new command has no database. -/
theorem storeInit_runs (has : StoreHas F w x) (idle : w.stmts = []) : StoreRuns storeInit
    (fun ctx y => ctx.elim (StoreHas F w y) fun ctx => ctx.db = none ∧ ctx.Keeps F w y) x := by
  have nothing : ∀ {G : Multiset StoreAsset}, ∀ r ∈ (0 : Multiset StoreAsset), r ∈ G :=
    fun _ none' => absurd none' (Multiset.notMem_zero _)
  refine storeFollows.take (N := 0) has (fun _ => rfl) nothing fun b v y effect has => ?_
  obtain rfl := Option.some.inj effect
  cases b with
  | none => exact storeFollows.done (has.swap (zero_add F)) fun _ later => later
  | some b =>
    have has : StoreHas ({.block b} + F) w y := has
    have fresh := (StoreCtx.closed_held ⟨b, none⟩ F).symm
    refine storeFollows.use (N := 0) has (fun _ => rfl) nothing fun spaced v y effect has => ?_
    obtain rfl := Option.some.inj effect
    cases spaced with
    | false =>
      exact storeFollows.give has (fun _ => rfl) (fun _ => rfl) fun _ y has =>
        storeFollows.done has fun _ later => later
    | true =>
      refine storeFollows.use (N := 0) has (fun _ => rfl) nothing fun created v y effect has => ?_
      obtain rfl := Option.some.inj effect
      cases created with
      | false =>
        exact storeFollows.give has (fun _ => rfl) (fun _ => rfl) fun _ y has =>
          storeFollows.done has fun _ later => later
      | true =>
        refine storeFollows.use (N := 0) has (fun _ => rfl) nothing fun provided v y effect has => ?_
        obtain rfl := Option.some.inj effect
        cases provided with
        | true => exact storeFollows.done has fun _ later => ⟨rfl, later.swap fresh, idle⟩
        | false =>
          exact Safely.andThen (storeDelete_runs ⟨b, none⟩ ⟨has.swap fresh, idle⟩) fun _ y has =>
            storeFollows.done has fun _ later => later

/-- A session from the creation of the command to its deletion. -/
theorem storeSession_runs {objvs : List (List TclValue)} (has : StoreHas F w x) (idle : w.stmts = []) :
    StoreRuns (storeSession libversion objvs) (fun replies y => (∃ v lost, StoreHas (objectsHeld lost + F) v y ∧
      lost.card ≤ replies.elim 0 fun l => ((objvs.map storeRequest).zip l).countP readFails) ∧
      ∀ l ∈ replies, l.length = objvs.length ∧
        ∃ m, StoreServed libversion ⟨w.name, fun file => w.tables (.file file), none⟩
          ((objvs.map storeRequest).zip l) m) x := by
  refine Safely.andThen (storeInit_runs has idle) fun ctx y done => ?_
  cases ctx with
  | none =>
    have whole : F = objectsHeld 0 + F := (zero_add F).symm
    exact storeFollows.done done fun _ later => ⟨⟨w, 0, later.swap whole, Nat.zero_le _⟩,
      fun _ none' => by cases none'⟩
  | some ctx =>
    obtain ⟨address, db⟩ := ctx
    obtain ⟨rfl, keeps⟩ := done
    refine Safely.andThen (storeCmds_runs keeps) fun r y done => ?_
    obtain ⟨replies, ctx'⟩ := r
    obtain ⟨-, length, v, lost, keeps, few, served⟩ := done
    refine Safely.andThen (storeDelete_runs ctx' keeps) fun _ y has =>
      storeFollows.done has fun _ later => ⟨⟨v, lost, later, few⟩, fun l same => ?_⟩
    obtain rfl := Option.some.inj same
    exact ⟨length.trans (List.length_map _), _, served⟩

end

end Machteld
