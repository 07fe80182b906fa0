import Mathlib.Logic.Function.Basic
import Machteld.Ledger
import Machteld.TclValue
import Machteld.Units.Parse

namespace Machteld

/-- The rows of `kv`, by key. -/
abbrev StoreTable := Std.TreeMap Bytes Bytes

/-- Where a table is: each connection to `:memory:` has its own. -/
inductive StorePlace
  | memory (db : Nat)
  | file (file : Bytes)
  deriving DecidableEq

def memoryPath : Bytes := ascii ":memory:"

/-- Where the table of a path is; `name` tells which file a path is one of.
-/
def storePlace (name : Bytes → Bytes) (path : Bytes) (db : Nat) : StorePlace :=
  if path = memoryPath then .memory db else .file (name path)

/-- The statements that `store` prepares. -/
inductive StoreSql
  | put
  | get
  | keys
  | del
  deriving DecidableEq

/-- What `store` has to give back. -/
inductive StoreAsset
  | block (b : Nat)
  | scratch (s : Nat)
  | message (m : Nat)
  | db (p : Nat)
  | stmt (st : Nat)
  | object (o : Nat)
  deriving DecidableEq

inductive StoreStep
  | row (b : Bytes)
  | done
  | failed
  deriving DecidableEq

/-- The calls of `store`; an object of Tcl that was made is the caller's
until it is the result of the interpreter. -/
inductive StoreCall
  | alloc
  | free (b : Nat)
  | evalNamespace
  | createCommand
  | pkgProvide
  | valueBytes (v : TclValue)
  | scratchFree (s : Nat)
  | openDb (path : Bytes)
  | busyTimeout (p : Nat)
  | createTable (p : Nat)
  | freeMessage (m : Nat)
  | errmsg (p : Option Nat)
  | closeDb (p : Nat)
  | prepare (p : Nat) (sql : StoreSql)
  | bindText (st : Nat) (text : Bytes)
  | bindBlob (st s : Nat) (bytes : Bytes)
  | step (st : Nat)
  | finalize (st : Nat)
  | changes (p : Nat)
  | newObj
  | appendElement (o : Nat) (text : Bytes)
  | setObjResult (o : Nat)

/-- A database that cannot be opened may leave a connection all the same. -/
@[reducible] def StoreCall.Answer : StoreCall → Type
  | alloc => Option Nat
  | free _ => Unit
  | evalNamespace => Bool
  | createCommand => Bool
  | pkgProvide => Bool
  | valueBytes _ => Nat
  | scratchFree _ => Unit
  | openDb _ => Except (Option Nat) Nat
  | busyTimeout _ => Bool
  | createTable _ => Except (Option (Nat × Bytes)) Unit
  | freeMessage _ => Unit
  | errmsg _ => Bytes
  | closeDb _ => Bool
  | prepare _ _ => Option Nat
  | bindText _ _ => Bool
  | bindBlob _ _ _ => Bool
  | step _ => StoreStep
  | finalize _ => Bool
  | changes _ => Nat
  | newObj => Nat
  | appendElement _ _ => Unit
  | setObjResult _ => Unit

abbrev StoreM := Prog StoreCall StoreCall.Answer

/-- A prepared statement: its connection, what is bound, and the rows that
are left once it has been stepped. -/
structure StoreStmt where
  db : Nat
  sql : StoreSql
  key : Bytes
  value : Bytes
  rows : Option (List Bytes)

/-- The file each path names, the tables, the open connections, the
statements and the counts of changes. -/
structure Sqlite where
  name : Bytes → Bytes
  tables : StorePlace → StoreTable
  places : Nat → StorePlace
  stmts : List (Nat × StoreStmt)
  changes : Nat → Nat

namespace Sqlite

def table (w : Sqlite) (p : Nat) : StoreTable := w.tables (w.places p)

def openDb (w : Sqlite) (path : Bytes) (p : Nat) : Sqlite :=
  { w with
    tables := if path = memoryPath then Function.update w.tables (.memory p) ∅ else w.tables
    places := Function.update w.places p (storePlace w.name path p) }

def change (w : Sqlite) (p : Nat) (f : StoreTable → StoreTable) : Sqlite :=
  { w with tables := Function.update w.tables (w.places p) (f (w.table p)) }

def count (w : Sqlite) (p n : Nat) : Sqlite := { w with changes := Function.update w.changes p n }

def prepare (w : Sqlite) (st : Nat) (s : StoreStmt) : Sqlite := { w with stmts := (st, s) :: w.stmts }

def find (w : Sqlite) (st : Nat) : Option StoreStmt := (w.stmts.find? fun s => s.1 == st).map Prod.snd

def bind (w : Sqlite) (st : Nat) (f : StoreStmt → StoreStmt) : Sqlite :=
  { w with stmts := w.stmts.map fun s => if s.1 = st then (st, f s.2) else s }

def finalize (w : Sqlite) (st : Nat) : Sqlite := { w with stmts := w.stmts.filter fun s => decide (s.1 ≠ st) }

/-- Whether a connection has statements that are not finalized. -/
def busy (w : Sqlite) (p : Nat) : Bool := w.stmts.any fun s => s.2.db == p

def put (w : Sqlite) (s : StoreStmt) : Sqlite := w.change s.db fun t => t.insert s.key s.value

def del (w : Sqlite) (s : StoreStmt) : Sqlite :=
  (w.change s.db fun t => t.erase s.key).count s.db (if (w.table s.db).contains s.key then 1 else 0)

end Sqlite

/-- The rows of a listing that are left. -/
def StoreStmt.left (s : StoreStmt) (t : StoreTable) : List Bytes := s.rows.getD t.keys

/-- What a step does, each statement in its own way; a step that fails
changes nothing. -/
def storeStep (w : Sqlite) (st : Nat) (s : StoreStmt) : StoreStep → Option Sqlite
  | .failed => some w
  | .done =>
    match s.sql with
    | .put => some (w.put s)
    | .del => some (w.del s)
    | .get => if (w.table s.db)[s.key]? = none then some w else none
    | .keys => if s.left (w.table s.db) = [] then some w else none
  | .row b =>
    match s.sql with
    | .put => none
    | .del => none
    | .get => if (w.table s.db)[s.key]? = some b then some w else none
    | .keys =>
      if (s.left (w.table s.db)).head? = some b then
        some (w.bind st fun s => { s with rows := some (s.left (w.table s.db)).tail })
      else none

/-- What a call does; none where it cannot end like this. A connection with
statements left is not closed. -/
def storeEffect (w : Sqlite) : (c : StoreCall) → c.Answer → Option Sqlite
  | .openDb path, answer => some (answer.toOption.elim w (w.openDb path))
  | .closeDb p, ok => if ok = !w.busy p then some w else none
  | .prepare p sql, answer => some (answer.elim w fun st => w.prepare st ⟨p, sql, [], [], none⟩)
  | .bindText st text, ok => some (if ok then w.bind st fun s => { s with key := text } else w)
  | .bindBlob st _ bytes, ok => some (if ok then w.bind st fun s => { s with value := bytes } else w)
  | .step st, answer => (w.find st).bind fun s => storeStep w st s answer
  | .finalize st, _ => some (w.finalize st)
  | .changes p, n => if n = w.changes p then some w else none
  | _, _ => some w

/-- How the calls end. -/
structure StoreChoice where
  answer : (c : StoreCall) → c.Answer

/-- SQLite, with no other connection to its files. -/
def storeHost : Host StoreCall StoreCall.Answer where
  World := Sqlite
  Choice := StoreChoice
  act c choice w := (storeEffect w c (choice.answer c)).map fun v => (choice.answer c, v)
  Move := Empty
  move m := m.elim

/-- What the calls take, use and give back. -/
def storeDeal : (c : StoreCall) → c.Answer → Deal StoreAsset
  | .alloc, answer => { takes := answer.elim 0 fun b => {.block b} }
  | .free b, _ => { gives := {.block b} }
  | .valueBytes _, s => { takes := {.scratch s} }
  | .scratchFree s, _ => { gives := {.scratch s} }
  | .openDb _, answer =>
    { takes := match answer with
      | .ok p => {.db p}
      | .error (some p) => {.db p}
      | .error none => 0 }
  | .busyTimeout p, _ => { needs := {.db p} }
  | .createTable p, answer =>
    { needs := {.db p}
      takes := match answer with
        | .error (some m) => {.message m.1}
        | _ => 0 }
  | .freeMessage m, _ => { gives := {.message m} }
  | .errmsg p, _ => { needs := p.elim 0 fun p => {.db p} }
  | .closeDb p, ok => { gives := {.db p}, takes := if ok then 0 else {.db p} }
  | .prepare p _, answer => { needs := {.db p}, takes := answer.elim 0 fun st => {.stmt st} }
  | .bindText st _, _ => { needs := {.stmt st} }
  | .bindBlob st s _, _ => { needs := {.stmt st} + {.scratch s} }
  | .step st, _ => { needs := {.stmt st} }
  | .finalize st, _ => { gives := {.stmt st} }
  | .changes p, _ => { needs := {.db p} }
  | .newObj, o => { takes := {.object o} }
  | .appendElement o _, _ => { needs := {.object o} }
  | .setObjResult o, _ => { gives := {.object o} }
  | .evalNamespace, _ => {}
  | .createCommand, _ => {}
  | .pkgProvide, _ => {}

/-- `fail_code` -/
def storeError (code : String) (message : Bytes) : TclError := tclFail "STORE" code message

/-- What a command leaves as its result; the texts of `Tcl_WrongNumArgs` and
`Tcl_GetIndexFromObj` are what these two make of their arguments. -/
inductive StoreReply
  | empty
  | text (s : Bytes)
  | binary (b : Bytes)
  | words (l : List Bytes)
  | count (n : Nat)
  | error (err : TclError)
  | wrongArgs (count : Nat) (usage : String)
  | badSubcommand

/-- `StoreCtx`, with its address. -/
structure StoreCtx where
  address : Nat
  db : Option Nat

abbrev StoreCall.ask (c : StoreCall) : StoreM c.Answer := Prog.ask c

/-- `fail` with the message of SQLite. -/
def storeFail (db : Option Nat) : StoreM StoreReply := do
  let message ← StoreCall.ask (.errmsg db)
  return .error (storeError "sqlite" message)

/-- `sqlite3_close`, which does nothing without a connection. -/
def closeStore : Option Nat → StoreM Unit
  | none => return ()
  | some p => do
    let _ ← StoreCall.ask (.closeDb p)
    return ()

def freeStoreMessage : Option (Nat × Bytes) → StoreM Unit
  | none => return ()
  | some m => StoreCall.ask (.freeMessage m.1)

/-- `store open` -/
def storeOpen (ctx : StoreCtx) (path : Bytes) : StoreM (StoreReply × StoreCtx) := do
  closeStore ctx.db
  match ← StoreCall.ask (.openDb path) with
  | .error db => do
    let reply ← storeFail db
    closeStore db
    return (reply, { ctx with db := none })
  | .ok p =>
    match ← StoreCall.ask (.busyTimeout p) with
    | false => do
      let reply ← storeFail (some p)
      closeStore (some p)
      return (reply, { ctx with db := none })
    | true =>
      match ← StoreCall.ask (.createTable p) with
      | .error message => do
        freeStoreMessage message
        closeStore (some p)
        return (.error (storeError "sqlite" (message.elim (ascii "error") Prod.snd)), { ctx with db := none })
      | .ok _ => return (.empty, { ctx with db := some p })

/-- The value is bound where the key is. -/
def bindPut (st : Nat) (key : Bytes) (s : Nat) (bytes : Bytes) : StoreM Bool := do
  match ← StoreCall.ask (.bindText st key) with
  | false => return false
  | true => StoreCall.ask (.bindBlob st s bytes)

/-- A statement is finalized; the error is SQLite's. -/
def finalizeFail (p st : Nat) : StoreM StoreReply := do
  let _ ← StoreCall.ask (.finalize st)
  storeFail (some p)

/-- `store put` -/
def storePut (p : Nat) (key : Bytes) (value : TclValue) : StoreM StoreReply := do
  match ← StoreCall.ask (.prepare p .put) with
  | none => storeFail (some p)
  | some st => do
    let s ← StoreCall.ask (.valueBytes value)
    let bound ← bindPut st key s value.valueBytes
    StoreCall.ask (.scratchFree s)
    if bound then do
      let rc ← StoreCall.ask (.step st)
      let finalized ← StoreCall.ask (.finalize st)
      if rc = .done ∧ finalized = true then return .empty else storeFail (some p)
    else finalizeFail p st

def storeMissing : StoreReply := .error (storeError "notfound" (ascii "store key not found"))

/-- `store get`; the result is not given back where the statement does
not end well. -/
def storeGet (p : Nat) (key : Bytes) : StoreM StoreReply := do
  match ← StoreCall.ask (.prepare p .get) with
  | none => storeFail (some p)
  | some st =>
    match ← StoreCall.ask (.bindText st key) with
    | false => finalizeFail p st
    | true =>
      match ← StoreCall.ask (.step st) with
      | .done => do
        let _ ← StoreCall.ask (.finalize st)
        return storeMissing
      | .failed => finalizeFail p st
      | .row b => do
        let res ← StoreCall.ask .newObj
        match ← StoreCall.ask (.finalize st) with
        | false => storeFail (some p)
        | true => do
          StoreCall.ask (.setObjResult res)
          return .binary b

/-- The loop of `store keys`: the keys, and whether it came to their end. -/
def storeRows (st list : Nat) : StoreM (List Bytes × Bool) :=
  Prog.iterate (fun l => do
    match ← StoreCall.ask (.step st) with
    | .row k => do
      StoreCall.ask (.appendElement list k)
      return .inl (l ++ [k])
    | .done => return .inr (l, true)
    | .failed => return .inr (l, false)) []

/-- `store keys`; the list is not given back where it is not the result. -/
def storeKeys (p : Nat) : StoreM StoreReply := do
  match ← StoreCall.ask (.prepare p .keys) with
  | none => storeFail (some p)
  | some st => do
    let list ← StoreCall.ask .newObj
    let rows ← storeRows st list
    let finalized ← StoreCall.ask (.finalize st)
    if rows.2 && finalized then do
      StoreCall.ask (.setObjResult list)
      return .words rows.1
    else storeFail (some p)

/-- A step where the key is bound. -/
def stepIf (bound : Bool) (st : Nat) : StoreM StoreStep :=
  if bound then StoreCall.ask (.step st) else return .failed

/-- `store del` -/
def storeDel (p : Nat) (key : Bytes) : StoreM StoreReply := do
  match ← StoreCall.ask (.prepare p .del) with
  | none => storeFail (some p)
  | some st => do
    let bound ← StoreCall.ask (.bindText st key)
    let rc ← stepIf bound st
    let finalized ← StoreCall.ask (.finalize st)
    if rc = .done ∧ finalized = true then do
      let n ← StoreCall.ask (.changes p)
      return .count n
    else storeFail (some p)

/-- `store close` -/
def storeClose (ctx : StoreCtx) : StoreM (StoreReply × StoreCtx) :=
  match ctx.db with
  | none => return (.empty, ctx)
  | some p => do
    match ← StoreCall.ask (.closeDb p) with
    | true => return (.empty, { ctx with db := none })
    | false => do
      let reply ← storeFail (some p)
      return (reply, ctx)

/-- What a command asks for, once its words are read. -/
inductive StoreRequest
  | refused (reply : StoreReply)
  | version
  | openAt (path : Bytes)
  | put (key : Bytes) (value : TclValue)
  | get (key : Bytes)
  | keys
  | del (key : Bytes)
  | close

inductive StoreSub
  | openAt
  | put
  | get
  | keys
  | del
  | close
  | version

def storeSubs : List (Bytes × StoreSub) :=
  [(ascii "open", .openAt), (ascii "put", .put), (ascii "get", .get), (ascii "keys", .keys), (ascii "del", .del),
    (ascii "close", .close), (ascii "version", .version)]

/-- The words behind a subcommand. -/
def storeSubWords : StoreSub → List TclValue → StoreRequest
  | .openAt, [] => .openAt memoryPath
  | .openAt, [path] =>
    if path.string = [] ∨ 0 ∈ path.string then
      .refused (.error (storeError "badvalue" (ascii "store path must be a non-empty string without NUL bytes")))
    else .openAt path.string
  | .openAt, _ => .refused (.wrongArgs 2 "?path?")
  | .put, [key, value] => .put key.string value
  | .put, _ => .refused (.wrongArgs 2 "key value")
  | .get, [key] => .get key.string
  | .get, _ => .refused (.wrongArgs 2 "key")
  | .keys, [] => .keys
  | .keys, _ => .refused (.wrongArgs 2 "")
  | .del, [key] => .del key.string
  | .del, _ => .refused (.wrongArgs 2 "key")
  | .close, [] => .close
  | .close, _ => .refused (.wrongArgs 2 "")
  | .version, [] => .version
  | .version, _ => .refused (.wrongArgs 2 "")

/-- The words behind `store`. -/
def storeRequest : List TclValue → StoreRequest
  | [] => .refused (.wrongArgs 1 "subcommand ?arg ...?")
  | sub :: rest =>
    match (storeSubs.find? fun s => s.1 == sub.string).map Prod.snd with
    | none => .refused .badSubcommand
    | some sub => storeSubWords sub rest

/-- `needDb` -/
def notOpen : StoreReply := .error (storeError "notopen" (ascii "store not open (::machteld::store open ?path?)"))

/-- `needDb` before a command. -/
def needDb (ctx : StoreCtx) (command : Nat → StoreM StoreReply) : StoreM (StoreReply × StoreCtx) :=
  match ctx.db with
  | none => return (notOpen, ctx)
  | some p => return (← command p, ctx)

/-- `StoreCmd`, with what `sqlite3_libversion` gives. -/
def storeCmd (libversion : Bytes) (ctx : StoreCtx) : StoreRequest → StoreM (StoreReply × StoreCtx)
  | .refused reply => return (reply, ctx)
  | .version => return (.text libversion, ctx)
  | .openAt path => storeOpen ctx path
  | .put key value => needDb ctx fun p => storePut p key value
  | .get key => needDb ctx fun p => storeGet p key
  | .keys => needDb ctx storeKeys
  | .del key => needDb ctx fun p => storeDel p key
  | .close => storeClose ctx

/-- `StoreDelete` -/
def storeDelete (ctx : StoreCtx) : StoreM Unit := do
  closeStore ctx.db
  StoreCall.ask (.free ctx.address)

/-- `Machteldstore_Init`; where it fails there is no command. -/
def storeInit : StoreM (Option StoreCtx) := do
  match ← StoreCall.ask .alloc with
  | none => return none
  | some b =>
    match ← StoreCall.ask .evalNamespace with
    | false => do
      StoreCall.ask (.free b)
      return none
    | true =>
      match ← StoreCall.ask .createCommand with
      | false => do
        StoreCall.ask (.free b)
        return none
      | true =>
        match ← StoreCall.ask .pkgProvide with
        | true => return some ⟨b, none⟩
        | false => do
          storeDelete ⟨b, none⟩
          return none

/-- One command after another. -/
def storeCmds (libversion : Bytes) (ctx : StoreCtx) : List StoreRequest → StoreM (List StoreReply × StoreCtx)
  | [] => return ([], ctx)
  | r :: rs => do
    let (reply, ctx) ← storeCmd libversion ctx r
    let (replies, ctx) ← storeCmds libversion ctx rs
    return (reply :: replies, ctx)

/-- The command from its creation to its end, with the words of each use. -/
def storeSession (libversion : Bytes) (objvs : List (List TclValue)) : StoreM (Option (List StoreReply)) := do
  match ← storeInit with
  | none => return none
  | some ctx => do
    let (replies, ctx) ← storeCmds libversion ctx (objvs.map storeRequest)
    storeDelete ctx
    return some replies

end Machteld
