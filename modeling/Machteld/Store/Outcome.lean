import Machteld.Store.Served
import Machteld.Store.Model

namespace Machteld

/-- Every call is granted, with what is new numbered `n` and a step that
ends as given. -/
def StoreChoice.granted (rc : StoreStep) (n : Nat) : StoreChoice where
  answer
    | .alloc => some n
    | .free _ => ()
    | .evalNamespace => true
    | .createCommand => true
    | .pkgProvide => true
    | .valueBytes _ => n
    | .scratchFree _ => ()
    | .openDb _ => .ok n
    | .busyTimeout _ => true
    | .createTable _ => .ok ()
    | .freeMessage _ => ()
    | .errmsg _ => []
    | .closeDb _ => true
    | .prepare _ _ => some n
    | .bindText _ _ => true
    | .bindBlob _ _ _ => true
    | .step _ => rc
    | .finalize _ => true
    | .changes _ => 0
    | .newObj => n
    | .appendElement _ _ => ()
    | .setObjResult _ => ()

abbrev storeLedger : Host StoreCall StoreCall.Answer := storeHost.ledger storeDeal

/-- All steps end with their statement, but for one that ends with a row. -/
def grantedStore (k i : Nat) (row : Bytes) : List (storeLedger.Move ⊕ storeLedger.Choice) :=
  (List.range k).map fun n => .inr (StoreChoice.granted (if n = i then .row row else .done) n)

/-- A program that holds nothing yet, and no tables. -/
def storeStartWorld : StoreWorld := (⟨0, [], false, false⟩, ⟨id, fun _ => ∅, fun p => .memory p, [], fun _ => 0⟩)

theorem storeStartWorld_has : StoreHas 0 storeStartWorld.2 storeStartWorld :=
  ⟨rfl, rfl, Multiset.nodup_zero, fun _ none' => absurd none' List.not_mem_nil,
    fun _ none' => absurd none' List.not_mem_nil, rfl⟩

theorem storeDeal_never (c : StoreCall) (a : c.Answer) : (storeDeal c a).loses = false := by cases c <;> rfl

def storeWord (s : String) : TclValue := .bytes (ascii s)

/-- A value that is put in a file, and read when the file is open again. -/
def storeTwice : List (List TclValue) :=
  [[storeWord "open", storeWord "kv"], [storeWord "put", storeWord "k", storeWord "v"], [storeWord "close"],
    [storeWord "open", storeWord "kv"], [storeWord "get", storeWord "k"]]

section

variable {x y : StoreWorld} {w : Sqlite} {F : Multiset StoreAsset} {libversion : Bytes}
  {objvs : List (List TclValue)}
  {q : StoreM (Option (List StoreReply))}

/-- However the calls of SQLite and of the allocator end, a session of
`store` never deals with what it does not hold or has given back: every
statement is finalized, so that every connection can be closed; at its end
it holds nothing more but one object of Tcl at most for each `get` or `keys`
that has ended with an error of SQLite, which the source does not give back;
and each command was answered as tables that are kept in files are. -/
theorem storeSession_leaves (has : StoreHas F w x) (idle : w.stmts = []) (calm : x.1.lost = false)
    (run : storeLedger.Reaches (storeSession libversion objvs) x q y) :
    y.1.spoiled = false ∧ ∀ r, q = .done r → (∃ v lost, StoreHas (objectsHeld lost + F) v y ∧
        lost.card ≤ r.elim 0 fun l => ((objvs.map storeRequest).zip l).countP readFails) ∧
          ∀ l ∈ r, l.length = objvs.length ∧
      ∃ m, StoreServed libversion ⟨w.name, fun file => w.tables (.file file), none⟩
        ((objvs.map storeRequest).zip l) m := by
  have still : y.1.lost = false := (Safely.never_lost storeDeal_never run).trans calm
  obtain ⟨careful, ends⟩ := (storeSession_runs has idle).reaches run
  exact ⟨careful still, fun r done => ends r done still⟩

set_option maxRecDepth 4000 in
theorem storeSession_leaves_twice :
    ∃ l y, storeLedger.Reaches (storeSession [] storeTwice) storeStartWorld (.done (some l)) y ∧
    y.1.spoiled = false ∧ l.length = 5 ∧ ∃ v, StoreHas 0 v y := by
  have ends : (storeLedger.finish (storeSession [] storeTwice) storeStartWorld (grantedStore 26 20 (ascii "v"))).any
      (fun r => r.1.any fun l => ((storeTwice.map storeRequest).zip l).countP readFails == 0) = true := by
        decide +kernel
  obtain ⟨⟨r, y⟩, finished, good⟩ := (Option.any_eq_true _ _).mp ends
  obtain ⟨l, same, fine⟩ := (Option.any_eq_true _ _).mp good
  obtain rfl : r = some l := same
  have run := Host.finish_reaches finished
  obtain ⟨clean, done⟩ := storeSession_leaves storeStartWorld_has rfl rfl run
  obtain ⟨⟨v, lost, has, few⟩, served⟩ := done _ rfl
  rw [Option.elim_some, beq_iff_eq.mp fine, Nat.le_zero, Multiset.card_eq_zero] at few
  subst few
  exact ⟨l, y, run, clean, (served l rfl).1, v, has⟩

/-- Over any session, whatever fails: what is answered of a key agrees with
what was put last, or with nothing once it is deleted, and so do the keys
that are listed; in a file it is so even when the file is closed and open
again, by the same path or another; the keys are listed in their order, each
once. -/
theorem storeSession_tells {l : List StoreReply} (has : StoreHas F w x) (idle : w.stmts = [])
    (calm : x.1.lost = false)
    (run : storeLedger.Reaches (storeSession libversion objvs) x (.done (some l)) y) :
    l.length = objvs.length ∧ StoreTells w.name ((objvs.map storeRequest).zip l) := by
  have still : y.1.lost = false := (Safely.never_lost storeDeal_never run).trans calm
  obtain ⟨length, m, served⟩ := (((storeSession_runs has idle).reaches run).2 _ rfl still).2 l rfl
  exact ⟨length, served.tells⟩

/-- The value is told behind the second opening. -/
def tellsTwice : List StoreReply → Bool
  | [.empty, .empty, .empty, .empty, .binary v] => v == ascii "v"
  | _ => false

set_option maxRecDepth 4000 in
theorem storeSession_tells_twice : ∃ l y,
    storeLedger.Reaches (storeSession [] storeTwice) storeStartWorld (.done (some l)) y ∧ tellsTwice l = true ∧
      l.length = 5 ∧ StoreTells id ((storeTwice.map storeRequest).zip l) := by
  have ends : (storeLedger.finish (storeSession [] storeTwice) storeStartWorld (grantedStore 26 20 (ascii "v"))).any
      (fun r => r.1.any tellsTwice) = true := by decide +kernel
  obtain ⟨⟨r, y⟩, finished, good⟩ := (Option.any_eq_true _ _).mp ends
  obtain ⟨l, same, told⟩ := (Option.any_eq_true _ _).mp good
  obtain rfl : r = some l := same
  have run := Host.finish_reaches finished
  exact ⟨l, y, run, told, storeSession_tells storeStartWorld_has rfl rfl run⟩

end

end Machteld
