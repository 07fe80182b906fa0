import Machteld.Hash.Served

namespace Machteld

/-- Every call is granted, with what is new numbered `n`. -/
def HashChoice.granted (out : Bytes) (n : Nat) : HashChoice where
  answer
    | .alloc => some n
    | .free _ => ()
    | .valueBytes _ => n
    | .scratchFree _ => ()
    | .openProvider _ _ => some n
    | .digestLength _ => some out.length
    | .closeProvider _ => ()
    | .createHash _ _ => some n
    | .hashData _ _ _ => true
    | .finishHash _ _ => some out
    | .destroyHash _ => ()
    | .genRandom _ count => some (List.replicate count 0)
    | .openFile _ => .ok n
    | .setBinary _ => none
    | .readRaw _ _ => some []
    | .closeChannel _ => true
    | .createCommand => true
    | .pkgProvide => true

abbrev hashLedger (digest : HashAlg → Option Bytes → Bytes → Bytes) : Host HashCall HashCall.Answer :=
  (hashHost digest).ledger hashDeal

def grantedHash (digest : HashAlg → Option Bytes → Bytes → Bytes) (out : Bytes) (k : Nat) :
    List ((hashLedger digest).Move ⊕ (hashLedger digest).Choice) :=
  (List.range k).map fun n => .inr (HashChoice.granted out n)

/-- A program that holds nothing yet, and no files. -/
def hashStartWorld : HashWorld :=
  (⟨0, [], false, false⟩, ⟨fun _ => none, fun _ => none, fun _ => none, fun _ => none⟩)

theorem hashStartWorld_has : HashHas 0 hashStartWorld.2 hashStartWorld :=
  ⟨rfl, rfl, Multiset.nodup_zero, fun _ none' => absurd none' List.not_mem_nil,
    fun _ none' => absurd none' List.not_mem_nil, rfl⟩

theorem hashDeal_never (c : HashCall) (a : c.Answer) : (hashDeal c a).loses = false := by cases c <;> rfl

def abcDigest : Bytes :=
  [0x90, 0x01, 0x50, 0x98, 0x3c, 0xd2, 0x4f, 0xb0, 0xd6, 0x96, 0x3f, 0x7d, 0x28, 0xe1, 0x7f, 0x72]

/-- The digest of what the commands below hash. -/
def md5OfAbc : HashAlg → Option Bytes → Bytes → Bytes
  | .md5, none, [0x61, 0x62, 0x63] => abcDigest
  | _, _, _ => []

def hashWord (s : String) : TclValue := .bytes (ascii s)

/-- Two updates of a context, and the same data at once. -/
def hashAbc : List (List TclValue) :=
  [[hashWord "start", hashWord "md5"], [hashWord "update", hashWord "hash#1", hashWord "a"],
    [hashWord "update", hashWord "hash#1", hashWord "bc"], [hashWord "final", hashWord "hash#1"],
    [hashWord "sum", hashWord "md5", hashWord "abc", hashWord "-binary"]]

section

variable {digest : HashAlg → Option Bytes → Bytes → Bytes} {x y : HashWorld} {w : Cng} {F : Multiset HashAsset}
  {wide : TclValue → Option Int} {objvs : List (List TclValue)} {q : HashM (Option (List HashReply))}

/-- However the calls of CNG, of the channels and of the allocator end, a
session of `hash` never deals with what it does not hold or has given back;
at its end it holds nothing more, and each command was answered as open
contexts that data is added to are. No token names two contexts in a session
of fewer than 2^31 commands, in which the counter of the source does not
come round. -/
theorem hashSession_leaves (has : HashHas F w x) (calm : x.1.lost = false)
    (run : (hashLedger digest).Reaches (hashSession wide objvs) x q y) :
    y.1.spoiled = false ∧ ∀ r, q = .done r → (∃ v, HashHas F v y) ∧ ∀ l ∈ r, l.length = objvs.length ∧
      ∃ m, HashServed digest w.files ⟨[], 0⟩ ((objvs.map (hashRequest wide)).zip l) m ∧
        (objvs.length < 2 ^ 31 → (m.contexts.map HashContext.token).Nodup) := by
  have still : y.1.lost = false := (Safely.never_lost hashDeal_never run).trans calm
  obtain ⟨careful, ends⟩ := (hashSession_runs has).reaches run
  refine ⟨careful still, fun r done => ⟨(ends r done still).1, fun l known => ?_⟩⟩
  obtain ⟨length, m, served⟩ := (ends r done still).2 l known
  refine ⟨length, m, served, fun few => (HashServed.sound served .start).tokens ?_⟩
  have counted := HashServed.seq_le served
  rw [List.length_zip, List.length_map, length, min_self, Nat.zero_add] at counted
  exact Nat.lt_of_le_of_lt counted few

set_option maxRecDepth 4000 in
theorem hashSession_leaves_abc :
    ∃ r y, (hashLedger md5OfAbc).Reaches (hashSession (fun _ => none) hashAbc) hashStartWorld (.done r) y ∧
    y.1.spoiled = false ∧ ∃ v, HashHas 0 v y := by
  have ends : ((hashLedger md5OfAbc).finish (hashSession (fun _ => none) hashAbc) hashStartWorld
      (grantedHash md5OfAbc abcDigest 30)).isSome = true := by decide +kernel
  obtain ⟨⟨r, y⟩, finished⟩ := Option.isSome_iff_exists.mp ends
  have run := Host.finish_reaches finished
  have leaves := hashSession_leaves hashStartWorld_has rfl run
  exact ⟨r, y, run, leaves.1, (leaves.2 r rfl).1⟩

/-- The digests of a session are those of the data, of the file and of the
key; the digest of a context none of whose updates has failed in CNG is that
of all the updates it took one after another, whatever other contexts,
commands, refused updates and failures there were between them, in a session
of fewer than 2^31 commands. -/
theorem hashSession_digests {l : List HashReply} (has : HashHas F w x) (calm : x.1.lost = false)
    (run : (hashLedger digest).Reaches (hashSession wide objvs) x (.done (some l)) y) :
    l.length = objvs.length ∧ HashDigests digest w.files ((objvs.map (hashRequest wide)).zip l) := by
  have still : y.1.lost = false := (Safely.never_lost hashDeal_never run).trans calm
  obtain ⟨length, m, served⟩ := (((hashSession_runs has).reaches run).2 _ rfl still).2 l rfl
  exact ⟨length, served.digests⟩

/-- A digest in pieces, and the digest at once. -/
def isAbc : List HashReply → Bool
  | [.text _, .empty, .empty, .text d, .binary e] => d == hexText abcDigest && e == abcDigest
  | _ => false

set_option maxRecDepth 4000 in
theorem hashSession_digests_abc : ∃ l y,
    (hashLedger md5OfAbc).Reaches (hashSession (fun _ => none) hashAbc) hashStartWorld (.done (some l)) y ∧
      isAbc l = true ∧
      l.length = 5 ∧ HashDigests md5OfAbc (fun _ => none) ((hashAbc.map (hashRequest fun _ => none)).zip l) := by
  have ends : ((hashLedger md5OfAbc).finish (hashSession (fun _ => none) hashAbc) hashStartWorld
      (grantedHash md5OfAbc abcDigest 30)).any (fun r => r.1.any isAbc) = true := by decide +kernel
  obtain ⟨⟨r, y⟩, finished, good⟩ := (Option.any_eq_true _ _).mp ends
  obtain ⟨l, same, abc⟩ := (Option.any_eq_true _ _).mp good
  obtain rfl : r = some l := same
  have run := Host.finish_reaches finished
  exact ⟨l, y, run, abc, hashSession_digests hashStartWorld_has rfl run⟩

end

end Machteld
