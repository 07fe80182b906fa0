import Mathlib.Tactic.Abel
import Machteld.Hash.Model
import Machteld.Hash.Opened

namespace Machteld

/-- A good answer or an error, with what was held before. -/
def HashAnswered (good : HashReply → Prop) (F : Multiset HashAsset) (w : Cng) (reply : HashReply)
    (y : HashWorld) : Prop :=
  (reply.Fails ∨ good reply) ∧ ∃ v, w.Stays F v ∧ HashHas F v y

def keyHeld (k : Option (Nat × Bytes)) : Multiset HashAsset := k.elim 0 fun k => {.scratch k.1}

section

variable {digest : HashAlg → Option Bytes → Bytes → Bytes} {x : HashWorld} {w v : Cng} {F M : Multiset HashAsset}
  {good : HashReply → Prop}

theorem HashHas.fail {err : TclError} (has : HashHas F v x) (stays : w.Stays F v) :
    HashRuns digest (pure (.error err)) (HashAnswered good F w) x :=
  has.done fun _ later => ⟨.inl trivial, v, stays, later⟩

/-- A digest is shown in hexadecimal or as it is, unless the object for it fails.
-/
theorem digestObj_runs {d : Bytes} {binary : Bool} (has : HashHas F v x) (stays : w.Stays F v)
    (wanted : good (digestShown d binary)) : HashRuns digest (digestObj d binary) (HashAnswered good F w) x := by
  have shown : ∀ {y}, HashHas F v y → HashRuns digest (pure (digestShown d binary)) (HashAnswered good F w) y :=
    fun has => has.done fun _ later => ⟨.inr wanted, v, stays, later⟩
  cases binary with
  | true => exact shown has
  | false =>
    refine has.take (fun _ => rfl) fun b u y effect has => ?_
    obtain rfl := Option.some.inj effect
    cases b with
    | none => exact HashHas.fail (has.swap (zero_add F)) stays
    | some b =>
      have has : HashHas ({.block b} + F) v y := has
      exact has.give (fun _ => rfl) (fun _ => rfl) fun _ _ has => shown has

/-- A key is copied before the object is opened and holds its bytes. -/
theorem keyBytes_runs {key : Option TclValue} (has : HashHas F w x) :
    HashRuns digest (keyBytes key) (fun k y => k.map Prod.snd = key.map TclValue.valueBytes ∧
      HashHas (keyHeld k + F) w y) x := by
  cases key with
  | none => exact has.done fun _ later => ⟨rfl, later.swap (zero_add F).symm⟩
  | some key =>
    refine has.take (fun _ => rfl) fun s u y effect has => ?_
    obtain rfl := Option.some.inj effect
    exact has.done fun _ later => ⟨rfl, later⟩

theorem keyFree_runs {k : Option (Nat × Bytes)} (has : HashHas (keyHeld k + F) w x) :
    HashRuns digest (keyFree k) (fun _ y => HashHas F w y) x := by
  cases k with
  | none => exact (has.swap (zero_add F)).done fun _ later => later
  | some k =>
    have has : HashHas ({.scratch k.1} + F) w x := has
    change HashRuns digest (HashCall.ask (.scratchFree k.1) >>= pure) _ x
    exact has.give (fun _ => rfl) (fun _ => rfl) fun _ _ has => has.done fun _ later => later

/-- Both strings are given back. -/
theorem keyThenData_runs {α : Type} {k : Option (Nat × Bytes)} {s : Nat} {p : HashM α} {post : α → HashWorld → Prop}
    (has : HashHas ({.scratch s} + (keyHeld k + F)) w x) (next : ∀ y, HashHas F w y → HashRuns digest p post y) :
    HashRuns digest (do keyFree k; HashCall.ask (.scratchFree s); p) post x := by
  refine Safely.andThen (keyFree_runs (has.swap (add_left_comm _ _ _))) fun _ y has => ?_
  exact has.give (fun _ => rfl) (fun _ => rfl) fun _ y has => next y has

/-- The object and its provider are given back. -/
theorem closeOpen_runs {α : Type} {o : HashOpen} {p : HashM α} {post : α → HashWorld → Prop}
    (has : HashHas ({.hash o.h} + ({.provider o.algH} + F)) w x)
    (next : ∀ y, HashHas F w y → HashRuns digest p post y) :
    HashRuns digest (do HashCall.ask (.destroyHash o.h); HashCall.ask (.closeProvider o.algH); p) post x :=
  has.give (fun _ => rfl) (fun _ => rfl) fun _ _ has =>
    has.give (fun _ => rfl) (fun _ => rfl) fun _ y has => next y has

/-- Whatever is still known of an object is what its digest is of. -/
def Digested (digest : HashAlg → Option Bytes → Bytes → Bytes) (M F : Multiset HashAsset) (w : Cng) (alg : HashAlg)
    (key data : Option Bytes) (out : Option Bytes) (y : HashWorld) : Prop :=
  (∃ v, w.Stays F v ∧ HashHas M v y) ∧ ∀ d ∈ out, ∀ known ∈ data, d = digest alg key known

/-- CNG gives the digest of what the object was fed. -/
theorem finishHash_runs {h n : Nat} {alg : HashAlg} {key data : Option Bytes} (has : HashHas M w x)
    (own : .hash h ∈ M)
    (other : .hash h ∉ F) (object : w.objects h = some ⟨alg, key, data⟩) :
    HashRuns digest (HashCall.ask (.finishHash h n)) (Digested digest M F w alg key data) x := by
  change HashRuns digest (HashCall.ask (.finishHash h n) >>= pure) _ x
  refine has.use (fun _ => rfl) (fun r same => Multiset.mem_singleton.mp same ▸ own) fun out v y effect has => ?_
  cases out with
  | none =>
    obtain rfl := Option.some.inj effect
    exact has.done fun _ later => ⟨⟨_, .feed other, later⟩, fun _ none' => by cases none'⟩
  | some out =>
    obtain ⟨⟨-, equal⟩, rfl⟩ := Option.ite_none_right_eq_some.mp effect |>.imp id Option.some.inj
    refine has.done fun _ later => ⟨⟨_, .feed other, later⟩, fun d same known inside => ?_⟩
    obtain rfl := Option.some.inj same
    exact equal _ object known inside

theorem hashData_uses {h : Nat} {source : Option Nat} (own : .hash h ∈ M) (held : ∀ s ∈ source, .scratch s ∈ M) :
    ∀ r ∈ {HashAsset.hash h} + source.elim (0 : Multiset HashAsset) (fun s => {.scratch s}), r ∈ M := by
  intro r member
  rcases Multiset.mem_add.mp member with same | used
  · exact Multiset.mem_singleton.mp same ▸ own
  · cases source with
    | none => exact absurd used (Multiset.notMem_zero _)
    | some s => exact Multiset.mem_singleton.mp used ▸ held s rfl

/-- What an object has taken is in it, behind what there was. -/
theorem Cng.feed_object {h : Nat} {alg : HashAlg} {key before : Option Bytes} {change : Option Bytes → Option Bytes}
    (object : w.objects h = some ⟨alg, key, before⟩) :
    (w.feed h change).objects h = some ⟨alg, key, change before⟩ := by
  simp only [feed, Function.update_self, object, Option.map_some]

/-- A value is fed as a whole. -/
theorem hashWhole_runs {o : HashOpen} {s : Nat} {alg : HashAlg} {key : Option Bytes} {data : Bytes}
    (has : HashHas M w x)
    (own : .hash o.h ∈ M) (held : .scratch s ∈ M) (other : .hash o.h ∉ F)
    (object : w.objects o.h = some ⟨alg, key, some []⟩) :
    HashRuns digest (hashWhole o s data) (Digested digest M F w alg key (some data)) x := by
  have uses := hashData_uses own (fun s' same => Option.some.inj same ▸ held : ∀ s' ∈ some s, .scratch s' ∈ M)
  refine has.use (fun _ => rfl) uses fun taken v y effect has => ?_
  obtain rfl := Option.some.inj effect
  cases taken with
  | false => exact has.done fun _ later => ⟨⟨_, .feed other, later⟩, fun _ none' => by cases none'⟩
  | true =>
    refine Safely.mono (fun out y done => ?_) (finishHash_runs has own other (Cng.feed_object object))
    obtain ⟨⟨v, stays, later⟩, equal⟩ := done
    exact ⟨⟨v, (Cng.Stays.feed other).trans stays, later⟩, equal⟩

/-- `hash sum` and `hash hmac` answer with the digest of the value. -/
theorem hashOnce_runs {alg : HashAlg} {key : Option TclValue} {data : TclValue} {binary : Bool}
    (has : HashHas F w x) :
    HashRuns digest (hashOnce alg key data binary)
      (HashAnswered (fun reply => reply = digestShown (digest alg (key.map TclValue.valueBytes) data.valueBytes)
        binary) F w) x := by
  refine Safely.andThen (keyBytes_runs has) fun k y done => ?_
  obtain ⟨keyed, has⟩ := done
  refine has.take (fun _ => rfl) fun s v y effect has => ?_
  obtain rfl := Option.some.inj effect
  have has : HashHas ({.scratch s} + (keyHeld k + F)) w y := has
  change HashRuns digest (if _ then _ else _) _ y
  split
  · exact keyThenData_runs has fun y has => has.fail .refl
  refine Safely.andThen (algOpen_runs k has fun k' same => ?_) fun opened y done => ?_
  · obtain rfl : k = some k' := same
    simp [keyHeld]
  cases opened with
  | error err =>
    obtain ⟨v, stays, has⟩ := done
    exact keyThenData_runs has fun y has =>
      has.fail (stays.less ((Multiset.le_add_left _ _).trans (Multiset.le_add_left _ _)))
  | ok o =>
    obtain ⟨v, stays, object, has⟩ := done
    have part : F ≤ {.scratch s} + (keyHeld k + F) := (Multiset.le_add_left _ _).trans (Multiset.le_add_left _ _)
    have other : .hash o.h ∉ F :=
      fun inside => has.fresh (Multiset.mem_add.mpr (.inr (Multiset.mem_of_le part inside)))
    refine Safely.andThen (hashWhole_runs has (by simp) (by simp) other object) fun out y done => ?_
    obtain ⟨⟨u, later, has⟩, equal⟩ := done
    have kept : w.Stays F u := (stays.less part).trans later
    have order : {.hash o.h} + ({.provider o.algH} + ({.scratch s} + (keyHeld k + F))) =
        {.scratch s} + (keyHeld k + ({HashAsset.hash o.h} + ({.provider o.algH} + F))) := by abel
    refine keyThenData_runs (has.swap order) fun y has => closeOpen_runs has fun y has => ?_
    cases out with
    | none => exact has.fail kept
    | some d =>
      refine digestObj_runs has kept ?_
      rw [← keyed, equal d rfl _ rfl]

end

section

variable {digest : HashAlg → Option Bytes → Bytes → Bytes} {x : HashWorld} {w v : Cng} {F M : Multiset HashAsset}

/-- How far a file has been read: what went into the object, and what is
left. -/
def HashedSoFar (F : Multiset HashAsset) (w : Cng) (alg : HashAlg) (content : Bytes) (ch h : Nat)
    (v : Cng) : Prop :=
  w.Stays F v ∧ ∃ before rest, before ++ rest = content ∧ v.objects h = some ⟨alg, none, some before⟩ ∧
    v.channels ch = some rest

theorem HashedSoFar.readOn {alg : HashAlg} {content buf : Bytes} {ch h : Nat} (other : .channel ch ∉ F)
    (object : .hash h ∉ F)
    (sofar : HashedSoFar F w alg content ch h v) (front : buf <+: (v.channels ch).getD []) :
    HashedSoFar F w alg content ch h
      ((v.readOn ch (((v.channels ch).getD []).drop buf.length)).feed h fun before => before.map (· ++ buf)) := by
  obtain ⟨stays, before, rest, rfl, known, left⟩ := sofar
  rw [left, Option.getD_some] at front ⊢
  obtain ⟨rest, rfl⟩ := front
  refine ⟨(stays.trans (.readOn other)).trans (.feed object), before ++ buf, rest, List.append_assoc _ _ _, ?_, ?_⟩
  · exact Cng.feed_object (w := v.readOn ch _) known
  · rw [List.drop_left]
    exact Function.update_self _ _ _

/-- Whatever the pieces are that the file comes in, all of it goes into the
object. -/
theorem hashChannel_runs {alg : HashAlg} {content : Bytes} {ch h : Nat} (has : HashHas M w x) (own : .hash h ∈ M)
    (held : .channel ch ∈ M) (other : .channel ch ∉ F) (object : .hash h ∉ F)
    (fresh : w.objects h = some ⟨alg, none, some []⟩) (whole : w.channels ch = some content) :
    HashRuns digest (hashChannel ch h) (fun failed y => ∃ v, w.Stays F v ∧ HashHas M v y ∧
      (failed = false → v.objects h = some ⟨alg, none, some content⟩)) x := by
  have same : hashChannel ch h = hashChannel ch h >>= pure := (Prog.bind_done _).symm
  rw [same, hashChannel]
  refine Safely.iterate (fun _ => M) (fun _ => []) (fun _ => HashedSoFar F w alg content ch h)
    (fun _ => hashHost_stable _)
    ⟨has.clean, has.mine, has.single, has.running, has.uses, ?_⟩ fun _ y holds => ?_
  · rw [has.knows]
    exact ⟨.refl, [], content, rfl, fresh, whole⟩
  obtain ⟨has, sofar⟩ := holds.exactly
  refine HashHas.use has (fun _ => rfl) (fun r same => Multiset.mem_singleton.mp same ▸ held)
    fun answer u z effect has => ?_
  match answer with
  | none =>
    obtain rfl := Option.some.inj effect
    exact has.done fun _ later => later.done fun _ last => ⟨_, sofar.1, last, fun none' => by cases none'⟩
  | some [] =>
    obtain ⟨⟨-, -, ended⟩, same⟩ := Option.ite_none_right_eq_some.mp effect
    obtain rfl := Option.some.inj same
    obtain ⟨stays, before, rest, rfl, known, left⟩ := sofar
    have ended := ended rfl
    rw [left, Option.getD_some] at ended
    subst ended
    rw [List.append_nil]
    exact has.done fun _ later => later.done fun _ last => ⟨_, stays.trans (.readOn other), last, fun _ => known⟩
  | some (b :: buf) =>
    obtain ⟨⟨front, -, -⟩, same⟩ := Option.ite_none_right_eq_some.mp effect
    obtain rfl := Option.some.inj same
    have uses := hashData_uses own fun s none' => absurd none' (Option.not_mem_none s)
    refine has.use (fun _ => rfl) uses fun taken u z effect has => ?_
    obtain rfl := Option.some.inj effect
    cases taken with
    | false =>
      exact has.done fun _ later => later.done fun _ last =>
        ⟨_, (sofar.1.trans (.readOn other)).trans (.feed object), last, fun none' => by cases none'⟩
    | true =>
      refine has.done fun _ later => ⟨later.clean, later.mine, later.single, later.running, later.uses, ?_⟩
      rw [later.knows]
      exact sofar.readOn other object front

theorem finishUnless_runs {failed : Bool} {o : HashOpen} {alg : HashAlg} {key : Option Bytes} {data : Bytes}
    (has : HashHas M w x) (own : .hash o.h ∈ M) (other : .hash o.h ∉ F)
    (object : failed = false → w.objects o.h = some ⟨alg, key, some data⟩) :
    HashRuns digest (finishUnless failed o) (Digested digest M F w alg key (some data)) x := by
  cases failed with
  | true => exact has.done fun _ later => ⟨⟨w, .refl, later⟩, fun _ none' => by cases none'⟩
  | false => exact finishHash_runs has own other (object rfl)

/-- A channel that is of no more use. -/
theorem closeChannel_fails {ch : Nat} {err : TclError} {good : HashReply → Prop}
    (has : HashHas ({.channel ch} + F) v x)
    (stays : w.Stays F v) :
    HashRuns digest (do let _ ← HashCall.ask (.closeChannel ch); return .error err) (HashAnswered good F w) x :=
  has.give (fun _ => rfl) (fun _ => rfl) fun _ _ has => has.fail stays

/-- A file is read in pieces, and the digest is that of its content. The
invariant of the loop is that what was fed is what was read, so how the file
was cut does not matter. -/
theorem hashFile_runs {alg : HashAlg} {path : TclValue} {binary : Bool} (has : HashHas F w x) :
    HashRuns digest (hashFile alg path binary) (HashAnswered (fun reply =>
      ∃ content, w.files path.string = some content ∧
        reply = digestShown (digest alg none content) binary) F w) x := by
  refine has.take (fun _ => rfl) fun opened v y effect has => ?_
  cases opened with
  | error absent =>
    obtain rfl := Option.some.inj effect
    exact HashHas.fail (has.swap (zero_add F)) .refl
  | ok ch =>
    obtain ⟨content, file, rfl⟩ := Option.map_eq_some_iff.mp effect
    have has : HashHas ({.channel ch} + F) (w.readOn ch content) y := has
    have other := has.fresh
    have whole : (w.readOn ch content).channels ch = some content := Function.update_self _ _ _
    refine has.use (fun _ => rfl) (fun r same => Multiset.mem_singleton.mp same ▸ Multiset.mem_cons_self _ _)
      fun failed u y effect has => ?_
    obtain rfl := Option.some.inj effect
    cases failed with
    | some err => exact closeChannel_fails has (.readOn other)
    | none =>
    refine Safely.andThen (algOpen_runs none has fun k none' => absurd none' (Option.not_mem_none k))
      fun opened y done => ?_
    have part : F ≤ {.channel ch} + F := Multiset.le_add_left _ _
    cases opened with
    | error err =>
      obtain ⟨u, stays, has⟩ := done
      exact closeChannel_fails has ((Cng.Stays.readOn other).trans (stays.less part))
    | ok o =>
      obtain ⟨u, stays, object, has⟩ := done
      have read : w.Stays F (w.readOn ch content) := .readOn other
      have opened := read.trans (stays.less part)
      have apart : .hash o.h ∉ F := fun inside => has.fresh (by simp [inside])
      have whole := (stays.channels ch (Multiset.mem_add.mpr (.inl (Multiset.mem_singleton_self _)))).trans whole
      refine Safely.andThen (hashChannel_runs has (by simp) (by simp) other apart object whole)
        fun failed y done => ?_
      obtain ⟨v, later, has, known⟩ := done
      have order : {.hash o.h} + ({.provider o.algH} + ({.channel ch} + F)) =
          {HashAsset.channel ch} + ({.hash o.h} + ({.provider o.algH} + F)) := by abel
      refine HashHas.give (has.swap order) (fun _ => rfl) (fun _ => rfl) fun closed y has => ?_
      have finished : (failed || !closed) = false → v.objects o.h = some ⟨alg, none, some content⟩ := fun good =>
        known (Bool.or_eq_false_iff.mp good).1
      refine Safely.andThen (finishUnless_runs has (by simp) apart finished) fun out y done => ?_
      obtain ⟨⟨u, last, has⟩, equal⟩ := done
      have kept := (opened.trans later).trans last
      refine closeOpen_runs has fun y has => ?_
      cases out with
      | none => exact has.fail kept
      | some d => exact digestObj_runs has kept ⟨content, file, by rw [equal d rfl _ rfl]⟩

/-- The bytes of a random number are as many as were asked for. -/
theorem hashRandom_runs {n : Nat} (has : HashHas F w x) : HashRuns digest (hashRandom n)
    (HashAnswered (fun reply => ∃ out : Bytes, out.length = n ∧ reply = .binary out) F w) x := by
  refine has.take (fun _ => rfl) fun b v y effect has => ?_
  obtain rfl := Option.some.inj effect
  cases b with
  | none => exact HashHas.fail (has.swap (zero_add F)) .refl
  | some b =>
    have has : HashHas ({.block b} + F) w y := has
    refine has.use (fun _ => rfl) (fun r same => Multiset.mem_singleton.mp same ▸ Multiset.mem_cons_self _ _)
      fun answer u y effect has => ?_
    obtain ⟨right, same⟩ := Option.ite_none_right_eq_some.mp effect
    obtain rfl := Option.some.inj same
    cases answer with
    | none => exact has.give (fun _ => rfl) (fun _ => rfl) fun _ y has => has.fail .refl
    | some out =>
      exact has.give (fun _ => rfl) (fun _ => rfl) fun _ y has => has.done fun _ later =>
        ⟨.inr ⟨out, of_decide_eq_true right, rfl⟩, _, .refl, later⟩

end

end Machteld
