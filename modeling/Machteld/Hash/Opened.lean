import Machteld.Ledger
import Machteld.Hash.Command

namespace Machteld

abbrev HashWorld := Ledger HashAsset × Cng

/-- All of it is known: what is held, and how the world is. -/
abbrev HashHas (M : Multiset HashAsset) (w : Cng) (x : HashWorld) : Prop := Exactly M w x

/-- Nothing that is held has changed. -/
structure Cng.Stays (F : Multiset HashAsset) (w v : Cng) : Prop where
  files : v.files = w.files
  objects : ∀ h, .hash h ∈ F → v.objects h = w.objects h
  channels : ∀ ch, .channel ch ∈ F → v.channels ch = w.channels ch

theorem Cng.feed_other {w : Cng} {h h' : Nat} {change : Option Bytes → Option Bytes} (other : h' ≠ h) :
    (w.feed h change).objects h' = w.objects h' := Function.update_of_ne other _ _

namespace Cng.Stays

variable {F G : Multiset HashAsset} {w v u : Cng}

theorem refl : w.Stays F w := ⟨rfl, fun _ _ => rfl, fun _ _ => rfl⟩

theorem trans (first : w.Stays F v) (second : v.Stays F u) : w.Stays F u :=
  ⟨second.files.trans first.files, fun h held => (second.objects h held).trans (first.objects h held),
    fun ch held => (second.channels ch held).trans (first.channels ch held)⟩

theorem less (stays : w.Stays G v) (part : F ≤ G) : w.Stays F v :=
  ⟨stays.files, fun h held => stays.objects h (Multiset.mem_of_le part held),
    fun ch held => stays.channels ch (Multiset.mem_of_le part held)⟩

theorem feed {h : Nat} {change : Option Bytes → Option Bytes} (other : .hash h ∉ F) : w.Stays F (w.feed h change) :=
  ⟨rfl, fun _ held => Cng.feed_other fun same => other (same ▸ held), fun _ _ => rfl⟩

theorem createHash {p h : Nat} {key : Bytes} (other : .hash h ∉ F) : w.Stays F (w.createHash p key h) :=
  ⟨rfl, fun h' held => Function.update_of_ne (fun same : h' = h => other (same ▸ held)) _ _, fun _ _ => rfl⟩

theorem readOn {ch : Nat} {rest : Bytes} (other : .channel ch ∉ F) : w.Stays F (w.readOn ch rest) :=
  ⟨rfl, fun _ _ => rfl, fun ch' held => Function.update_of_ne (fun same : ch' = ch => other (same ▸ held)) _ _⟩

end Cng.Stays

theorem HashHas.swap {M N : Multiset HashAsset} {w : Cng} {x : HashWorld} (has : HashHas M w x) (same : M = N) :
    HashHas N w x := Exactly.swap has same

section

variable (digest : HashAlg → Option Bytes → Bytes → Bytes)

abbrev HashRuns {α : Type} (p : HashM α) (post : α → HashWorld → Prop) (x : HashWorld) : Prop :=
  Safely (hashHost digest) hashDeal p post x

variable {digest}

theorem hashFollows : (hashHost digest).Follows (hashEffect digest) where
  still _ m := m.elim
  acts c choice w a v acted := by
    obtain ⟨u, same, pair⟩ := Option.map_eq_some_iff.mp acted
    obtain ⟨rfl, rfl⟩ := Prod.mk.inj pair
    exact same

theorem hashHost_stable (K : Cng → Prop) : (hashHost digest).Stable K := hashFollows.still K

variable {α β : Type} {x : HashWorld} {w : Cng} {N G F : Multiset HashAsset} {post : α → HashWorld → Prop}

theorem HashHas.call {c : HashCall} {f : c.Answer → HashM α} {T : c.Answer → Multiset HashAsset}
    (has : HashHas (G + F) w x)
    (deals : ∀ a, hashDeal c a = { needs := N, gives := G, takes := T a }) (needs : ∀ r ∈ N, r ∈ G + F)
    (next : ∀ a v y, hashEffect digest w c a = some v → HashHas (T a + F) v y → HashRuns digest (f a) post y) :
    HashRuns digest (HashCall.ask c >>= f) post x := hashFollows.call has deals needs next

/-- A call that gives something back. -/
theorem HashHas.give {c : HashCall} {f : c.Answer → HashM α} {r : HashAsset} (has : HashHas ({r} + F) w x)
    (deals : ∀ a, hashDeal c a = { gives := {r} }) (quiet : ∀ a, hashEffect digest w c a = some w)
    (next : ∀ a y, HashHas F w y → HashRuns digest (f a) post y) :
    HashRuns digest (HashCall.ask c >>= f) post x := hashFollows.give has deals quiet next

/-- A call that works with what is held. -/
theorem HashHas.use {c : HashCall} {f : c.Answer → HashM α} (has : HashHas F w x)
    (deals : ∀ a, hashDeal c a = { needs := N }) (needs : ∀ r ∈ N, r ∈ F)
    (next : ∀ a v y, hashEffect digest w c a = some v → HashHas F v y → HashRuns digest (f a) post y) :
    HashRuns digest (HashCall.ask c >>= f) post x := hashFollows.use has deals needs next

/-- A call that makes something. -/
theorem HashHas.take {c : HashCall} {f : c.Answer → HashM α} {T : c.Answer → Multiset HashAsset}
    (has : HashHas F w x)
    (deals : ∀ a, hashDeal c a = { takes := T a })
    (next : ∀ a v y, hashEffect digest w c a = some v → HashHas (T a + F) v y → HashRuns digest (f a) post y) :
    HashRuns digest (HashCall.ask c >>= f) post x :=
  hashFollows.take has deals (fun _ none' => absurd none' (Multiset.notMem_zero _)) next

theorem HashHas.done {a : α} (has : HashHas F w x) (wanted : ∀ y, HashHas F w y → post a y) :
    HashRuns digest (pure a : HashM α) post x := hashFollows.done has wanted

/-- What `alg_open` leaves. -/
def HashOpened (alg : HashAlg) (key : Option Bytes) (F : Multiset HashAsset) (w : Cng) :
    Except TclError HashOpen → HashWorld → Prop
  | .error _, y => ∃ v, w.Stays F v ∧ HashHas F v y
  | .ok o, y => ∃ v, w.Stays F v ∧ v.objects o.h = some ⟨alg, key, some []⟩ ∧
      HashHas ({.hash o.h} + ({.provider o.algH} + F)) v y

theorem closeProvider_gives {p : Nat} {err : TclError} {alg : HashAlg} {key : Option Bytes} {v : Cng}
    (stays : w.Stays F v)
    (has : HashHas ({.provider p} + F) v x) :
    HashRuns digest (do HashCall.ask (.closeProvider p); return .error err) (HashOpened alg key F w) x :=
  has.give (fun _ => rfl) (fun _ => rfl) fun _ _ later => later.done fun _ later => ⟨v, stays, later⟩

theorem Cng.createHash_object {p h : Nat} {alg : HashAlg} {key : Option (Nat × Bytes)} :
    ((w.openProvider p alg key.isSome).createHash p (key.elim [] Prod.snd) h).objects h =
      some ⟨alg, key.map Prod.snd, some []⟩ := by
  simp only [createHash, openProvider, Function.update_self, Option.map_some]
  cases key <;> rfl

/-- An algorithm is opened with its object, or nothing more is held than
before; with a key the object is a keyed one. -/
theorem algOpen_runs {alg : HashAlg} (key : Option (Nat × Bytes)) (has : HashHas F w x)
    (held : ∀ k ∈ key, .scratch k.1 ∈ F) : HashRuns digest (algOpen alg key)
    (HashOpened alg (key.map Prod.snd) F w) x := by
  refine has.take (fun _ => rfl) fun provider v y effect has => ?_
  cases provider with
  | none =>
    obtain rfl := Option.some.inj effect
    exact HashHas.done (has.swap (zero_add F)) fun y later => ⟨w, .refl, later⟩
  | some p =>
    obtain rfl := Option.some.inj effect
    have opened : w.Stays F (w.openProvider p alg key.isSome) := ⟨rfl, fun _ _ => rfl, fun _ _ => rfl⟩
    have there : .provider p ∈ ({.provider p} + F : Multiset HashAsset) := by simp
    have has : HashHas ({.provider p} + F) (w.openProvider p alg key.isSome) y := has
    refine has.use (fun _ => rfl) (fun r same => Multiset.mem_singleton.mp same ▸ there)
      fun length v y effect has => ?_
    obtain rfl := Option.some.inj effect
    cases length with
    | none => exact closeProvider_gives opened has
    | some n =>
      change HashRuns digest (if _ then _ else _) _ y
      split
      · exact closeProvider_gives opened has
      split
      · exact closeProvider_gives opened has
      refine HashHas.call (G := 0) (has.swap (zero_add _).symm) (fun a => rfl)
        (fun r member => ?_) fun h v y effect has => ?_
      · rw [zero_add]
        rcases Multiset.mem_add.mp member with same | used
        · exact Multiset.mem_add.mpr (.inl same)
        · cases key with
          | none => exact absurd used (Multiset.notMem_zero _)
          | some k => exact Multiset.mem_add.mpr (.inr (Multiset.mem_singleton.mp used ▸ held k rfl))
      · cases h with
        | none =>
          obtain rfl := Option.some.inj effect
          exact closeProvider_gives opened (has.swap (zero_add _))
        | some h =>
          obtain rfl := Option.some.inj effect
          have has : HashHas ({.hash h} + ({.provider p} + F)) _ y := has
          have other : .hash h ∉ F := fun inside => has.fresh (Multiset.mem_add.mpr (.inr inside))
          exact has.done fun y later => ⟨_, opened.trans (.createHash other), Cng.createHash_object, later⟩

end

end Machteld
