import Mathlib.Logic.Relation
import Machteld.Pool.State

namespace Machteld

/-- The single changes the procedures make to a pool after the batch is
there. -/
inductive PoolMove : Pool → Pool → Prop
  | finished {s : Pool} (empty : s.pending = []) (idle : s.inflight = []) : PoolMove s { s with done := true }
  | taken {s : Pool} {c : Child} {item : PoolItem} {pending : List PoolItem} (live : c ∈ s.workers)
      (free : dictGet c s.inflight = none) (next : s.pending = item :: pending) :
      PoolMove s (poolTake s c item pending)
  | written {s : Pool} {c : Child} {item : PoolItem} (held : dictGet c s.inflight = some item) :
      PoolMove s { s with sent := s.sent ++ [(c, item)] }
  | lost {s : Pool} {c : Child} (live : c ∈ s.workers) : PoolMove s (poolLost s c)
  | spawned {s : Pool} : PoolMove s { s with workers := s.workers ++ [s.children], children := s.children + 1 }
  | stuck {s : Pool} {message : Bytes} (waiting : s.pending ≠ []) (reason : message ≠ []) (died : 0 < s.dead) :
      PoolMove s { s with fatal := message, done := true }
  | noted {s : Pool} (errbuf : List Char) (control : Option Child) :
      PoolMove s { s with errbuf := errbuf, control := control }

/-- What the procedures do is a row of such changes. -/
abbrev Pool.Moves : Pool → Pool → Prop := Relation.ReflTransGen PoolMove

theorem launch_message (c : Bytes) :
    (poolFail "launch" (ascii "pool: cannot start a worker: " ++ c)).message ≠ [] :=
  List.append_ne_nil_of_left_ne_nil (by decide) c

theorem poolCheckDone_moves (s : Pool) : Pool.Moves s (poolCheckDone s) := by
  unfold poolCheckDone
  split_ifs with empty
  · exact .single (.finished (List.isEmpty_iff.mp empty.1) (List.isEmpty_iff.mp empty.2))
  · exact .refl

/-- A replacement is a new worker that is fed, or a launch that has failed.
-/
theorem poolReplace_moves {feed : Pool → Child → Pool}
    (feeds : ∀ s c, c ∈ s.workers → Pool.Moves s (feed s c)) (spawn : Option Bytes) {s : Pool} (died : 0 < s.dead) :
    Pool.Moves s (poolReplace feed spawn s) := by
  unfold poolReplace
  split_ifs with empty
  · exact .refl
  · cases spawn with
    | some message =>
      have waiting : s.pending ≠ [] := fun same => empty (List.isEmpty_iff.mpr same)
      exact .single (.stuck waiting (launch_message message) died)
    | none =>
      have new : s.children ∈ s.workers ++ [s.children] := List.mem_append_right _ (List.mem_singleton.mpr rfl)
      exact .head .spawned (feeds _ s.children new)

theorem poolLost_dead (s : Pool) (c : Child) : (poolLost s c).dead = s.dead + 1 := by
  simp only [poolLost, poolRequeue]
  cases dictGet c s.inflight with
  | none => rfl
  | some item =>
    dsimp only
    split_ifs <;> rfl

/-- A death is a loss and then, where it may, a replacement. -/
theorem poolDied_moves {feed : Pool → Child → Pool}
    (feeds : ∀ s c, c ∈ s.workers → Pool.Moves s (feed s c)) (spawn : Option Bytes) (s : Pool) (c : Child) :
    Pool.Moves s (poolDied feed spawn s c) := by
  unfold poolDied
  split_ifs with live
  · have lost : Pool.Moves s (poolLost s c) := .single (.lost live)
    have died : 0 < (poolLost s c).dead := poolLost_dead s c ▸ Nat.succ_pos _
    exact (lost.trans (poolReplace_moves feeds spawn died)).trans (poolCheckDone_moves _)
  · exact .refl

/-- Feeding is a chain of takes, each lost again where its write fails. The
induction is on the writes, as a worker that is fed in place of a lost one
takes from the same queue. -/
theorem poolFeed_moves (failures : List (Option Bytes)) :
    ∀ (s : Pool) (c : Child), c ∈ s.workers → Pool.Moves s (poolFeed failures s c) := by
  induction failures with
  | nil =>
    intro s c live
    unfold poolFeed
    split_ifs with busy
    · exact .refl
    · have free := Option.not_isSome_iff_eq_none.mp busy
      cases next : s.pending with
      | nil => exact poolCheckDone_moves s
      | cons item pending =>
        have held : dictGet c (poolTake s c item pending).inflight = some item := by
          simp only [poolTake, dictGet_dictPut, if_true]
        exact .tail (.single (.taken live free next)) (.written held)
  | cons spawn failures ih =>
    intro s c live
    unfold poolFeed
    split_ifs with busy
    · exact .refl
    · have free := Option.not_isSome_iff_eq_none.mp busy
      cases next : s.pending with
      | nil => exact poolCheckDone_moves s
      | cons item pending => exact .head (.taken live free next) (poolDied_moves ih spawn _ c)

theorem poolReadable_moves (s : Pool) (c : Child) (info : Bool) (spawn : Option Bytes)
    (failures : List (Option Bytes)) :
    Pool.Moves s (poolReadable s c info spawn failures) := by
  unfold poolReadable
  split_ifs
  · exact .single (.noted s.errbuf (some c))
  · exact poolDied_moves (poolFeed_moves failures) spawn s c

section

variable {yy : Yyjson} {tcl : Tcl}

/-- A turn of the loop either takes a reply, to the item in flight on the
worker, or only makes single changes. -/
theorem poolTurn_cases {s : Pool} {c : Child} (live : ∀ item, dictGet c s.inflight = some item → c ∈ s.workers)
    (spawn : Option Bytes) (failures : List (Option Bytes)) (got : Gets) :
    Pool.Moves s (poolTurn yy tcl s c spawn failures got) ∨
      ∃ text item rep, got = .line text ∧ dictGet c s.inflight = some item ∧ readReply yy tcl text = some rep ∧
        getString yy tcl rep.id = decimal item.id ∧
        Pool.Moves (poolReceive s c rep) (poolTurn yy tcl s c spawn failures got) := by
  have protocol : ∀ what, Pool.Moves s
      (poolDied (poolFeed failures) spawn { poolProtocol s what with control := none } c) := by
    intro what
    exact .head (.noted _ none) (poolDied_moves (poolFeed_moves failures) spawn _ c)
  cases got with
  | raised => exact Or.inl (protocol _)
  | dry eof =>
    have left : PoolMove s { s with control := none } := .noted s.errbuf none
    simp only [poolTurn]
    split_ifs
    · exact Or.inl (.head left (poolDied_moves (poolFeed_moves failures) spawn _ c))
    · exact Or.inl (.head left (poolCheckDone_moves _))
  | line text =>
    cases text with
    | nil => exact Or.inl .refl
    | cons a text =>
      simp only [poolTurn]
      cases read : readReply yy tcl (a :: text) with
      | none => exact Or.inl (protocol _)
      | some rep =>
        cases held : dictGet c s.inflight with
        | none => exact Or.inl (protocol _)
        | some item =>
          dsimp only
          split_ifs with same
          · exact Or.inr ⟨_, item, rep, rfl, rfl, read, same, poolFeed_moves failures _ c (live item held)⟩
          · exact Or.inl (protocol _)

end

end Machteld
