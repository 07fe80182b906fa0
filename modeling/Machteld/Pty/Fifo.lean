import Machteld.Pty.State

namespace Machteld

open Pty Host

/-- What the child has written is what has been returned, then the retained
queue, then the pipe. -/
structure PtyFifo (out : Bytes) (p : Pty) (w : PtyWorld) : Prop where
  stream : out ++ p.queued.flatten ++ w.pipe = w.written
  counted : p.queuedBytes = p.queued.flatten.length
  within : p.queuedBytes ≤ ptySendQueueLimit
  small : w.pipe.length < 0x100000000

abbrev PtyEnsures {α : Type} (p : PtyProg α) (post : α → PtyWorld → Prop) (w : PtyWorld) : Prop :=
  ptyHost.Ensures (fun _ => True) p post w

variable {out : Bytes} {p : Pty} {w : PtyWorld}

/-- What the child writes meanwhile comes behind all that has been read or
is queued. -/
theorem PtyFifo.moves (m : PtyMove) (w v : PtyWorld) (fifo : PtyFifo out p w) (moves : ptyHost.move m w = some v) :
    PtyFifo out p v := by
  cases m with
  | write bytes =>
    simp only [ptyHost] at moves
    split_ifs at moves with room
    obtain rfl := Option.some.inj moves
    exact ⟨by rw [← fifo.stream, List.append_assoc _ w.pipe], fifo.counted, fifo.within,
      by rw [List.length_append]; exact room⟩
  | state broken =>
    obtain rfl := Option.some.inj moves
    exact ⟨fifo.stream, fifo.counted, fifo.within, fifo.small⟩

theorem PtyFifo.done {α : Type} {a : α} {post : α → PtyWorld → Prop} (fifo : PtyFifo out p w)
    (wanted : ∀ v, PtyFifo out p v → post a v) : PtyEnsures (Pure.pure a) post w :=
  Ensures.pure PtyFifo.moves (fun _ _ => trivial) fifo wanted

/-- Only a read takes bytes from the pipe. -/
theorem ptyHost_still {c : PtyCall} (other : ∀ want, c ≠ .readFile want) {choice : ptyHost.Choice} {a : c.Answer}
    {v u : PtyWorld} (acts : ptyHost.act c choice v = some (a, u)) : v = u := by
  cases c with
  | readFile want => exact absurd rfl (other want)
  | peekNamedPipe =>
    simp only [ptyHost] at acts
    cases broken : v.broken with
    | none =>
      rw [broken] at acts
      exact (Prod.mk.inj (Option.some.inj acts)).2
    | some e =>
      rw [broken] at acts
      exact (Prod.mk.inj (Option.some.inj acts)).2
  | _ => exact (Prod.mk.inj (Option.some.inj acts)).2

/-- A call that leaves the pipe alone. -/
theorem PtyFifo.ask {α : Type} {c : PtyCall} {f : c.Answer → PtyProg α} {post : α → PtyWorld → Prop}
    (fifo : PtyFifo out p w) (other : ∀ want, c ≠ .readFile want)
    (answered : ∀ a v, PtyFifo out p v → PtyEnsures (f a) post v) : PtyEnsures (Prog.ask c >>= f) post w :=
  Ensures.ask PtyFifo.moves (fun _ _ => trivial) fifo fun choice a v u holds acts => by
    obtain rfl := ptyHost_still other acts
    exact answered a v holds

/-- A read takes a prefix of the pipe, or nothing. -/
theorem PtyFifo.read {α : Type} {want : Nat} {f : Except Nat Bytes → PtyProg α} {post : α → PtyWorld → Prop}
    (fifo : PtyFifo out p w) (failed : ∀ e v, PtyFifo out p v → PtyEnsures (f (.error e)) post v)
    (got : ∀ bytes v, bytes.length ≤ want → PtyFifo out p { v with pipe := bytes ++ v.pipe } →
      PtyEnsures (f (.ok bytes)) post v) : PtyEnsures (readFile want >>= f) post w :=
  Ensures.ask (S := ptyHost) (c := PtyCall.readFile want) PtyFifo.moves (fun _ _ => trivial) fifo
    fun choice a v u holds acts => by
    simp only [ptyHost] at acts
    cases proposed : choice (.readFile want) with
    | error e =>
      rw [proposed] at acts
      obtain ⟨rfl, rfl⟩ := Prod.mk.inj (Option.some.inj acts)
      exact failed e v holds
    | ok bytes =>
      rw [proposed] at acts
      simp only at acts
      split_ifs at acts with takes
      obtain ⟨rfl, rfl⟩ := Prod.mk.inj (Option.some.inj acts)
      obtain ⟨-, few, front⟩ := takes
      obtain ⟨rest, same⟩ := List.isPrefixOf_iff_prefix.mp front
      refine got bytes _ few ?_
      rw [← same, List.drop_left, same]
      exact ⟨holds.stream, holds.counted, holds.within, holds.small⟩

/-- What a read has taken goes to the end of the queue. -/
theorem PtyFifo.capture {chunk : Bytes} (fifo : PtyFifo out p { w with pipe := chunk ++ w.pipe })
    (room : chunk.length ≤ ptySendQueueLimit - p.queuedBytes) :
    PtyFifo out { p with queued := p.queued ++ [chunk], queuedBytes := p.queuedBytes + chunk.length } w where
  stream := by
    rw [← fifo.stream]
    simp only [List.flatten_append, List.flatten_singleton, List.append_assoc]
  counted := by
    rw [List.flatten_append, List.length_append, ← fifo.counted, List.flatten_singleton]
  within := by
    have within := fifo.within
    simp only at within ⊢
    omega
  small := by
    have small := fifo.small
    rw [List.length_append] at small
    omega

/-- What a read has taken is returned. -/
theorem PtyFifo.give {bytes : Bytes} (fifo : PtyFifo out p { w with pipe := bytes ++ w.pipe })
    (empty : p.queued = []) :
    PtyFifo (out ++ bytes) p w where
  stream := by
    rw [← fifo.stream, empty]
    simp only [List.flatten_nil, List.append_nil, List.append_assoc]
  counted := fifo.counted
  within := fifo.within
  small := by
    have small := fifo.small
    rw [List.length_append] at small
    omega

/-- Draining moves bytes from the pipe to the end of the queue, as long as
the queue has room. The bytes returned, queued and in the pipe are the same
stream behind it. -/
theorem ptyOutputCapture_fifo (fifo : PtyFifo out p w) :
    PtyEnsures (ptyOutputCapture p) (fun r u => PtyFifo out r.1 u) w := by
  refine fifo.ask (c := .peekNamedPipe) nofun fun answer v fifo => ?_
  cases answer with
  | error e => exact fifo.done fun _ fifo => fifo
  | ok available =>
    simp only
    split_ifs with idle full exceeds
    · exact fifo.done fun _ fifo => fifo
    · exact fifo.done fun _ fifo => fifo
    · exact fifo.done fun _ fifo => fifo
    refine fifo.ask (c := .malloc) nofun fun memory v fifo => ?_
    cases memory with
    | false => exact fifo.done fun _ fifo => fifo
    | true =>
      refine fifo.read (fun e v fifo => fifo.done fun _ fifo => fifo) fun chunk v few fifo => ?_
      simp only
      split_ifs with empty
      · subst empty
        exact PtyFifo.done fifo fun _ fifo => fifo
      · exact (fifo.capture (Nat.le_trans few (Nat.min_le_right _ _))).done fun _ fifo => fifo

/-- One turn of a send drains the output into the queue and loses none of
it. -/
theorem ptySendTurn_fifo (fifo : PtyFifo out p w) :
    PtyEnsures (ptySendTurn p)
      (fun r u => Sum.elim (fun p => PtyFifo out p u) (fun r => PtyFifo out r.1 u) r) w := by
  refine fifo.ask (c := .waitThread 0) nofun fun status v fifo => ?_
  cases status with
  | object => exact fifo.done fun _ fifo => fifo
  | failed e => exact fifo.done fun _ fifo => fifo
  | timeout =>
    refine Ensures.bind ((ptyOutputCapture_fifo fifo).mono fun r v fifo => ?_)
    obtain ⟨p, status⟩ := r
    cases status with
    | error e => exact fifo.done fun _ fifo => fifo
    | captured => exact fifo.done fun _ fifo => fifo
    | limit =>
      refine fifo.ask (c := .waitThread 0) nofun fun status v fifo => ?_
      cases status <;> exact fifo.done fun _ fifo => fifo
    | empty =>
      refine fifo.ask (c := .waitThread 10) nofun fun status v fifo => ?_
      cases status <;> exact fifo.done fun _ fifo => fifo

/-- Waiting for a cancelled write reads nothing. -/
theorem ptyCancelTurn_fifo (fifo : PtyFifo out p w) :
    PtyEnsures (ptyCancelTurn ()) (fun r u => Sum.elim (fun _ => PtyFifo out p u)
      (fun _ => PtyFifo out p u) r) w := by
  refine fifo.ask (c := .cancelSynchronousIo) nofun fun _ v fifo => ?_
  refine fifo.ask (c := .waitThread 50) nofun fun status v fifo => ?_
  cases status with
  | object => exact fifo.done fun _ fifo => fifo
  | timeout => exact fifo.done fun _ fifo => fifo
  | failed e =>
    refine fifo.ask (c := .exitCodeThread) nofun fun code v fifo => ?_
    have sleeps : PtyEnsures (do sleepMs 50; return (.inl () : Unit ⊕ Unit))
        (fun r u => Sum.elim (fun _ => PtyFifo out p u) (fun _ => PtyFifo out p u) r) v :=
      fifo.ask (c := .sleep 50) nofun fun _ v fifo => fifo.done fun _ fifo => fifo
    cases code with
    | none => exact sleeps
    | some code =>
      simp only
      split_ifs
      · exact fifo.done fun _ fifo => fifo
      · exact sleeps

/-- A send loses and reorders no output, whether it succeeds, fails or times
out. Its loops drain between the waits for the write. -/
theorem ptySend_fifo (fifo : PtyFifo out p w) (bytes : Bytes) :
    PtyEnsures (ptySend p bytes) (fun r u => PtyFifo out r.1 u) w := by
  unfold ptySend
  split_ifs with empty
  · exact fifo.done fun _ fifo => fifo
  refine fifo.ask (c := .duplicateHandle) nofun fun duplicated v fifo => ?_
  cases duplicated with
  | false => exact fifo.done fun _ fifo => fifo
  | true =>
    refine fifo.ask (c := .createThread) nofun fun started v fifo => ?_
    cases started with
    | false => exact fifo.done fun _ fifo => fifo
    | true =>
      have captures : PtyEnsures (Prog.iterate ptySendTurn p) (fun r u => PtyFifo out r.1 u) v :=
        Ensures.iterate (S := ptyHost) (fun p u => PtyFifo out p u) (fun _ => PtyFifo.moves) (fun _ _ _ => trivial)
          (fun _ => PtyFifo.moves) (fun _ _ _ => trivial) fifo fun _ _ fifo => ptySendTurn_fifo fifo
      refine Ensures.bind (captures.mono fun r v fifo => ?_)
      obtain ⟨p, sendError, sendLimit⟩ := r
      have ends : ∀ v, PtyFifo out p v → PtyEnsures (do
          let failure ← writerError
          return (p, ptySendResult sendError sendLimit failure)) (fun r u => PtyFifo out r.1 u) v := fun v fifo =>
        fifo.ask (c := .writerError) nofun fun _ v fifo => fifo.done fun _ fifo => fifo
      simp only
      split_ifs with stops
      · have cancels : PtyEnsures (Prog.iterate ptyCancelTurn ()) (fun _ u => PtyFifo out p u) v :=
          Ensures.iterate (S := ptyHost) (fun _ u => PtyFifo out p u) (fun _ => PtyFifo.moves)
            (fun _ _ _ => trivial)
            (fun _ => PtyFifo.moves) (fun _ _ _ => trivial) fifo fun _ _ fifo => ptyCancelTurn_fifo fifo
        exact Ensures.bind (cancels.mono fun _ v fifo => ends v fifo)
      · exact ends v fifo

/-- One turn of a read gives what it has just read, where nothing was queued
before it. -/
theorem ptyReadTurn_fifo (fifo : PtyFifo out p w) (empty : p.queued = []) (deadline : Nat) :
    PtyEnsures (ptyReadTurn deadline ())
      (fun r u => Sum.elim (fun _ => PtyFifo out p u) (fun got => PtyFifo (out ++ got) p u) r) w := by
  have nothing : ∀ v, PtyFifo out p v → PtyFifo (out ++ []) p v := fun v fifo => by rwa [List.append_nil]
  refine fifo.ask (c := .peekNamedPipe) nofun fun answer v fifo => ?_
  cases answer with
  | error e => exact fifo.done nothing
  | ok available =>
    simp only
    split_ifs with some
    · exact fifo.read (fun e v fifo => fifo.done nothing)
        fun bytes v _ fifo => (fifo.give empty).done fun _ fifo => fifo
    · refine fifo.ask (c := .tickCount) nofun fun now v fifo => ?_
      split_ifs
      · exact fifo.done nothing
      · exact fifo.ask (c := .sleep 10) nofun fun _ v fifo => fifo.done fun _ fifo => fifo

/-- A read gives what is queued, or waits for output. -/
theorem ptyRead_fifo (fifo : PtyFifo out p w) (timeoutMs : Nat) :
    PtyEnsures (ptyRead p timeoutMs) (fun r u => PtyFifo (out ++ r.2) r.1 u) w := by
  unfold ptyRead ptyOutputResult
  cases queue : p.queued with
  | nil =>
    refine fifo.ask (c := .tickCount) nofun fun now v fifo => ?_
    have reads : PtyEnsures (Prog.iterate (ptyReadTurn (now + timeoutMs)) ())
        (fun got u => PtyFifo (out ++ got) p u) v :=
      Ensures.iterate (S := ptyHost) (fun _ u => PtyFifo out p u) (fun _ => PtyFifo.moves) (fun _ _ _ => trivial)
        (fun _ => PtyFifo.moves) (fun _ _ _ => trivial) fifo fun _ _ fifo => ptyReadTurn_fifo fifo queue _
    exact Ensures.bind (reads.mono fun got v fifo => fifo.done fun _ fifo => fifo)
  | cons chunk queued =>
    have taken : PtyFifo (out ++ chunk)
        { p with queued := queued, queuedBytes := p.queuedBytes - chunk.length } w := by
      have counted := fifo.counted
      rw [queue, List.flatten_cons, List.length_append] at counted
      refine ⟨?_, ?_, ?_, fifo.small⟩
      · rw [← fifo.stream, queue, List.flatten_cons, List.append_assoc out]
      · simp only [counted, Nat.add_sub_cancel_left]
      · exact Nat.le_trans (Nat.sub_le ..) fifo.within
    exact taken.done fun _ fifo => fifo

/-- A peek tells how much is in the pipe, or nothing where it fails. -/
theorem ptyPeek_available {choice : ptyHost.Choice} {answer : Except Nat Nat} {v u : PtyWorld}
    (acts : ptyHost.act .peekNamedPipe choice v = some (answer, u)) : answer.toOption.getD 0 = v.available := by
  simp only [ptyHost] at acts
  cases broken : v.broken with
  | none =>
    rw [broken] at acts
    obtain ⟨rfl, -⟩ := Prod.mk.inj (Option.some.inj acts)
    simp [PtyWorld.available, broken, Except.toOption]
  | some e =>
    rw [broken] at acts
    obtain ⟨rfl, -⟩ := Prod.mk.inj (Option.some.inj acts)
    simp [PtyWorld.available, broken, Except.toOption]

/-- Queue and pipe together never overflow the count. -/
theorem PtyFifo.pending (fifo : PtyFifo out p w) : ¬ llongMax < p.queuedBytes + w.available := by
  have within := fifo.within
  have small := fifo.small
  have available : w.available ≤ w.pipe.length := by
    unfold PtyWorld.available
    split_ifs
    · exact Nat.zero_le _
    · exact Nat.le_refl _
  simp only [llongMax, ptySendQueueLimit] at *
  omega

/-- `pty info` counts the retained bytes and those the pipe has to give. -/
theorem ptyInfo_pending (fifo : PtyFifo out p w) :
    PtyEnsures (ptyInfo p) (fun r u => PtyFifo out p u ∧ ∀ info, r = .ok info → ∃ v : PtyWorld,
      ptyHost.Drifts w v ∧ ptyHost.Drifts v u ∧ info.pending = p.queuedBytes + v.available) w := by
  have stable : ∀ v : PtyWorld, ∀ m (x y : PtyWorld), PtyFifo out p x ∧ ptyHost.Drifts v x →
    ptyHost.move m x = some y →
      PtyFifo out p y ∧ ptyHost.Drifts v y :=
    fun v m x y holds moves => ⟨holds.1.moves m x y moves, holds.2.trans (.single moves)⟩
  refine Ensures.ask (S := ptyHost) (c := PtyCall.jobActive) (stable w) (fun _ _ => trivial) ⟨fifo, .refl⟩
    fun choice active v u holds acts => ?_
  obtain rfl := ptyHost_still (c := .jobActive) nofun acts
  cases active with
  | error message =>
    exact Ensures.pure (stable w) (fun _ _ => trivial) holds fun u holds =>
      ⟨holds.1, fun info same => nomatch same⟩
  | ok active =>
    refine Ensures.ask (S := ptyHost) (c := PtyCall.peekNamedPipe) (stable w) (fun _ _ => trivial) holds
      fun choice avail v u holds acts => ?_
    have available := ptyPeek_available acts
    obtain rfl := ptyHost_still (c := .peekNamedPipe) nofun acts
    refine Ensures.pure (stable v) (fun _ _ => trivial) ⟨holds.1, .refl⟩ fun u later =>
      ⟨later.1, fun info same => ⟨v, holds.2, later.2, ?_⟩⟩
    obtain rfl := Except.ok.inj same
    rw [available, if_neg holds.1.pending]

/-- What the reads of a script return. -/
def ptyReturned : List PtyReply → Bytes
  | [] => []
  | .read bytes :: replies => bytes ++ ptyReturned replies
  | _ :: replies => ptyReturned replies

theorem ptyReturned_cons (reply : PtyReply) (replies : List PtyReply) :
    ptyReturned (reply :: replies) = ptyReturned [reply] ++ ptyReturned replies := by
  cases reply <;> simp [ptyReturned]

/-- One command returns the next bytes of the stream, if any. -/
theorem ptyCommand_fifo (cmd : PtyCmd) (fifo : PtyFifo out p w) :
    PtyEnsures (ptyCommand p cmd) (fun r u => PtyFifo (out ++ ptyReturned [r.2]) r.1 u) w := by
  cases cmd with
  | send bytes =>
    refine Ensures.bind ((ptySend_fifo fifo bytes).mono fun r v fifo => ?_)
    exact fifo.done fun v fifo => by simpa [ptyReturned] using fifo
  | read timeoutMs =>
    refine Ensures.bind ((ptyRead_fifo fifo timeoutMs).mono fun r v fifo => ?_)
    exact fifo.done fun v fifo => by rwa [ptyReturned, ptyReturned, List.append_nil]
  | info =>
    refine Ensures.bind ((ptyInfo_pending fifo).mono fun r v result => ?_)
    exact result.1.done fun v fifo => by simpa [ptyReturned] using fifo

/-- By induction on the commands, with what has been returned so far as the
beginning of the stream. -/
theorem ptySession_fifo (cmds : List PtyCmd) (fifo : PtyFifo out p w) :
    PtyEnsures (ptySession p cmds) (fun r u => PtyFifo (out ++ ptyReturned r.2) r.1 u) w := by
  induction cmds generalizing out p w with
  | nil => exact fifo.done fun v fifo => by rwa [ptyReturned, List.append_nil]
  | cons cmd cmds ih =>
    refine Ensures.bind ((ptyCommand_fifo cmd fifo).mono fun r v fifo => ?_)
    refine Ensures.bind ((ih fifo).mono fun r' v fifo => ?_)
    exact fifo.done fun v fifo => by rwa [ptyReturned_cons, ← List.append_assoc]

/-- Whatever script runs on a pty and whatever its child writes meanwhile:
the bytes returned, retained and left in the pipe are the bytes written. -/
theorem pty_fifo {token : Bytes} {pid : Nat} {cmds : List PtyCmd} {p : Pty} {replies : List PtyReply} {w : PtyWorld}
    (run : ptyHost.Reaches (ptySession ⟨token, pid, [], 0⟩ cmds) ⟨[], [], none⟩ (.done (p, replies)) w) :
    ptyReturned replies ++ p.queued.flatten ++ w.pipe = w.written ∧ p.queuedBytes = p.queued.flatten.length ∧
      p.queuedBytes ≤ ptySendQueueLimit ∧
      ∀ info v, ptyHost.Reaches (ptyInfo p) w (.done (.ok info)) v → ∃ u : PtyWorld,
        ptyHost.Drifts w u ∧ ptyHost.Drifts u v ∧ info.pending = p.queuedBytes + u.available := by
  have start : PtyFifo [] ⟨token, pid, [], 0⟩ ⟨[], [], none⟩ := ⟨rfl, rfl, Nat.zero_le _, by decide⟩
  have fifo := (ptySession_fifo cmds start).result run
  rw [List.nil_append] at fifo
  exact ⟨fifo.stream, fifo.counted, fifo.within, fun info v looks =>
    ((ptyInfo_pending fifo).result looks).2 info rfl⟩

/-- Every call works; the writer thread is seen as `wait` says, and a read
takes the bytes `got`. -/
def ptyWorks (wait : ThreadWait) (got : Bytes) : (c : PtyCall) → c.Answer
  | .peekNamedPipe => .ok 0
  | .malloc => true
  | .readFile _ => .ok got
  | .duplicateHandle => true
  | .createThread => true
  | .waitThread _ => wait
  | .cancelSynchronousIo => ()
  | .exitCodeThread => none
  | .writerError => 0
  | .tickCount => 0
  | .sleep _ => ()
  | .jobActive => .ok 1

def ptyIdle : Pty := ⟨ascii "pty#1", 7, [], 0⟩

/-- The child answers while bytes are sent to it: what it has written by
then is retained, and the first read gives it back. -/
theorem pty_fifo_sample : ∃ w, ptyHost.Reaches (ptySession ptyIdle [.send [0x78], .read 0, .read 0]) ⟨[], [], none⟩
      (.done (ptyIdle, [.send (.ok ()), .read [0x61], .read [0x62]])) w ∧ w.written = [0x61, 0x62, 0x63] ∧
    ptyReturned [.send (.ok ()), .read [0x61], .read [0x62]] ++ ([] : List Bytes).flatten ++
      w.pipe = w.written := by
  have played : ptyHost.play (ptySession ptyIdle [.send [0x78], .read 0, .read 0]) ⟨[], [], none⟩
      ([.inl (.write [0x61, 0x62])] ++ List.replicate 8 (.inr (ptyWorks .timeout [0x61])) ++
        [.inl (.write [0x63])] ++ List.replicate 6 (.inr (ptyWorks .object [0x62]))) =
      some (.done (ptyIdle, [.send (.ok ()), .read [0x61], .read [0x62]]), ⟨[0x63], [0x61, 0x62, 0x63], none⟩) :=
        rfl
  exact ⟨_, play_reaches played, rfl, (pty_fifo (play_reaches played)).1⟩

end Machteld
