import Machteld.Child.Pumped

namespace Machteld

/-- `memcpy` to an offset of a block; none where it writes behind the block.
-/
def memcpyAt (block : Bytes) (offset : Nat) (tmp : Bytes) : Option Bytes :=
  if offset + tmp.length ≤ block.length then some (block.take offset ++
    (tmp ++ block.drop (offset + tmp.length))) else none

/-- `reader_t`, with the memory from its buffer on. -/
structure ReaderMemory where
  buf : Bytes
  cap : Nat
  len : Nat
  truncated : Bool
  error : Nat

/-- What `reader_thread` does with the bytes that it got. -/
def readerThreadGot (r : ReaderMemory) (tmp : Bytes) : Option ReaderMemory :=
  let got := tmp.length
  if r.len < r.cap then
    let space := r.cap - r.len
    let take := if got < space then got else space
    (memcpyAt r.buf r.len (tmp.take take)).map fun buf =>
      { r with buf := buf, len := r.len + take, truncated := if take < got then true else r.truncated }
  else some { r with truncated := true }

/-- `reader_thread`, with what its calls of `ReadFile` give. -/
def readerThread (r : ReaderMemory) : List ReaderGot → Option ReaderMemory
  | [] => some r
  | .failed error :: _ =>
    some { r with error := if error ≠ errorBrokenPipe ∧ error ≠ errorPipeNotConnected then error else r.error }
  | .ended :: _ => some r
  | .data tmp :: reads => if tmp = [] then some r else (readerThreadGot r tmp).bind fun r => readerThread r reads

/-- What `pump_once` does with the bytes that it got for no callback. -/
def pumpOnceGot (r : ReaderMemory) (tmp : Bytes) : Option ReaderMemory :=
  let got := tmp.length
  if r.len < r.cap then
    let space := r.cap - r.len
    let take := if got < space then got else space
    (memcpyAt r.buf r.len (tmp.take take)).map fun buf =>
      { r with buf := buf, len := r.len + take, truncated := if take < got then true else r.truncated }
  else some { r with truncated := true }

/-- `pump_t` without a callback. -/
structure BufferPump where
  rd : ReaderMemory
  eof : Bool

/-- `pump_once` without a callback. -/
def bufferPumpOnce (p : BufferPump) (read : PumpRead) : Option BufferPump :=
  if p.eof then some p
  else
    match read with
    | .peekFailed => some { p with eof := true }
    | .nothing => some p
    | .readFailed => some { p with eof := true }
    | .got tmp _ =>
      if tmp = [] then some { p with eof := true } else (pumpOnceGot p.rd tmp).map fun rd => { p with rd := rd }

/-- The calls of `pump_once`, one after another. -/
def bufferPump (p : BufferPump) : List PumpRead → Option BufferPump
  | [] => some p
  | read :: reads => (bufferPumpOnce p read).bind fun p => bufferPump p reads

/-- A reader whose buffer is a block of memory, with what lies behind it. -/
def ReaderMemory.start (block behind : Bytes) : ReaderMemory := ⟨block ++ behind, block.length, 0, false, 0⟩

/-- The bytes that come before the end of the pipe of `reader_thread`. -/
def readerStream : List ReaderGot → Bytes
  | .data tmp :: reads => if tmp = [] then [] else tmp ++ readerStream reads
  | _ => []

/-- What a reader has captured of a stream. -/
structure Captured (block behind stream : Bytes) (r : ReaderMemory) : Prop where
  cap : r.cap = block.length
  len : r.len = min block.length stream.length
  memory : r.buf = stream.take block.length ++ (block.drop stream.length ++ behind)
  truncated : r.truncated = true ↔ block.length < stream.length

/-- The reader as the threads and commands of a child see it. -/
def ReaderMemory.view (r : ReaderMemory) (running : Bool) : ChildReader :=
  ⟨r.buf.take r.len, r.cap, r.truncated, r.error, running⟩

section

variable {block behind stream : Bytes} {r r' : ReaderMemory} {tmp : Bytes}

theorem pumpOnceGot_eq : pumpOnceGot = readerThreadGot := rfl

theorem Captured.start (block behind : Bytes) : Captured block behind [] (ReaderMemory.start block behind) where
  cap := rfl
  len := (Nat.min_zero _).symm
  memory := by
    rw [List.take_nil, List.nil_append]
    rfl
  truncated := ⟨fun bad => absurd bad Bool.false_ne_true, fun bad => absurd bad (Nat.not_lt_zero _)⟩

/-- A copy behind what is held already, inside the block. -/
theorem memcpyAt_inside {held : Bytes} (inside : held.length + tmp.length ≤ block.length) :
    memcpyAt (held ++ (block.drop held.length ++ behind)) held.length tmp =
      some (held ++ (tmp ++ (block.drop (held.length + tmp.length) ++ behind))) := by
  have rest : (block.drop held.length ++ behind).length = block.length - held.length + behind.length := by
    rw [List.length_append, List.length_drop]
  have dropped : (held ++ (block.drop held.length ++ behind)).drop (held.length + tmp.length) =
      block.drop (held.length + tmp.length) ++ behind := by
    rw [← List.drop_drop, List.drop_left, List.drop_append_of_le_length, List.drop_drop]
    rw [List.length_drop]
    omega
  rw [memcpyAt, dropped, List.take_left, if_pos]
  rw [List.length_append, rest]
  omega

theorem memcpyAt_take {offset : Nat} {block' : Bytes} (copied : memcpyAt block offset tmp = some block') :
    block'.take (offset + tmp.length) = block.take offset ++ tmp := by
  unfold memcpyAt at copied
  split_ifs at copied with inside
  obtain rfl := Option.some.inj copied
  have held : (block.take offset).length = offset := List.length_take_of_le (by omega)
  rw [← List.append_assoc]
  exact List.take_left' (by rw [List.length_append, held])

/-- A turn that has room left, by what it copies. -/
theorem readerThreadGot_room (room : r.len < r.cap) {buf : Bytes}
    (copied : memcpyAt r.buf r.len (tmp.take (r.cap - r.len)) = some buf) :
    readerThreadGot r tmp = some { r with
      buf := buf
      len := r.len + min tmp.length (r.cap - r.len)
      truncated := if r.cap - r.len < tmp.length then true else r.truncated } := by
  unfold readerThreadGot
  rw [if_pos room]
  by_cases fits : tmp.length < r.cap - r.len
  · rw [List.take_of_length_le (by omega)] at copied
    dsimp only
    rw [if_pos fits, List.take_length, copied, Option.map_some, if_neg (by omega), Nat.min_eq_left (by omega),
      if_neg (by omega)]
  · dsimp only
    rw [if_neg fits, copied, Option.map_some, Nat.min_eq_right (by omega)]

/-- What one more read adds to a capture. -/
theorem Captured.got (captured : Captured block behind stream r) (more : tmp ≠ []) :
    ∃ r', readerThreadGot r tmp = some r' ∧ Captured block behind (stream ++ tmp) r' := by
  obtain ⟨cap, len, memory, flag⟩ := captured
  have positive := List.length_pos_iff.mpr more
  have total : (stream ++ tmp).length = stream.length + tmp.length := List.length_append
  by_cases room : stream.length < block.length
  · rw [Nat.min_eq_right (by omega)] at len
    rw [List.take_of_length_le (by omega)] at memory
    have taken : (tmp.take (block.length - stream.length)).length = min (block.length - stream.length) tmp.length :=
      List.length_take
    have copied := @memcpyAt_inside block behind (tmp.take (block.length - stream.length)) stream (by omega)
    rw [← memory, ← len, ← cap] at copied
    refine ⟨_, readerThreadGot_room (by omega) copied, cap, ?_, ?_, ?_⟩
    · dsimp only
      omega
    · have rest : block.drop (stream.length + (tmp.take (block.length - stream.length)).length) =
        block.drop (stream ++ tmp).length := by
        by_cases fits : tmp.length ≤ block.length - stream.length
        · rw [List.take_of_length_le fits, total]
        · rw [List.drop_eq_nil_of_le (by omega), List.drop_eq_nil_of_le (by omega)]
      dsimp only
      rw [cap, len, rest, List.take_append, List.take_of_length_le (Nat.le_of_lt room), List.append_assoc]
    · have untouched : r.truncated = false := by
        rw [← Bool.not_eq_true, flag]
        omega
      dsimp only
      rw [untouched, cap, len, total]
      by_cases beyond : block.length - stream.length < tmp.length
      · rw [if_pos beyond]
        exact iff_of_true rfl (by omega)
      · rw [if_neg beyond]
        exact iff_of_false Bool.false_ne_true (by omega)
  · have full : ¬ r.len < r.cap := by omega
    refine ⟨{ r with truncated := true }, if_neg full, cap, ?_, ?_, ?_⟩
    · dsimp only
      omega
    · dsimp only
      rw [memory, List.take_append_of_le_length (by omega), List.drop_eq_nil_of_le (by omega),
        List.drop_eq_nil_of_le (by omega)]
    · exact iff_of_true rfl (by omega)

/-- `reader_thread` captures what comes before the end of the pipe. -/
theorem Captured.thread (captured : Captured block behind stream r) (reads : List ReaderGot) :
    ∃ r', readerThread r reads = some r' ∧ Captured block behind (stream ++ readerStream reads) r' := by
  induction reads generalizing stream r with
  | nil => exact ⟨r, rfl, (List.append_nil stream).symm ▸ captured⟩
  | cons read reads ih =>
    cases read with
    | data tmp =>
      rw [readerThread, readerStream]
      by_cases ends : tmp = []
      · rw [if_pos ends, if_pos ends, List.append_nil]
        exact ⟨r, rfl, captured⟩
      · obtain ⟨next, got, captured'⟩ := captured.got ends
        rw [if_neg ends, if_neg ends, got, Option.bind_some, ← List.append_assoc]
        exact ih captured'
    | ended => exact ⟨r, rfl, (List.append_nil stream).symm ▸ captured⟩
    | failed error =>
      exact ⟨_, rfl, (List.append_nil stream).symm ▸ ⟨captured.cap, captured.len, captured.memory,
        captured.truncated⟩⟩

theorem bufferPump_eof {p : BufferPump} (ended : p.eof = true) (reads : List PumpRead) :
    bufferPump p reads = some p := by
  induction reads with
  | nil => rfl
  | cons read reads ih =>
    have once : bufferPumpOnce p read = some p := if_pos ended
    rw [bufferPump, once, Option.bind_some]
    exact ih

/-- `pump_once` captures what comes before the end of the pipe. -/
theorem Captured.pump (captured : Captured block behind stream r) (reads : List PumpRead) :
    ∃ p, bufferPump ⟨r, false⟩ reads = some p ∧ Captured block behind (stream ++ pumpStream reads) p.rd := by
  have ends : ∀ reads, ∃ p, bufferPump ⟨r, true⟩ reads = some p ∧ Captured block behind (stream ++ []) p.rd := by
    intro reads
    rw [List.append_nil]
    exact ⟨_, bufferPump_eof rfl reads, captured⟩
  induction reads generalizing stream r with
  | nil => exact ⟨_, rfl, (List.append_nil stream).symm ▸ captured⟩
  | cons read reads ih =>
    cases read with
    | peekFailed => exact ends reads
    | nothing => exact ih captured ends
    | readFailed => exact ends reads
    | got tmp memory =>
      rw [pumpStream]
      by_cases closed : tmp = []
      · subst closed
        exact ends reads
      · obtain ⟨next, got, captured'⟩ := captured.got closed
        have once : bufferPumpOnce ⟨r, false⟩ (.got tmp memory) = some ⟨next, false⟩ := by
          rw [bufferPumpOnce, if_neg Bool.false_ne_true]
          dsimp only
          rw [if_neg closed, pumpOnceGot_eq, got, Option.map_some]
        rw [if_neg closed, bufferPump, once, Option.bind_some, ← List.append_assoc]
        refine ih captured' fun reads => ?_
        rw [List.append_nil]
        exact ⟨_, bufferPump_eof rfl reads, captured'⟩

/-- A reader takes bytes into its memory as the child's reader does. -/
theorem readerThreadGot_view (whole : r.len ≤ r.buf.length) (more : tmp ≠ [])
    (got : readerThreadGot r tmp = some r') (running : Bool) :
    r'.view running = readerStep (r.view running) (.data tmp) := by
  have held : (r.buf.take r.len).length = r.len := List.length_take_of_le whole
  have room : (r.view running).buf.length < (r.view running).cap ↔ r.len < r.cap := by
    rw [show (r.view running).buf.length = r.len from held]
    rfl
  have space : (r.view running).cap - (r.view running).buf.length = r.cap - r.len := by
    rw [show (r.view running).buf.length = r.len from held]
    rfl
  rw [readerStep, if_neg more]
  unfold readerThreadGot at got
  by_cases less : r.len < r.cap
  · rw [if_pos less] at got
    dsimp only at got
    rw [if_pos (room.mpr less), space]
    rw [show (if tmp.length < r.cap - r.len then tmp.length else r.cap - r.len) =
      min tmp.length (r.cap - r.len) by split_ifs <;> omega] at got
    obtain ⟨buf, copied, rfl⟩ := Option.map_eq_some_iff.mp got
    have size : (tmp.take (min tmp.length (r.cap - r.len))).length = min tmp.length (r.cap - r.len) :=
      List.length_take_of_le (Nat.min_le_left ..)
    have taken := memcpyAt_take copied
    rw [size] at taken
    have flag : ∀ cut : Prop, [Decidable cut] → (if cut then true else r.truncated) =
      (r.truncated || decide cut) := by
      intro cut _
      by_cases true' : cut
      · rw [if_pos true', decide_eq_true true', Bool.or_true]
      · rw [if_neg true', decide_eq_false true', Bool.or_false]
    dsimp only [ReaderMemory.view]
    rw [taken, flag]
  · rw [if_neg less] at got
    rw [if_neg fun bad => less (room.mp bad)]
    obtain rfl := Option.some.inj got
    rfl

theorem pumpBuffer_eq_readerStep (reader : ChildReader) (more : tmp ≠ []) :
    pumpBuffer reader tmp = readerStep reader (.data tmp) := by
  have least : (if tmp.length < reader.cap - reader.buf.length then tmp.length else
    reader.cap - reader.buf.length) =
      min tmp.length (reader.cap - reader.buf.length) := by
    split_ifs <;> omega
  rw [pumpBuffer, readerStep, if_neg more, least]

theorem readerThreadGot_whole (whole : r.len ≤ r.buf.length) (got : readerThreadGot r tmp = some r') :
    r'.len ≤ r'.buf.length := by
  unfold readerThreadGot at got
  split_ifs at got with room
  · obtain ⟨buf, copied, rfl⟩ := Option.map_eq_some_iff.mp got
    have taken := congrArg List.length (memcpyAt_take copied)
    rw [List.length_take, List.length_append, List.length_take_of_le whole] at taken
    have fits : (tmp.take (if tmp.length < r.cap - r.len then tmp.length else r.cap - r.len)).length =
      if tmp.length < r.cap - r.len then tmp.length else r.cap - r.len := by
      rw [List.length_take]
      split_ifs <;> omega
    rw [fits] at taken
    exact (Nat.le_of_eq taken.symm).trans (Nat.min_le_right ..)
  · obtain rfl := Option.some.inj got
    exact whole

/-- Over a whole stream, `reader_thread` leaves in its block what the reader
of a child holds. -/
theorem readerThread_view {chunks : List Bytes} (whole : r.len ≤ r.buf.length) (more : ∀ tmp ∈ chunks, tmp ≠ [])
    (ran : readerThread r (chunks.map .data) = some r') (running : Bool) :
    r'.view running = chunks.foldl (fun reader tmp => readerStep reader (.data tmp)) (r.view running) := by
  induction chunks generalizing r with
  | nil =>
    obtain rfl := Option.some.inj ran
    rfl
  | cons tmp chunks ih =>
    have first := more tmp List.mem_cons_self
    rw [List.map_cons, readerThread, if_neg first] at ran
    obtain ⟨next, got, ran⟩ := Option.bind_eq_some_iff.mp ran
    rw [List.foldl_cons, ← readerThreadGot_view whole first got running]
    exact ih (readerThreadGot_whole whole got) (fun tmp member => more tmp (List.mem_cons_of_mem _ member)) ran

/-- And `pump_once` what the reader of a pump holds. -/
theorem bufferPump_view {pumped : List (Bytes × (Nat → Bool))} {p : BufferPump} (whole : r.len ≤ r.buf.length)
    (more : ∀ e ∈ pumped, e.1 ≠ [])
    (ran : bufferPump ⟨r, false⟩ (pumped.map fun e => .got e.1 e.2) = some p) (running : Bool) :
    p.rd.view running = (pumped.map Prod.fst).foldl pumpBuffer (r.view running) := by
  induction pumped generalizing r with
  | nil =>
    obtain rfl := Option.some.inj ran
    rfl
  | cons e pumped ih =>
    have first := more e List.mem_cons_self
    obtain ⟨next, once, ran⟩ := Option.bind_eq_some_iff.mp ran
    rw [bufferPumpOnce, if_neg Bool.false_ne_true] at once
    dsimp only at once
    rw [if_neg first, pumpOnceGot_eq] at once
    obtain ⟨rd, got, rfl⟩ := Option.map_eq_some_iff.mp once
    rw [List.map_cons, List.foldl_cons, pumpBuffer_eq_readerStep _ first,
      ← readerThreadGot_view whole first got running]
    exact ih (readerThreadGot_whole whole got) (fun e member => more e (List.mem_cons_of_mem _ member)) ran

theorem Captured.agree {p : ReaderMemory} (thread : Captured block behind stream r)
    (pump : Captured block behind stream p) :
    p.buf = r.buf ∧ p.len = r.len ∧ p.truncated = r.truncated :=
  ⟨pump.memory.trans thread.memory.symm, pump.len.trans thread.len.symm,
    Bool.eq_iff_iff.mpr (pump.truncated.trans thread.truncated.symm)⟩

end

/-- However a stream is split into reads, `reader_thread` and `pump_once`
copy without leaving the block, and capture the same of it. -/
theorem reader_pump_agree (block behind stream : Bytes) (reads : List ReaderGot) (pumped : List PumpRead)
    (read : readerStream reads = stream) (pumps : pumpStream pumped = stream) :
    ∃ r p, readerThread (ReaderMemory.start block behind) reads = some r ∧
      bufferPump ⟨ReaderMemory.start block behind, false⟩ pumped = some p ∧
      Captured block behind stream r ∧ Captured block behind stream p.rd ∧
      p.rd.buf = r.buf ∧ p.rd.len = r.len ∧ p.rd.truncated = r.truncated := by
  subst read
  obtain ⟨r, ran, thread⟩ := (Captured.start block behind).thread reads
  obtain ⟨p, ran', pump⟩ := (Captured.start block behind).pump pumped
  rw [List.nil_append] at thread pump
  rw [pumps] at pump
  exact ⟨r, p, ran, ran', thread, pump, thread.agree pump⟩

/-- A read that ends at the end of the block, and one that goes beyond it.
-/
theorem reader_pump_agree_split :
    readerStream [.data (ascii "abc"), .data (ascii "d"), .ended] = ascii "abcd" ∧
    pumpStream [.got (ascii "ab") fun _ => true, .nothing, .got (ascii "cd") fun _ => true,
      .peekFailed] = ascii "abcd" ∧
    ∃ r p, readerThread (ReaderMemory.start (ascii "...") (ascii "!"))
      [.data (ascii "abc"), .data (ascii "d"), .ended] = some r ∧
      bufferPump ⟨ReaderMemory.start (ascii "...") (ascii "!"), false⟩
        [.got (ascii "ab") fun _ => true, .nothing, .got (ascii "cd") fun _ => true, .peekFailed] = some p ∧
      Captured (ascii "...") (ascii "!") (ascii "abcd") r ∧ Captured (ascii "...") (ascii "!") (ascii "abcd") p.rd ∧
      p.rd.buf = r.buf ∧ p.rd.len = r.len ∧ p.rd.truncated = r.truncated :=
  ⟨rfl, rfl, reader_pump_agree _ _ _ _ _ rfl rfl⟩

end Machteld
