import Machteld.Child.Pump
import Mathlib.Data.List.Basic

namespace Machteld

theorem utf8Tail {b : UInt8} : b.toNat / 0x40 = 2 ↔ Utf8.IsTail b := by
  unfold Utf8.IsTail
  have small := b.toNat_lt
  omega

/-- The test of a value that was read, against reading it. -/
theorem utf8Test {n least : Nat} {rest : Bytes} {within : Prop} [Decidable within]
    (range : within ↔ least ≤ n ∧ n < 0x110000) :
    (if n < least ∨ 0x10FFFF < n ∨ 0xD800 ≤ n ∧ n ≤ 0xDFFF then false else validUtf8 rest) =
      match (if within then some (n, rest) else none : Option (Nat × Bytes)) with
      | none => false
      | some (n, rest) => decide (¬ Utf8.IsSurrogate n) && validUtf8 rest := by
  by_cases inside : within
  · obtain ⟨lower, upper⟩ := range.mp inside
    rw [if_pos inside]
    by_cases surrogate : Utf8.IsSurrogate n
    · rw [if_pos (.inr (.inr ⟨surrogate.1, Nat.le_of_lt_succ surrogate.2⟩))]
      simp [surrogate]
    · have outside : ¬ (n < least ∨ 0x10FFFF < n ∨ 0xD800 ≤ n ∧ n ≤ 0xDFFF) := by
        unfold Utf8.IsSurrogate at surrogate
        omega
      rw [if_neg outside]
      simp [surrogate]
  · rw [if_neg inside, if_pos]
    rw [range] at inside
    omega

/-- One turn of `valid_utf8` reads one code point. -/
theorem validUtf8_cons (a : UInt8) (s : Bytes) : validUtf8 (a :: s) =
    match Utf8.decodeOne (a :: s) with
    | none => false
    | some (n, rest) => decide (¬ Utf8.IsSurrogate n) && validUtf8 rest := by
  have range := a.toNat_lt
  rw [validUtf8, Utf8.decodeOne.eq_def]
  dsimp only
  by_cases one : a.toNat < 0x80
  · have plain : ¬ Utf8.IsSurrogate a.toNat := by
      unfold Utf8.IsSurrogate
      omega
    simp [one, plain]
  rw [if_neg one, if_neg one, utf8Lead]
  by_cases two : 0xC2 ≤ a.toNat ∧ a.toNat < 0xE0
  · rw [if_pos (by omega), if_pos two]
    cases s with
    | nil => rfl
    | cons b s =>
      by_cases tail : Utf8.IsTail b
      · have value : a.toNat % 0x20 * 0x40 + b.toNat % 0x40 = (a.toNat - 0xC0) * 64 + (b.toNat - 0x80) := by
          unfold Utf8.IsTail at tail
          omega
        simp only [utf8Value, utf8Tail.mpr tail, value, List.length_cons, List.take_succ_cons, List.take_zero,
          List.drop_succ_cons, List.drop_zero, if_true]
        rw [if_neg (by omega)]
        refine utf8Test ?_
        unfold Utf8.IsTail at tail ⊢
        omega
      · have other : ¬ b.toNat / 0x40 = 2 := fun same => tail (utf8Tail.mp same)
        simp [utf8Value, other, tail]
  rw [if_neg (show ¬ (0xC2 ≤ a.toNat ∧ a.toNat ≤ 0xDF) by omega), if_neg two]
  by_cases three : 0xE0 ≤ a.toNat ∧ a.toNat < 0xF0
  · rw [if_pos (by omega), if_pos three]
    rcases s with _ | ⟨b, _ | ⟨c, s⟩⟩
    · rfl
    · rfl
    · by_cases tails : Utf8.IsTail b ∧ Utf8.IsTail c
      · have value : (a.toNat % 0x10 * 0x40 + b.toNat % 0x40) * 0x40 + c.toNat % 0x40 =
            (a.toNat - 0xE0) * 4096 + (b.toNat - 0x80) * 64 + (c.toNat - 0x80) := by
          unfold Utf8.IsTail at tails
          omega
        simp only [utf8Value, utf8Tail.mpr tails.1, utf8Tail.mpr tails.2, value, List.length_cons,
          List.take_succ_cons,
          List.take_zero, List.drop_succ_cons, List.drop_zero, if_true]
        rw [if_neg (by omega)]
        refine utf8Test ?_
        unfold Utf8.IsTail at tails ⊢
        omega
      · have other : ¬ (b.toNat / 0x40 = 2 ∧ c.toNat / 0x40 = 2) := fun same =>
          tails ⟨utf8Tail.mp same.1, utf8Tail.mp same.2⟩
        have refused : ∀ least : Prop, ¬ (Utf8.IsTail b ∧ Utf8.IsTail c ∧ least) :=
          fun _ all => tails ⟨all.1, all.2.1⟩
        by_cases first : b.toNat / 0x40 = 2
        · have second : ¬ c.toNat / 0x40 = 2 := fun same => other ⟨first, same⟩
          simp [utf8Value, first, second, refused]
        · simp [utf8Value, first, refused]
  rw [if_neg (show ¬ (0xE0 ≤ a.toNat ∧ a.toNat ≤ 0xEF) by omega), if_neg three]
  by_cases four : 0xF0 ≤ a.toNat ∧ a.toNat < 0xF5
  · rw [if_pos (by omega), if_pos four]
    rcases s with _ | ⟨b, _ | ⟨c, _ | ⟨d, s⟩⟩⟩
    · rfl
    · rfl
    · rfl
    · by_cases tails : Utf8.IsTail b ∧ Utf8.IsTail c ∧ Utf8.IsTail d
      · have value : ((a.toNat % 8 * 0x40 + b.toNat % 0x40) * 0x40 + c.toNat % 0x40) * 0x40 + d.toNat % 0x40 =
            (a.toNat - 0xF0) * 262144 + (b.toNat - 0x80) * 4096 + (c.toNat - 0x80) * 64 + (d.toNat - 0x80) := by
          unfold Utf8.IsTail at tails
          omega
        simp only [utf8Value, utf8Tail.mpr tails.1, utf8Tail.mpr tails.2.1, utf8Tail.mpr tails.2.2, value,
          List.length_cons, List.take_succ_cons, List.take_zero, List.drop_succ_cons, List.drop_zero, if_true]
        rw [if_neg (by omega)]
        refine utf8Test ?_
        simp only [tails, true_and]
      · have other : ¬ (b.toNat / 0x40 = 2 ∧ c.toNat / 0x40 = 2 ∧ d.toNat / 0x40 = 2) := fun same =>
          tails ⟨utf8Tail.mp same.1, utf8Tail.mp same.2.1, utf8Tail.mp same.2.2⟩
        have refused : ∀ least : Prop, ¬ (Utf8.IsTail b ∧ Utf8.IsTail c ∧ Utf8.IsTail d ∧ least) := fun _ all =>
          tails ⟨all.1, all.2.1, all.2.2.1⟩
        by_cases first : b.toNat / 0x40 = 2
        · by_cases second : c.toNat / 0x40 = 2
          · have third : ¬ d.toNat / 0x40 = 2 := fun same => other ⟨first, second, same⟩
            simp [utf8Value, first, second, third, refused]
          · simp [utf8Value, first, second, refused]
        · simp [utf8Value, first, refused]
  rw [if_neg (show ¬ (0xF0 ≤ a.toNat ∧ a.toNat ≤ 0xF4) by omega), if_neg four]

/-- `valid_utf8` accepts exactly the well-formed texts. -/
theorem validUtf8_iff (s : Bytes) : validUtf8 s = true ↔ Utf8.WellFormed s := by
  induction length : s.length using Nat.strongRecOn generalizing s with
  | ind n ih =>
    cases s with
    | nil =>
      rw [validUtf8]
      exact ⟨fun _ => Utf8.wellFormed_nil, fun _ => rfl⟩
    | cons a s =>
      rw [validUtf8_cons]
      cases read : Utf8.decodeOne (a :: s) with
      | none => exact ⟨fun refused => Bool.noConfusion refused,
          fun whole => absurd whole (Utf8.not_wellFormed_of_decodeOne (List.cons_ne_nil _ _) read)⟩
      | some pair =>
        obtain ⟨code, rest⟩ := pair
        have shorter := Utf8.length_of_decodeOne read
        rw [Utf8.wellFormed_step read, Bool.and_eq_true, decide_eq_true_eq,
          ih rest.length (length ▸ shorter) rest rfl]

/-- A line without one trailing carriage return. -/
def pumpTrim (line : Bytes) : Bytes := if line.getLast? = some cr then line.dropLast else line

/-- The segments of a stream between line feeds, with the last one where it
is not empty, each without one trailing carriage return. -/
def streamLines (stream : Bytes) : List Bytes :=
  ((stream.splitOn lf).dropLast.map pumpTrim) ++
    ((stream.splitOn lf).getLast?.toList.filter fun line => !line.isEmpty).map pumpTrim

/-- The bytes that come before the end of a pipe. -/
def pumpStream : List PumpRead → Bytes
  | [] => []
  | .nothing :: reads => pumpStream reads
  | .got tmp _ :: reads => if tmp = [] then [] else tmp ++ pumpStream reads
  | _ :: _ => []

def linesOf (side : PumpSide) (calls : PumpCalls) : List Bytes :=
  (calls.filter fun call => call.1 == side).map Prod.snd

/-- Why feeding a stream may stop. -/
def PumpFails (host : PumpHost) (side : PumpSide) (stream : Bytes) : Prop :=
  host.listed side = false ∨ (∃ n, host.callback n = false) ∨ ∃ line ∈ streamLines stream, ¬ Utf8.WellFormed line

/-- The lines that a part of the stream completes have been given to the
callback, and the accumulator holds what comes after them. -/
structure Fed (side : PumpSide) (p : Pump) (calls : PumpCalls) (fed : Bytes) : Prop where
  whole : lf ∉ p.line
  lines : ∃ segments : List Bytes, linesOf side calls = segments.map pumpTrim ∧
    ∀ rest, (fed ++ rest).splitOn lf = segments ++ (p.line ++ rest).splitOn lf

/-- A callback that fails was called last. -/
def Halts (host : PumpHost) (calls : PumpCalls) (ok : Bool) : Prop :=
  ∀ n, n < calls.length → host.callback n = false → ok = false ∧ n + 1 = calls.length

section

variable {host : PumpHost} {side : PumpSide}

theorem linesOf_append (side : PumpSide) (calls calls' : PumpCalls) :
    linesOf side (calls ++ calls') = linesOf side calls ++ linesOf side calls' := by
  rw [linesOf, List.filter_append, List.map_append, linesOf, linesOf]

theorem linesOf_own (side : PumpSide) (line : Bytes) : linesOf side [(side, line)] = [line] := by
  simp [linesOf]

theorem linesOf_other {side other : PumpSide} (apart : other ≠ side) (line : Bytes) :
    linesOf other [(side, line)] = [] := by
  simp [linesOf, apart.symm]

theorem Fed.congr {side : PumpSide} {p p' : Pump} {calls calls' : PumpCalls} {fed : Bytes}
    (before : Fed side p calls fed)
    (line : p'.line = p.line) (lines : linesOf side calls' = linesOf side calls) : Fed side p' calls' fed where
  whole := line ▸ before.whole
  lines := by
    rw [lines, line]
    exact before.lines

/-- What one call of a callback does. -/
theorem pumpEmit_spec (host : PumpHost) (side : PumpSide) (calls : PumpCalls) (line : Bytes) :
    ((pumpEmit host side calls line).2 = true → (pumpEmit host side calls line).1 = calls ++ [(side, line)]) ∧
    ((pumpEmit host side calls line).2 = false → ¬ Utf8.WellFormed line ∨ host.listed side = false ∨
      ∃ n, host.callback n = false) ∧
    (∀ other, other ≠ side → linesOf other (pumpEmit host side calls line).1 = linesOf other calls) ∧
    (Halts host calls true → Halts host (pumpEmit host side calls line).1 (pumpEmit host side calls line).2) := by
  rw [pumpEmit]
  by_cases refused : validUtf8 line = false ∨ host.listed side = false
  · rw [if_pos refused]
    refine ⟨fun ok => absurd ok Bool.false_ne_true, fun _ => refused.imp (fun invalid => ?_) .inl, fun _ _ => rfl,
      fun halts n below failed => ?_⟩
    · rw [← validUtf8_iff, invalid]
      exact Bool.false_ne_true
    · exact Bool.noConfusion (halts n below failed).1
  · rw [if_neg refused]
    refine ⟨fun _ => rfl, fun failed => .inr (.inr ⟨_, failed⟩), fun other apart => ?_,
      fun halts n below failed => ?_⟩
    · rw [linesOf_append, linesOf_other apart, List.append_nil]
    · rw [List.length_append, List.length_singleton] at below ⊢
      rcases Nat.lt_succ_iff_lt_or_eq.mp below with earlier | rfl
      · exact Bool.noConfusion (halts n earlier failed).1
      · exact ⟨failed, rfl⟩

theorem streamLines_of_segments {stream rest line : Bytes} {segments : List Bytes}
    (split : stream.splitOn lf = segments ++ line :: rest.splitOn lf) : pumpTrim line ∈ streamLines stream := by
  refine List.mem_append_left _ (List.mem_map_of_mem ?_)
  rw [split, List.dropLast_append_of_ne_nil (List.cons_ne_nil _ _),
    List.dropLast_cons_of_ne_nil (List.splitOn_ne_nil _ _)]
  exact List.mem_append_right _ List.mem_cons_self

/-- A line feed completes the line. -/
theorem Fed.complete {p : Pump} {calls : PumpCalls} {fed : Bytes} (before : Fed side p calls fed) :
    Fed side { p with line := [] } (calls ++ [(side, pumpTrim p.line)]) (fed ++ [lf]) ∧
      ∀ rest, pumpTrim p.line ∈ streamLines (fed ++ lf :: rest) := by
  obtain ⟨segments, lines, splits⟩ := before.lines
  have completed : ∀ rest, (fed ++ lf :: rest).splitOn lf = segments ++ p.line :: rest.splitOn lf := by
    intro rest
    rw [splits, List.splitOn_append_cons_self, List.splitOn_eq_singleton before.whole]
    rfl
  refine ⟨⟨List.not_mem_nil, segments ++ [p.line], ?_, fun rest => ?_⟩,
    fun rest => streamLines_of_segments (completed rest)⟩
  · rw [linesOf_append, lines, linesOf_own, List.map_append]
    rfl
  · rw [List.append_assoc, List.append_assoc]
    exact completed rest

/-- A byte that is no line feed makes the line longer. -/
theorem Fed.longer {p p' : Pump} {calls : PumpCalls} {fed : Bytes} (before : Fed side p calls fed) {ch : UInt8}
    (other : ch ≠ lf) (line : p'.line = p.line ++ [ch]) : Fed side p' calls (fed ++ [ch]) where
  whole := by
    rw [line, List.mem_append, List.mem_singleton]
    exact not_or.mpr ⟨before.whole, Ne.symm other⟩
  lines := by
    obtain ⟨segments, lines, splits⟩ := before.lines
    refine ⟨segments, lines, fun rest => ?_⟩
    rw [line, List.append_assoc, List.append_assoc]
    exact splits ([ch] ++ rest)

/-- What feeding a chunk does. -/
structure FeedSpec (host : PumpHost) (side : PumpSide) (memory : Nat → Bool) (p : Pump) (calls : PumpCalls)
    (fed chunk : Bytes)
    (r : Pump × PumpCalls × Bool) : Prop where
  feeds : r.2.2 = true → Fed side r.1 r.2.1 (fed ++ chunk)
  fails : r.2.2 = false → ∀ rest, PumpFails host side (fed ++ chunk ++ rest) ∨ ∃ i, memory i = false
  other : ∀ other, other ≠ side → linesOf other r.2.1 = linesOf other calls
  halts : Halts host calls true → Halts host r.2.1 r.2.2
  eof : r.1.eof = p.eof
  cb : r.1.cb = p.cb

/-- What is fed after a byte is what is fed after the chunk before it. -/
theorem FeedSpec.after {memory : Nat → Bool} {p p' : Pump} {calls calls' : PumpCalls}
    {fed chunk : Bytes} {ch : UInt8}
    {r : Pump × PumpCalls × Bool} (rest : FeedSpec host side memory p' calls' (fed ++ [ch]) chunk r)
    (other : ∀ other, other ≠ side → linesOf other calls' = linesOf other calls)
    (halts : Halts host calls true → Halts host calls' true) (eof : p'.eof = p.eof) (cb : p'.cb = p.cb) :
    FeedSpec host side memory p calls fed (ch :: chunk) r := by
  have shape : fed ++ [ch] ++ chunk = fed ++ ch :: chunk := by rw [List.append_assoc]; rfl
  exact ⟨shape ▸ rest.feeds, shape ▸ rest.fails, fun side' apart => (rest.other side' apart).trans
    (other side' apart),
    fun before => rest.halts (halts before), rest.eof.trans eof, rest.cb.trans cb⟩

/-- Feeding a chunk byte by byte calls back each line that it completes. The
invariant is that the lines called back and the line so far are the lines of
what was fed. -/
theorem pumpFeed_spec (memory : Nat → Bool) (i : Nat) (data : Bytes) (p : Pump) (calls : PumpCalls) (fed : Bytes)
    (before : Fed side p calls fed) :
    FeedSpec host side memory p calls fed data (pumpFeed host side memory i data p calls) := by
  induction data generalizing i p calls fed with
  | nil =>
    refine ⟨fun _ => ?_, fun failed => Bool.noConfusion failed, fun _ _ => rfl, fun halts => halts, rfl, rfl⟩
    rw [List.append_nil]
    exact before
  | cons ch data ih =>
    rw [pumpFeed]
    by_cases feed : ch = lf
    · subst feed
      rw [if_pos rfl]
      obtain ⟨sent, refused, other, halts⟩ := pumpEmit_spec host side calls (pumpTrim p.line)
      obtain ⟨next, member⟩ := before.complete
      dsimp only
      rw [← pumpTrim]
      cases ok : (pumpEmit host side calls (pumpTrim p.line)).2 with
      | true =>
        rw [if_pos rfl]
        rw [sent ok] at other halts ⊢
        exact (ih (i + 1) _ _ _ next).after other (ok ▸ halts) rfl rfl
      | false =>
        rw [if_neg Bool.false_ne_true]
        refine ⟨fun right => Bool.noConfusion right, fun _ rest => .inl ?_, other, ok ▸ halts, rfl, rfl⟩
        rcases refused ok with invalid | unlisted | failing
        · refine .inr (.inr ⟨_, ?_, invalid⟩)
          rw [List.append_assoc]
          exact member (data ++ rest)
        · exact .inl unlisted
        · exact .inr (.inl failing)
    · rw [if_neg feed]
      split
      · cases room : memory i with
        | true =>
          rw [if_pos rfl]
          exact (ih (i + 1) _ calls _ (before.longer feed rfl)).after (fun _ _ => rfl) id rfl rfl
        | false =>
          rw [if_neg Bool.false_ne_true]
          refine ⟨fun right => Bool.noConfusion right, fun _ _ => .inr ⟨i, room⟩, fun _ _ => rfl, ?_, rfl, rfl⟩
          exact fun halts n below failed => ⟨rfl, (halts n below failed).2⟩
      · exact (ih (i + 1) _ calls _ (before.longer feed rfl)).after (fun _ _ => rfl) id rfl rfl

/-- The bytes that a read adds to the stream. -/
def pumpChunk (p : Pump) : PumpRead → Bytes
  | .got tmp _ => if p.eof then [] else tmp
  | _ => []

/-- The bytes still to come. -/
def pumpRest (p : Pump) (reads : List PumpRead) : Bytes := if p.eof then [] else pumpStream reads

/-- The line can grow at every byte of the read. -/
def PumpRead.Roomy : PumpRead → Prop
  | .got _ memory => ∀ i, memory i = true
  | _ => True

/-- What one read leaves is before what the later ones leave. -/
theorem pumpRest_cons (p : Pump) (read : PumpRead) (reads : List PumpRead) :
    ∃ more, pumpRest p (read :: reads) = pumpChunk p read ++ more := by
  by_cases ended : p.eof = true
  · refine ⟨[], ?_⟩
    cases read <;> simp [pumpRest, pumpChunk, ended]
  · cases read with
    | got tmp memory =>
      by_cases empty : tmp = []
      · exact ⟨[], by simp [pumpRest, pumpChunk, pumpStream, ended, empty]⟩
      · exact ⟨pumpStream reads, by simp [pumpRest, pumpChunk, pumpStream, ended, empty]⟩
    | _ => exact ⟨_, rfl⟩

/-- What one read of a pump does. -/
structure OnceSpec (host : PumpHost) (side : PumpSide) (read : PumpRead) (p : Pump)
    (calls : PumpCalls) (fed : Bytes)
    (r : Pump × PumpCalls × Bool) : Prop where
  feeds : p.cb = true → r.2.2 = true → Fed side r.1 r.2.1 (fed ++ pumpChunk p read)
  fails : r.2.2 = false → (p.cb = true ∧ ∀ rest, PumpFails host side (fed ++ pumpChunk p read ++ rest)) ∨
    ¬ read.Roomy
  other : ∀ other, other ≠ side → linesOf other r.2.1 = linesOf other calls
  halts : Halts host calls true → Halts host r.2.1 r.2.2
  rest : r.2.2 = true → ∀ reads, pumpRest p (read :: reads) = pumpChunk p read ++ pumpRest r.1 reads
  cb : r.1.cb = p.cb

/-- A read that adds nothing to the stream. -/
theorem OnceSpec.still {read : PumpRead} {p p' : Pump} {calls : PumpCalls} {fed : Bytes}
    (before : p.cb = true → Fed side p calls fed) (nothing : pumpChunk p read = []) (line : p'.line = p.line)
    (cb : p'.cb = p.cb) (rest : ∀ reads, pumpRest p (read :: reads) = pumpRest p' reads) :
    OnceSpec host side read p calls fed (p', calls, true) := by
  refine ⟨fun callback _ => ?_, fun failed => Bool.noConfusion failed, fun _ _ => rfl, id, fun _ reads => ?_, cb⟩
  · rw [nothing, List.append_nil]
    exact (before callback).congr line rfl
  · rw [nothing]
    exact rest reads

/-- One read of one pipe. -/
theorem pumpOnce_spec (p : Pump) (calls : PumpCalls) (read : PumpRead) (fed : Bytes)
    (before : p.cb = true → Fed side p calls fed) :
    OnceSpec host side read p calls fed (pumpOnce host side p calls read) := by
  rw [pumpOnce.eq_def]
  by_cases ended : p.eof = true
  · rw [if_pos ended]
    refine .still before ?_ rfl rfl fun reads => ?_
    · cases read <;> simp [pumpChunk, ended]
    · simp [pumpRest, ended]
  · rw [if_neg ended]
    cases read with
    | peekFailed => exact .still before rfl rfl rfl fun reads => by simp [pumpRest, ended, pumpStream]
    | nothing => exact .still before rfl rfl rfl fun reads => by simp [pumpRest, ended, pumpStream]
    | readFailed => exact .still before rfl rfl rfl fun reads => by simp [pumpRest, ended, pumpStream]
    | got tmp memory =>
      have chunk : pumpChunk p (.got tmp memory) = tmp := by simp [pumpChunk, ended]
      dsimp only
      by_cases empty : tmp = []
      · rw [if_pos empty]
        exact .still before (chunk.trans empty) rfl rfl fun reads => by simp [pumpRest, ended, pumpStream, empty]
      · rw [if_neg empty]
        have rest : ∀ p' : Pump, p'.eof = p.eof → ∀ reads,
            pumpRest p (.got tmp memory :: reads) = tmp ++ pumpRest p' reads := by
          intro p' same reads
          simp [pumpRest, same, ended, pumpStream, empty]
        by_cases callback : p.cb = true
        · rw [if_pos callback]
          have spec := @pumpFeed_spec host side memory 0 tmp p calls fed (before callback)
          refine ⟨fun _ ok => ?_, fun failed => ?_, spec.other, spec.halts, fun _ reads => ?_, spec.cb⟩
          · rw [chunk]
            exact spec.feeds ok
          · by_cases roomy : ∀ i, memory i = true
            · refine .inl ⟨callback, fun more => ?_⟩
              rw [chunk]
              refine (spec.fails failed more).resolve_right fun ⟨i, full⟩ => ?_
              rw [roomy i] at full
              cases full
            · exact .inr roomy
          · rw [chunk]
            exact rest _ spec.eof reads
        · rw [if_neg callback]
          refine ⟨fun on => absurd on callback, fun failed => Bool.noConfusion failed, fun _ _ => rfl, id,
            fun _ reads => ?_, rfl⟩
          rw [chunk]
          exact rest _ rfl reads

/-- All lines of a stream are those called back and the one that is held. -/
theorem Fed.all {p : Pump} {calls : PumpCalls} {fed : Bytes} (before : Fed side p calls fed) :
    streamLines fed = linesOf side calls ++ ([p.line].filter fun line => !line.isEmpty).map pumpTrim := by
  obtain ⟨segments, lines, splits⟩ := before.lines
  have split : fed.splitOn lf = segments ++ [p.line] := by
    have all := splits []
    rwa [List.append_nil, List.append_nil, List.splitOn_eq_singleton before.whole] at all
  rw [streamLines, split, List.dropLast_concat, List.getLast?_concat, lines]
  rfl

/-- What flushing a pump does. -/
theorem pumpFlush_spec (p : Pump) (calls : PumpCalls) (fed : Bytes) (before : p.cb = true → Fed side p calls fed) :
    (p.cb = true → (pumpFlush host side p calls).2.2 = true →
      linesOf side (pumpFlush host side p calls).2.1 = streamLines fed) ∧
    ((pumpFlush host side p calls).2.2 = false → p.cb = true ∧ PumpFails host side fed) ∧
    (∀ other, other ≠ side → linesOf other (pumpFlush host side p calls).2.1 = linesOf other calls) ∧
    (Halts host calls true → Halts host (pumpFlush host side p calls).2.1 (pumpFlush host side p calls).2.2) := by
  rw [pumpFlush]
  by_cases flush : p.cb = true ∧ 0 < p.line.length
  · rw [if_pos flush]
    obtain ⟨sent, refused, other, halts⟩ := pumpEmit_spec host side calls (pumpTrim p.line)
    have shown : [p.line].filter (fun line => !line.isEmpty) = [p.line] := by
      have nonempty := List.ne_nil_of_length_pos flush.2
      simp [nonempty]
    have all := (before flush.1).all
    rw [shown] at all
    dsimp only
    rw [← pumpTrim]
    refine ⟨fun _ ok => ?_, fun failed => ⟨flush.1, ?_⟩, other, halts⟩
    · rw [sent ok, linesOf_append, linesOf_own, all]
      rfl
    · rcases refused failed with invalid | unlisted | failing
      · refine .inr (.inr ⟨_, ?_, invalid⟩)
        rw [all]
        exact List.mem_append_right _ List.mem_cons_self
      · exact .inl unlisted
      · exact .inr (.inl failing)
  · rw [if_neg flush]
    refine ⟨fun callback _ => ?_, fun failed => Bool.noConfusion failed, fun _ _ => rfl, id⟩
    have empty : p.line = [] := by
      refine List.eq_nil_of_length_eq_zero (Nat.eq_zero_of_not_pos fun positive => flush ⟨callback, positive⟩)
    rw [(before callback).all, empty]
    exact (List.append_nil _).symm

/-- Both pumps, each with the part of its stream that has been read. -/
structure PumpsFed (s : Pumps) (out err : Bytes) : Prop where
  out : s.out.cb = true → Fed .out s.out s.calls out
  err : s.err.cb = true → Fed .err s.err s.calls err

/-- There is memory for the turn and the wait for the child does not fail.
-/
def PumpTurn.Smooth (turn : PumpTurn) : Prop := turn.out.Roomy ∧ turn.err.Roomy ∧ turn.wait ≠ .failed

/-- What a turn without an error leaves. -/
structure Went (host : PumpHost) (s : Pumps) (turn : PumpTurn) (out err : Bytes) (s' : Pumps) : Prop where
  fed : PumpsFed s' (out ++ pumpChunk s.out turn.out) (err ++ pumpChunk s.err turn.err)
  halts : Halts host s'.calls true
  outRest : ∀ reads, pumpRest s.out (turn.out :: reads) = pumpChunk s.out turn.out ++ pumpRest s'.out reads
  errRest : ∀ reads, pumpRest s.err (turn.err :: reads) = pumpChunk s.err turn.err ++ pumpRest s'.err reads
  outCb : s'.out.cb = s.out.cb
  errCb : s'.err.cb = s.err.cb

/-- Why a turn leaves the loop with an error. -/
def TurnFails (host : PumpHost) (s : Pumps) (turn : PumpTurn) (out err : Bytes) : Prop :=
  (s.out.cb = true ∧ ∀ rest, PumpFails host .out (out ++ pumpChunk s.out turn.out ++ rest)) ∨
  (s.err.cb = true ∧ ∀ rest, PumpFails host .err (err ++ pumpChunk s.err turn.err ++ rest)) ∨ ¬ turn.Smooth

/-- One turn of the loop reads both pipes at most once, and leaves only
where both have ended, an error stops it, or a callback does. -/
theorem pumpTurn_spec {s : Pumps} {out err : Bytes} (fed : PumpsFed s out err) (halts : Halts host s.calls true)
    (turn : PumpTurn) :
    match pumpTurn host s turn with
    | .again s' => Went host s turn out err s'
    | .left s' true => Went host s turn out err s' ∧ s'.out.eof = true ∧ s'.err.eof = true
    | .left s' false => Halts host s'.calls false ∧ TurnFails host s turn out err := by
  have first := @pumpOnce_spec host .out s.out s.calls turn.out out fed.out
  rw [pumpTurn]
  cases ok : (pumpOnce host .out s.out s.calls turn.out).2.2 with
  | false =>
    rw [if_pos rfl]
    refine ⟨ok ▸ first.halts halts, ?_⟩
    rcases first.fails ok with fails | full
    · exact .inl fails
    · exact .inr (.inr fun smooth => full smooth.1)
  | true =>
    rw [if_neg Bool.noConfusion]
    have before : s.err.cb = true → Fed .err s.err (pumpOnce host .out s.out s.calls turn.out).2.1 err :=
      fun callback => (fed.err callback).congr rfl (first.other .err (by decide))
    have second := @pumpOnce_spec host .err s.err _ turn.err err before
    have halts' : Halts host (pumpOnce host .out s.out s.calls turn.out).2.1 true := ok ▸ first.halts halts
    dsimp only
    cases ok' : (pumpOnce host .err s.err (pumpOnce host .out s.out s.calls turn.out).2.1 turn.err).2.2 with
    | false =>
      rw [if_pos rfl]
      refine ⟨ok' ▸ second.halts halts', ?_⟩
      rcases second.fails ok' with fails | full
      · exact .inr (.inl fails)
      · exact .inr (.inr fun smooth => full smooth.2.1)
    | true =>
      rw [if_neg Bool.noConfusion]
      have went : Went host s turn out err ⟨_, _, (pumpOnce host .err s.err
          (pumpOnce host .out s.out s.calls turn.out).2.1 turn.err).2.1⟩ :=
        ⟨⟨fun callback => (first.feeds (first.cb ▸ callback) ok).congr rfl (second.other .out (by decide)),
          fun callback => second.feeds (second.cb ▸ callback) ok'⟩, ok' ▸ second.halts halts',
          first.rest ok, second.rest ok', first.cb, second.cb⟩
      cases waited : turn.wait with
      | object =>
        by_cases ended : ((pumpOnce host .out s.out s.calls turn.out).1.eof && (pumpOnce host .err s.err
            (pumpOnce host .out s.out s.calls turn.out).2.1 turn.err).1.eof) = true
        · simp only [ended, if_true]
          exact ⟨went, Bool.and_eq_true_iff.mp ended⟩
        · simp only [ended]
          exact went
      | timeout => exact went
      | failed =>
        refine ⟨fun n below failed => ?_, .inr (.inr fun smooth => smooth.2.2 waited)⟩
        exact Bool.noConfusion (went.halts n below failed).1

/-- Behind the loop the last line of each stream is called back without its
line feed. -/
theorem pumpsFlush_spec {s : Pumps} {out err : Bytes} (fed : PumpsFed s out err) (halts : Halts host s.calls true) :
    ((pumpsFlush host s).2 = true → (s.out.cb = true → linesOf .out (pumpsFlush host s).1.calls = streamLines out) ∧
      (s.err.cb = true → linesOf .err (pumpsFlush host s).1.calls = streamLines err)) ∧
    ((pumpsFlush host s).2 = false → (s.out.cb = true ∧ PumpFails host .out out) ∨
      (s.err.cb = true ∧ PumpFails host .err err)) ∧
    Halts host (pumpsFlush host s).1.calls (pumpsFlush host s).2 := by
  obtain ⟨sent, refused, other, stops⟩ := @pumpFlush_spec host .out s.out s.calls out fed.out
  rw [pumpsFlush]
  cases ok : (pumpFlush host .out s.out s.calls).2.2 with
  | false =>
    rw [if_pos rfl]
    exact ⟨fun right => Bool.noConfusion right, fun _ => .inl (refused ok), ok ▸ stops halts⟩
  | true =>
    rw [if_neg Bool.noConfusion]
    have before : s.err.cb = true → Fed .err s.err (pumpFlush host .out s.out s.calls).2.1 err :=
      fun callback => (fed.err callback).congr rfl (other .err (by decide))
    obtain ⟨sent', refused', other', stops'⟩ := @pumpFlush_spec host .err s.err _ err before
    refine ⟨fun ok' => ⟨fun callback => ?_, fun callback => sent' callback ok'⟩,
      fun failed => .inr (refused' failed),
      stops' (ok ▸ stops halts)⟩
    exact (other' .out (by decide)).trans (sent callback ok)

/-- By induction on the turns: the lines called back are those of the bytes
read, in their order, for each of the two streams by itself. -/
theorem childPump_spec (turns : List PumpTurn) {s s' : Pumps} {ok : Bool} {out err : Bytes}
    (fed : PumpsFed s out err)
    (halts : Halts host s.calls true) (ran : childPump host s turns = some (s', ok)) :
    (ok = true →
      (s.out.cb = true → linesOf .out s'.calls = streamLines (out ++ pumpRest s.out (turns.map PumpTurn.out))) ∧
      (s.err.cb = true → linesOf .err s'.calls = streamLines (err ++ pumpRest s.err (turns.map PumpTurn.err)))) ∧
    (ok = false →
      (s.out.cb = true ∧ PumpFails host .out (out ++ pumpRest s.out (turns.map PumpTurn.out))) ∨
      (s.err.cb = true ∧ PumpFails host .err (err ++ pumpRest s.err (turns.map PumpTurn.err))) ∨
      ∃ turn ∈ turns, ¬ turn.Smooth) ∧
    Halts host s'.calls ok := by
  induction turns generalizing s out err with
  | nil => cases ran
  | cons turn turns ih =>
    have spec := pumpTurn_spec fed halts turn
    rw [childPump] at ran
    rw [List.map_cons, List.map_cons]
    cases next : pumpTurn host s turn with
    | again t =>
      rw [next] at spec ran
      have rest := ih spec.fed spec.halts ran
      rw [spec.outCb, spec.errCb, List.append_assoc, List.append_assoc, ← spec.outRest, ← spec.errRest] at rest
      refine ⟨rest.1, fun failed => (rest.2.1 failed).imp id (Or.imp id ?_), rest.2.2⟩
      exact fun ⟨turn', inside, rough⟩ => ⟨turn', List.mem_cons_of_mem _ inside, rough⟩
    | left t good =>
      rw [next] at spec ran
      cases good with
      | false =>
        obtain ⟨rfl, rfl⟩ := Prod.mk.inj (Option.some.inj ran)
        refine ⟨fun right => Bool.noConfusion right, fun _ => ?_, spec.1⟩
        obtain ⟨outMore, outRest⟩ := pumpRest_cons s.out turn.out (turns.map PumpTurn.out)
        obtain ⟨errMore, errRest⟩ := pumpRest_cons s.err turn.err (turns.map PumpTurn.err)
        rw [outRest, errRest, ← List.append_assoc, ← List.append_assoc]
        rcases spec.2 with ⟨callback, fails⟩ | ⟨callback, fails⟩ | rough
        · exact .inl ⟨callback, fails outMore⟩
        · exact .inr (.inl ⟨callback, fails errMore⟩)
        · exact .inr (.inr ⟨turn, List.mem_cons_self, rough⟩)
      | true =>
        obtain ⟨went, ended, ended'⟩ := spec
        have outRest := went.outRest (turns.map PumpTurn.out)
        have errRest := went.errRest (turns.map PumpTurn.err)
        rw [pumpRest, pumpRest, if_pos ended, List.append_nil] at outRest
        rw [pumpRest, pumpRest, if_pos ended', List.append_nil] at errRest
        have flushed := pumpsFlush_spec went.fed went.halts
        rw [went.outCb, went.errCb, ← outRest, ← errRest] at flushed
        have same : pumpsFlush host t = (s', ok) := Option.some.inj ran
        rw [same] at flushed
        exact ⟨flushed.1, fun failed => (flushed.2.1 failed).imp id .inl, flushed.2.2⟩

/-- The pipe has ended. -/
def PumpRead.Ends : PumpRead → Prop
  | .peekFailed => True
  | .nothing => False
  | .readFailed => True
  | .got tmp _ => tmp = []

/-- A pipe that has ended stays so. -/
theorem pumpOnce_eof {side : PumpSide} {p : Pump} {calls : PumpCalls} {read : PumpRead}
    (ended : p.eof = true ∨ read.Ends) :
    (pumpOnce host side p calls read).1.eof = true := by
  unfold pumpOnce
  by_cases eof : p.eof = true
  · rw [if_pos eof]
    exact eof
  · rw [if_neg eof]
    have ends := ended.resolve_left eof
    cases read with
    | peekFailed => rfl
    | nothing => cases ends
    | readFailed => rfl
    | got tmp memory =>
      have empty : tmp = [] := ends
      simp only [empty, if_true]

/-- A turn after which the loop goes on has both ends in mind. -/
theorem pumpTurn_eof {s t : Pumps} {turn : PumpTurn} (next : pumpTurn host s turn = .again t) :
    (s.out.eof = true ∨ turn.out.Ends → t.out.eof = true) ∧ (s.err.eof = true ∨ turn.err.Ends → t.err.eof = true) ∧
      (turn.wait = .object → (t.out.eof && t.err.eof) = false) := by
  unfold pumpTurn at next
  by_cases out : (pumpOnce host .out s.out s.calls turn.out).2.2 = false
  · rw [if_pos out] at next
    cases next
  rw [if_neg out] at next
  dsimp only at next
  by_cases err : (pumpOnce host .err s.err (pumpOnce host .out s.out s.calls turn.out).2.1 turn.err).2.2 = false
  · rw [if_pos err] at next
    cases next
  rw [if_neg err] at next
  cases waited : turn.wait with
  | object =>
    rw [waited] at next
    dsimp only at next
    split_ifs at next with both
    obtain rfl := PumpNext.again.inj next
    exact ⟨pumpOnce_eof, pumpOnce_eof, fun _ => eq_false_of_ne_true both⟩
  | timeout =>
    rw [waited] at next
    obtain rfl := PumpNext.again.inj next
    exact ⟨pumpOnce_eof, pumpOnce_eof, nofun⟩
  | failed =>
    rw [waited] at next
    cases next

theorem ended_later {eof eof' : Prop} {ends : PumpTurn → Prop} {turn : PumpTurn} {turns : List PumpTurn}
    (step : eof ∨ ends turn → eof') (ended : eof ∨ ∃ t ∈ turn :: turns, ends t) : eof' ∨ ∃ t ∈ turns, ends t := by
  rcases ended with before | ⟨t, inside, here⟩
  · exact .inl (step (.inl before))
  · rcases List.mem_cons.mp inside with rfl | later
    · exact .inl (step (.inr here))
    · exact .inr ⟨t, later, here⟩

/-- The loop is left where both pipes have ended and the child is done. -/
theorem childPump_leaves {s : Pumps} {before after : List PumpTurn} {last : PumpTurn}
    (out : s.out.eof = true ∨ ∃ turn ∈ before ++ [last], turn.out.Ends)
    (err : s.err.eof = true ∨ ∃ turn ∈ before ++ [last], turn.err.Ends) (done : last.wait = .object) :
    (childPump host s (before ++ last :: after)).isSome = true := by
  induction before generalizing s with
  | nil =>
    simp only [List.nil_append, List.mem_singleton, exists_eq_left] at out err
    rw [List.nil_append, childPump]
    cases next : pumpTurn host s last with
    | again t =>
      obtain ⟨outEnds, errEnds, not⟩ := pumpTurn_eof next
      have both := not done
      rw [outEnds out, errEnds err] at both
      cases both
    | left t ok => cases ok <;> rfl
  | cons turn before ih =>
    rw [List.cons_append, childPump]
    cases next : pumpTurn host s turn with
    | again t =>
      obtain ⟨outEnds, errEnds, -⟩ := pumpTurn_eof next
      exact ih (ended_later outEnds out) (ended_later errEnds err)
    | left t ok => cases ok <;> rfl

end

theorem linesOf_nil (side : PumpSide) : linesOf side [] = [] := rfl

theorem pumpsStart_fed (onout onerr : Bool) (ro re : ChildReader) : PumpsFed (pumpsStart onout onerr ro re) [] [] :=
  ⟨fun _ => ⟨List.not_mem_nil, [], linesOf_nil .out, fun _ => rfl⟩,
    fun _ => ⟨List.not_mem_nil, [], linesOf_nil .err, fun _ => rfl⟩⟩

/-- A pump that ends well has called each callback with exactly the lines of
its stream, in order, however the stream was read; it ends badly only where
a line is not UTF-8, a callback fails or a call of the system does; and a
callback that fails is the last one called. -/
theorem childPump_lines (host : PumpHost) (onout onerr : Bool) (ro re : ChildReader)
    (turns : List PumpTurn) {s : Pumps}
    {ok : Bool} (ran : childPump host (pumpsStart onout onerr ro re) turns = some (s, ok)) :
    (ok = true →
      (onout = true → linesOf .out s.calls = streamLines (pumpStream (turns.map PumpTurn.out))) ∧
      (onerr = true → linesOf .err s.calls = streamLines (pumpStream (turns.map PumpTurn.err)))) ∧
    (ok = false →
      (onout = true ∧ PumpFails host .out (pumpStream (turns.map PumpTurn.out))) ∨
      (onerr = true ∧ PumpFails host .err (pumpStream (turns.map PumpTurn.err))) ∨ ∃ turn ∈ turns, ¬ turn.Smooth) ∧
    Halts host s.calls ok := by
  have start : Halts host (pumpsStart onout onerr ro re).calls true :=
    fun n below => absurd below (Nat.not_lt_zero n)
  exact childPump_spec turns (pumpsStart_fed onout onerr ro re) start ran

/-- Two lines whose ends fall between the reads, the second one unfinished.
-/
def twoLines : List PumpTurn :=
  [⟨.got [0x61, cr] fun _ => true, .peekFailed, .timeout⟩, ⟨.got [lf, 0x62] fun _ => true, .nothing, .timeout⟩,
    ⟨.peekFailed, .nothing, .object⟩]

theorem childPump_lines_sample :
    ∃ s, childPump ⟨fun _ => true, fun _ => true⟩ (pumpsStart true false ⟨[], 8, false, 0, false⟩
      ⟨[], 8, false, 0, false⟩) twoLines =
      some (s, true) ∧ linesOf .out s.calls = [ascii "a", ascii "b"] := by
  have left : (childPump ⟨fun _ => true, fun _ => true⟩
      (pumpsStart true false ⟨[], 8, false, 0, false⟩ ⟨[], 8, false, 0, false⟩) twoLines).isSome = true :=
    @childPump_leaves _ _ (twoLines.take 2) [] ⟨.peekFailed, .nothing, .object⟩
      (.inr ⟨_, List.mem_append_right _ (List.mem_singleton_self _), trivial⟩)
      (.inr ⟨_, List.mem_append_left _ (List.mem_cons_self ..), trivial⟩) rfl
  obtain ⟨⟨s, ok⟩, ran⟩ := Option.isSome_iff_exists.mp left
  obtain ⟨good, bad, -⟩ := childPump_lines _ true false _ _ _ ran
  cases ok with
  | true => exact ⟨s, ran, ((good rfl).1 rfl).trans (by decide)⟩
  | false =>
    rcases bad rfl with ⟨-, fails⟩ | ⟨other, -⟩ | ⟨turn, member, rough⟩
    · rcases fails with unlisted | ⟨n, refused⟩ | ⟨line, member, invalid⟩
      · cases unlisted
      · cases refused
      · have whole : ∀ line ∈ streamLines (pumpStream (twoLines.map PumpTurn.out)), Utf8.WellFormed line := by
          decide
        exact absurd (whole line member) invalid
    · cases other
    · have smooth : ∀ turn ∈ twoLines, turn.Smooth :=
        List.forall_mem_cons.mpr ⟨⟨fun _ => rfl, trivial, nofun⟩,
          List.forall_mem_cons.mpr ⟨⟨fun _ => rfl, trivial, nofun⟩,
          List.forall_mem_singleton.mpr ⟨trivial, trivial, nofun⟩⟩⟩
      exact absurd (smooth turn member) rough

end Machteld
