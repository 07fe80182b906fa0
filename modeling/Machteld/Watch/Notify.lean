import Machteld.Checked
import Machteld.RecordPath
import Machteld.Watch.Records

namespace Machteld

/-- `FILE_NOTIFY_INFORMATION` -/
def notifyFormat : RecordFormat UInt8 where
  Fits := NotifySized
  next := nextEntryOffset
  Follows rest := notifyHeader ≤ nextEntryOffset rest ∧ nextEntryOffset rest ≤ rest.length

/-- The record loop of `watch_thread` with the buffer and the offset in it.
It has no result where it reads outside the buffer or a size wraps. -/
def notifyLoop (allocs : Nat → WatchAllocs) (buf : Bytes) : Nat → Nat → Nat → Watch → Option Watch
  | 0, _, _, _ => none
  | fuel + 1, i, off, w => do
    let front ← sizeAdd off notifyHeader
    if buf.length < front then return w
    let len ← readDword buf (off + 8)
    let left ← sizeSub buf.length off
    let room ← sizeSub left notifyHeader
    if len % 2 ≠ 0 ∨ room < len then return watchInvalid w
    let name ← readWide buf front (len / 2)
    let action ← readDword buf (off + 4)
    let w := watchRecord w (allocs i) action name
    let next ← readDword buf off
    if next = 0 then return w
    if next < notifyHeader ∨ left < next then return watchInvalid w
    notifyLoop allocs buf fuel (i + 1) (← sizeAdd off next) w

/-- What the watch holds behind some records. -/
def watchRecorded (allocs : Nat → WatchAllocs) : Nat → List Bytes → Watch → Watch
  | _, [], w => w
  | i, record :: records, w =>
    watchRecorded allocs (i + 1) records (watchRecord w (allocs i) (notifyAction record) (notifyName record))

/-- The loop reads inside the buffer, and what it does is `watchRecords`. -/
theorem notifyLoop_eq (allocs : Nat → WatchAllocs) {buf : Bytes} (sized : DwordSized buf)
    {fuel i off : Nat} (w : Watch)
    (inside : off ≤ buf.length) (enough : buf.length - off < fuel) :
    notifyLoop allocs buf fuel i off w = some (watchRecords allocs i (buf.drop off) w) := by
  unfold DwordSized at sized
  induction fuel generalizing i off w with
  | zero => omega
  | succ fuel ih =>
    have long : (buf.drop off).length = buf.length - off := List.length_drop
    have bound := dword_lt (buf.drop off) 0
    have wide := dword_lt (buf.drop off) 8
    rw [notifyLoop, watchRecords, long]
    unfold notifyHeader
    rw [sizeAdd_below (by omega), Option.bind_eq_bind, Option.bind_some]
    by_cases short : buf.length < off + 12
    · rw [if_pos short, dif_pos (by omega)]
      rfl
    rw [if_neg short, dif_neg (by omega), readDword_inside (by omega), Option.bind_some, sizeSub_le (by omega),
      Option.bind_some, sizeSub_le (by omega), Option.bind_some]
    change (if dword (buf.drop off) 8 % 2 ≠ 0 ∨ buf.length - off - 12 < dword (buf.drop off) 8 then _ else _) = _
    unfold fileNameLength
    by_cases malformed : dword (buf.drop off) 8 % 2 ≠ 0 ∨ buf.length - off - 12 < dword (buf.drop off) 8
    · rw [if_pos malformed, if_pos malformed]
      rfl
    rw [if_neg malformed, if_neg malformed]
    simp only [not_or, not_not, Nat.not_lt] at malformed
    have name : readWide buf (off + 12) (dword (buf.drop off) 8 / 2) = some (notifyName (buf.drop off)) := by
      rw [readWide_inside (by omega), notifyName, notifyHeader, List.drop_drop, fileNameLength,
        Nat.mul_div_cancel' (Nat.dvd_of_mod_eq_zero malformed.1)]
    have next : readDword buf off = some (nextEntryOffset (buf.drop off)) := @readDword_inside buf off 0 (by omega)
    rw [name, Option.bind_eq_bind, Option.bind_some, readDword_inside (by omega), Option.bind_some, next,
      Option.bind_some]
    change (if nextEntryOffset (buf.drop off) = 0 then _ else _) = _
    unfold nextEntryOffset notifyAction
    by_cases ends : dword (buf.drop off) 0 = 0
    · rw [if_pos ends, if_pos ends]
      rfl
    rw [if_neg ends, if_neg ends]
    by_cases outside : dword (buf.drop off) 0 < 12 ∨ buf.length - off < dword (buf.drop off) 0
    · rw [if_pos outside, dif_pos outside]
      rfl
    rw [if_neg outside, dif_neg outside, sizeAdd_below (by omega), Option.bind_some, ih _ (by omega)
      (by omega), List.drop_drop]

variable {allocs : Nat → WatchAllocs} {i : Nat} {rest last tail : Bytes} {records : List Bytes} {w : Watch}

/-- A record of a buffer never makes a watch fail. -/
theorem watchRecord_failed (w : Watch) (allocs : WatchAllocs) (action : Nat) (name : List UInt16) :
    (watchRecord w allocs action name).failed = w.failed := by
  have appended : ∀ (w : Watch) (strdup : Bool) path, (watchAppend w strdup action path).failed = w.failed := by
    intro w strdup path
    cases strdup <;> rfl
  have pushed : ∀ path, (watchPush w allocs action path).failed = w.failed := by
    intro path
    unfold watchPush
    split
    · rfl
    split
    · split
      · exact appended _ _ path
      · rfl
    · exact appended _ _ path
  unfold watchRecord
  split
  · rfl
  · split
    · rfl
    · exact pushed _

theorem watchRecorded_failed : (watchRecorded allocs i records w).failed = w.failed := by
  induction records generalizing i w with
  | nil => rfl
  | cons record records ih => exact ih.trans (watchRecord_failed ..)

theorem NotifySized.step (sized : NotifySized rest) (more : nextEntryOffset rest ≠ 0)
    (follows : notifyHeader ≤ nextEntryOffset rest ∧ nextEntryOffset rest ≤ rest.length) :
    watchRecords allocs i rest w = watchRecords allocs (i + 1) (rest.drop (nextEntryOffset rest))
      (watchRecord w (allocs i) (notifyAction rest) (notifyName rest)) := by
  rw [watchRecords, dif_neg (Nat.not_lt.mpr sized.room),
    if_neg (not_or.mpr ⟨not_not.mpr sized.even, Nat.not_lt.mpr sized.fits⟩)]
  dsimp only
  rw [if_neg more, dif_neg (not_or.mpr ⟨Nat.not_lt.mpr follows.1, Nat.not_lt.mpr follows.2⟩)]

/-- Every record on the way is taken once. -/
theorem watchRecords_path (path : RecordPath notifyFormat rest records tail) :
    watchRecords allocs i rest w = watchRecords allocs (i + records.length) tail
      (watchRecorded allocs i records w) := by
  induction path generalizing i w with
  | here rest => rfl
  | @step _ later' _ fits more follows later ih =>
    have shift : i + (later'.length + 1) = i + 1 + later'.length := by omega
    rw [NotifySized.step fits more follows, watchRecorded, List.length_cons, shift]
    exact ih

theorem watchRecorded_snoc : watchRecorded allocs i (records ++ [last]) w =
    watchRecord (watchRecorded allocs i records w) (allocs (i + records.length)) (notifyAction last)
      (notifyName last) := by
  induction records generalizing i w with
  | nil => rfl
  | cons record records ih =>
    have shift : i + (records.length + 1) = i + 1 + records.length := by omega
    rw [List.cons_append, watchRecorded, ih, watchRecorded, List.length_cons, shift]

theorem watchRecords_chain (chain : RecordChain notifyFormat rest records last) :
    watchRecords allocs i rest w = watchRecorded allocs i (records ++ [last]) w := by
  have sized : NotifySized last := chain.fits
  rw [watchRecords_path chain.path, watchRecorded_snoc, watchRecords, dif_neg (Nat.not_lt.mpr sized.room),
    if_neg (not_or.mpr ⟨not_not.mpr sized.even, Nat.not_lt.mpr sized.fits⟩)]
  exact if_pos chain.ends

theorem watchRecords_cut (path : RecordPath notifyFormat rest records tail) (cut : tail.length < notifyHeader) :
    watchRecords allocs i rest w = watchRecorded allocs i records w := by
  rw [watchRecords_path path, watchRecords, dif_pos cut]

/-- From every record on the next offset leads to a place with room for a
header. -/
def NotifyUncut (buf : Bytes) : Prop :=
  ∀ records tail, RecordPath notifyFormat buf records tail → notifyHeader ≤ tail.length

/-- A buffer that is not cut is a chain of records, or the watch fails over
it with the error of invalid data; there is no third way to read it. -/
theorem NotifyUncut.chain_or_failed (uncut : NotifyUncut rest) :
    (∃ records last, RecordChain notifyFormat rest records last) ∨
      (watchRecords allocs i rest w).failed = true ∧ (watchRecords allocs i rest w).error = errorInvalidData := by
  fun_induction watchRecords allocs i rest w with
  | case1 i rest w short => exact absurd (uncut [] rest (.here rest)) (Nat.not_le.mpr short)
  | case2 i rest w room malformed => exact .inr ⟨rfl, rfl⟩
  | case3 i rest w room sized w' ends =>
    simp only [not_or, not_not, Nat.not_lt] at sized
    exact .inl ⟨[], rest, .here rest, ⟨Nat.not_lt.mp room, sized.1, sized.2⟩, ends⟩
  | case4 i rest w room sized w' more outside => exact .inr ⟨rfl, rfl⟩
  | case5 i rest w room sized w' more inside ih =>
    simp only [not_or, not_not, Nat.not_lt] at sized inside
    have fits : NotifySized rest := ⟨Nat.not_lt.mp room, sized.1, sized.2⟩
    have uncut' : NotifyUncut (rest.drop (nextEntryOffset rest)) := fun records tail path =>
      uncut (rest :: records) tail (.step fits more inside path)
    rcases ih uncut' with ⟨records, last, chain⟩ | flagged
    · exact .inl ⟨rest :: records, last, chain.step fits more inside⟩
    · exact .inr flagged

/-- The loop stays inside the buffer, takes every record of a chain once,
and fails the watch where there is no chain. -/
structure NotifyParsed (allocs : Nat → WatchAllocs) (buf : Bytes) (w w' : Watch) : Prop where
  loop : notifyLoop allocs buf (buf.length + 1) 0 0 w = some w'
  takes : ∀ records last, RecordChain notifyFormat buf records last →
    w' = watchRecorded allocs 0 (records ++ [last]) w
  flags : (∃ records last, RecordChain notifyFormat buf records last) ∨ w'.failed = true ∧
    w'.error = errorInvalidData

/-- Every record is read inside the buffer exactly where no record is cut.
The offsets of a buffer are checked before its records are read, apart from
the header at the place that an offset leads to. -/
theorem notifyParsed_iff (allocs : Nat → WatchAllocs) {buf : Bytes} (sized : DwordSized buf)
    (healthy : w.failed = false) :
    (∃ w', NotifyParsed allocs buf w w') ↔ NotifyUncut buf := by
  have loop : notifyLoop allocs buf (buf.length + 1) 0 0 w = some (watchRecords allocs 0 buf w) :=
    notifyLoop_eq allocs sized w (Nat.zero_le _) (Nat.lt_succ_self _)
  constructor
  · rintro ⟨w', parsed⟩ records tail path
    refine Nat.not_lt.mp fun cut => ?_
    rcases parsed.flags with ⟨others, last, chain⟩ | ⟨failed, -⟩
    · have sized : NotifySized tail := chain.path_fits path
      exact Nat.not_lt.mpr sized.room cut
    · rw [Option.some.inj (parsed.loop.symm.trans loop), watchRecords_cut path cut, watchRecorded_failed,
        healthy] at failed
      cases failed
  · intro uncut
    exact ⟨_, loop, fun records last chain => watchRecords_chain chain, uncut.chain_or_failed⟩

end Machteld
