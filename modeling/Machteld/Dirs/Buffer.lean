import Machteld.Dirs.Prefix
import Machteld.Watch.Notify

namespace Machteld

/-- `offsetof(FILE_ID_BOTH_DIR_INFO, FileName)` -/
def dirHeader : Nat := 104

def dirNameLength (record : Bytes) : Nat := dword record 60

def bitSet (n bit : Nat) : Bool := n / bit % 2 == 1

/-- A `FILE_ID_BOTH_DIR_INFO` at the front of the bytes. -/
def dirRecord (record : Bytes) : DirEntry where
  name := wideUnits ((record.drop dirHeader).take (dirNameLength record))
  directory := bitSet (dword record 56) 0x10
  reparse := bitSet (dword record 56) 0x400
  eaSize := UInt32.ofNat (dword record 64)

structure DirSized (rest : Bytes) : Prop where
  even : dirNameLength rest % 2 = 0
  fits : dirHeader + dirNameLength rest ≤ rest.length

structure DirFollows (rest : Bytes) : Prop where
  aligned : nextEntryOffset rest % 8 = 0
  behind : dirHeader + dirNameLength rest ≤ nextEntryOffset rest
  inside : nextEntryOffset rest ≤ rest.length

def dirFormat : RecordFormat UInt8 := ⟨DirSized, nextEntryOffset, DirFollows⟩

/-- The record loop of `dirs_children` over one buffer. It has no result
where it reads outside the buffer or a size wraps. -/
def dirsBuffer (buf : Bytes) : Nat → Nat → Option DirBatch
  | 0, _ => none
  | fuel + 1, off => do
    let front ← sizeAdd off dirHeader
    if buf.length < front then return ⟨[], true⟩
    let len ← readDword buf (off + 60)
    if len % 2 ≠ 0 then return ⟨[], true⟩
    let ends ← sizeAdd front len
    if buf.length < ends then return ⟨[], true⟩
    let name ← readWide buf front (len / 2)
    let attributes ← readDword buf (off + 56)
    let eaSize ← readDword buf (off + 64)
    let e := ⟨name, bitSet attributes 0x10, bitSet attributes 0x400, UInt32.ofNat eaSize⟩
    let next ← readDword buf off
    if next = 0 then return ⟨[e], false⟩
    let used ← sizeAdd dirHeader len
    let left ← sizeSub buf.length off
    if next % 8 ≠ 0 ∨ next < used ∨ left < next then return ⟨[e], true⟩
    let batch ← dirsBuffer buf fuel (← sizeAdd off next)
    return ⟨e :: batch.entries, batch.overrun⟩

/-- What the walk gets of a buffer: every record of a chain once, or the
overrun where there is no chain. -/
structure DirsParsed (buf : Bytes) (batch : DirBatch) : Prop where
  takes : ∀ records last, RecordChain dirFormat buf records last →
    batch = ⟨(records ++ [last]).map dirRecord, false⟩
  flags : (∃ records last, RecordChain dirFormat buf records last) ∨ batch.overrun = true

theorem DirsParsed.refused {rest : Bytes} (entries : List DirEntry)
    (absent : ∀ records last, ¬ RecordChain dirFormat rest records last) : DirsParsed rest ⟨entries, true⟩ :=
  ⟨fun records last chain => absurd chain (absent records last), .inr rfl⟩

theorem DirsParsed.ended {rest : Bytes} (sized : DirSized rest) (ends : nextEntryOffset rest = 0) :
    DirsParsed rest ⟨[dirRecord rest], false⟩ where
  takes records last chain := by
    rcases chain.first.2 with ⟨rfl, rfl, -⟩ | ⟨more, -⟩
    · rfl
    · exact absurd ends more
  flags := .inl ⟨[], rest, .here rest, sized, ends⟩

theorem DirsParsed.more {rest : Bytes} {batch : DirBatch} (sized : DirSized rest) (more : nextEntryOffset rest ≠ 0)
    (follows : DirFollows rest) (later : DirsParsed (rest.drop (nextEntryOffset rest)) batch) :
    DirsParsed rest ⟨dirRecord rest :: batch.entries, batch.overrun⟩ where
  takes records last chain := by
    rcases chain.first.2 with ⟨-, -, ends⟩ | ⟨-, -, others, rfl, behind⟩
    · exact absurd ends more
    · rw [later.takes others last behind]
      rfl
  flags := by
    rcases later.flags with ⟨records, last, chain⟩ | flagged
    · exact .inl ⟨rest :: records, last, chain.step sized more follows⟩
    · exact .inr flagged

theorem dirsBuffer_parses {buf : Bytes} (sized : DwordSized buf) {fuel off : Nat} (inside : off ≤ buf.length)
    (enough : buf.length - off < fuel) :
    ∃ batch, dirsBuffer buf fuel off = some batch ∧ DirsParsed (buf.drop off) batch := by
  unfold DwordSized at sized
  induction fuel generalizing off with
  | zero => omega
  | succ fuel ih =>
    have long : (buf.drop off).length = buf.length - off := List.length_drop
    have bound := dword_lt (buf.drop off) 0
    have wide := dword_lt (buf.drop off) 60
    have unfit : ¬ DirSized (buf.drop off) → ∀ records last, ¬ RecordChain dirFormat (buf.drop off) records last :=
      fun unfit records last chain => unfit chain.first.1
    rw [dirsBuffer]
    unfold dirHeader
    rw [sizeAdd_below (by omega), Option.bind_eq_bind, Option.bind_some]
    by_cases short : buf.length < off + 104
    · rw [if_pos short]
      refine ⟨_, rfl, .refused [] (unfit fun sized => ?_)⟩
      have fits := sized.fits
      unfold dirHeader at fits
      omega
    rw [if_neg short, readDword_inside (by omega), Option.bind_some]
    change ∃ batch, (if dword (buf.drop off) 60 % 2 ≠ 0 then _ else _) = _ ∧ _
    by_cases odd : dword (buf.drop off) 60 % 2 ≠ 0
    · rw [if_pos odd]
      exact ⟨_, rfl, .refused [] (unfit fun sized => odd sized.even)⟩
    rw [if_neg odd, sizeAdd_below (by omega), Option.bind_eq_bind, Option.bind_some]
    by_cases long' : buf.length < off + 104 + dword (buf.drop off) 60
    · rw [if_pos long']
      refine ⟨_, rfl, .refused [] (unfit fun sized => ?_)⟩
      have fits := sized.fits
      unfold dirHeader dirNameLength at fits
      omega
    have even := not_not.mp odd
    have name : readWide buf (off + 104) (dword (buf.drop off) 60 / 2) = some (dirRecord (buf.drop off)).name := by
      rw [readWide_inside (by omega), dirRecord, dirHeader, dirNameLength, List.drop_drop,
        Nat.mul_div_cancel' (Nat.dvd_of_mod_eq_zero even)]
    have next : readDword buf off = some (nextEntryOffset (buf.drop off)) := @readDword_inside buf off 0 (by omega)
    have fits : DirSized (buf.drop off) := by
      refine ⟨even, ?_⟩
      unfold dirHeader dirNameLength
      omega
    rw [if_neg long', name, Option.bind_eq_bind, Option.bind_some, readDword_inside (by omega), Option.bind_some,
      readDword_inside (by omega), Option.bind_some, next, Option.bind_some]
    change ∃ batch, (if nextEntryOffset (buf.drop off) = 0 then _ else _) = _ ∧ _
    by_cases ends : nextEntryOffset (buf.drop off) = 0
    · rw [if_pos ends]
      exact ⟨_, rfl, .ended fits ends⟩
    have known : nextEntryOffset (buf.drop off) = dword (buf.drop off) 0 := rfl
    rw [if_neg ends, sizeAdd_below (by omega), Option.bind_some, sizeSub_le inside, Option.bind_some]
    by_cases outside : nextEntryOffset (buf.drop off) % 8 ≠ 0 ∨ nextEntryOffset (buf.drop off) < 104 +
      dword (buf.drop off) 60 ∨
        buf.length - off < nextEntryOffset (buf.drop off)
    · rw [if_pos outside]
      refine ⟨_, rfl, .refused _ fun records last chain => ?_⟩
      rcases chain.first.2 with ⟨-, -, ended⟩ | ⟨-, follows, -⟩
      · exact ends ended
      · obtain ⟨aligned, behind, within⟩ := follows
        unfold dirHeader dirNameLength at behind
        omega
    simp only [not_or, not_not, Nat.not_lt] at outside
    have follows : DirFollows (buf.drop off) := ⟨outside.1, outside.2.1, long ▸ outside.2.2⟩
    rw [if_neg (by omega), sizeAdd_below (by omega), Option.bind_some]
    obtain ⟨batch, parsed, later⟩ := @ih (off + nextEntryOffset (buf.drop off)) (by omega) (by omega)
    rw [parsed, Option.bind_some]
    rw [← List.drop_drop] at later
    exact ⟨_, rfl, .more fits ends follows later⟩

end Machteld
