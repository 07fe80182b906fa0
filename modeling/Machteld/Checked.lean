import Machteld.Watch.State

namespace Machteld

/-- Some bytes of a buffer; none where it has not got them. -/
def readBytes (buf : Bytes) (off n : Nat) : Option Bytes :=
  if off + n ≤ buf.length then some ((buf.drop off).take n) else none

def readDword (buf : Bytes) (off : Nat) : Option Nat := (readBytes buf off 4).map fun b => dword b 0

/-- A little-endian WORD. -/
def word (buf : Bytes) (off : Nat) : Nat := (buf.getD off 0).toNat + 0x100 * (buf.getD (off + 1) 0).toNat

def readWord (buf : Bytes) (off : Nat) : Option Nat := (readBytes buf off 2).map fun b => word b 0

def readWide (buf : Bytes) (off n : Nat) : Option (List UInt16) := (readBytes buf off (2 * n)).map wideUnits

/-- A sum of `size_t`; none where it wraps. -/
def sizeAdd (a b : Nat) : Option Nat := if a + b < 0x10000000000000000 then some (a + b) else none

/-- A difference of `size_t`; none where it wraps. -/
def sizeSub (a b : Nat) : Option Nat := if b ≤ a then some (a - b) else none

/-- A buffer whose size is a DWORD. -/
def DwordSized (buf : Bytes) : Prop := buf.length < 0x100000000

variable {buf : Bytes} {off n : Nat}

theorem readBytes_inside (inside : off + n ≤ buf.length) : readBytes buf off n = some ((buf.drop off).take n) :=
  if_pos inside

theorem getD_take_drop {k : Nat} (below : k < n) : ((buf.drop off).take n).getD k 0 = buf.getD (off + k) 0 := by
  rw [List.getD_eq_getElem?_getD, List.getD_eq_getElem?_getD, List.getElem?_take_of_lt below, List.getElem?_drop]

theorem getD_drop (k : Nat) : (buf.drop off).getD k 0 = buf.getD (off + k) 0 := by
  rw [List.getD_eq_getElem?_getD, List.getD_eq_getElem?_getD, List.getElem?_drop]

theorem readDword_inside {k : Nat} (inside : off + k + 4 ≤ buf.length) :
    readDword buf (off + k) = some (dword (buf.drop off) k) := by
  rw [readDword, readBytes_inside inside, Option.map_some]
  simp only [dword]
  rw [getD_take_drop (by omega), getD_take_drop (by omega), getD_take_drop (by omega), getD_take_drop (by omega),
    getD_drop, getD_drop, getD_drop, getD_drop]
  rfl

theorem readWide_inside (inside : off + 2 * n ≤ buf.length) :
    readWide buf off n = some (wideUnits ((buf.drop off).take (2 * n))) := by
  rw [readWide, readBytes_inside inside, Option.map_some]

theorem sizeAdd_below {a b : Nat} (below : a + b < 0x10000000000000000) : sizeAdd a b = some (a + b) := if_pos below

theorem sizeSub_le {a b : Nat} (le : b ≤ a) : sizeSub a b = some (a - b) := if_pos le

theorem byte_le (b : UInt8) : b.toNat ≤ 0xFF := Nat.le_of_lt_succ b.toNat_lt

theorem dword_lt (buf : Bytes) (off : Nat) : dword buf off < 0x100000000 := by
  have first := byte_le (buf.getD off 0)
  have second := byte_le (buf.getD (off + 1) 0)
  have third := byte_le (buf.getD (off + 2) 0)
  have fourth := byte_le (buf.getD (off + 3) 0)
  unfold dword
  omega

theorem word_lt (buf : Bytes) (off : Nat) : word buf off < 0x10000 := by
  have first := byte_le (buf.getD off 0)
  have second := byte_le (buf.getD (off + 1) 0)
  unfold word
  omega

theorem readWord_inside (inside : off + 2 ≤ buf.length) : readWord buf off = some (word buf off) := by
  rw [readWord, readBytes_inside inside, Option.map_some, word, getD_take_drop (by omega),
    getD_take_drop (by omega)]
  rfl

end Machteld
