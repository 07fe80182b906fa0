import Mathlib.Data.List.Basic
import Mathlib.Tactic.Common

namespace Machteld

abbrev Bytes := List UInt8

/-- The bytes of an ASCII literal of the source. -/
def ascii (text : String) : Bytes := text.toList.map fun c => UInt8.ofNat c.toNat

abbrev tab : UInt8 := 0x09
abbrev lf : UInt8 := 0x0A
abbrev cr : UInt8 := 0x0D
abbrev space : UInt8 := 0x20
abbrev dquote : UInt8 := 0x22
abbrev percent : UInt8 := 0x25
abbrev backslash : UInt8 := 0x5C

/-- The decimal spelling of a number, as Tcl and `%d` print it. -/
def decimal (n : Nat) : Bytes := (Nat.toDigits 10 n).map fun c => UInt8.ofNat c.toNat

def isDigit (c : UInt8) : Bool := decide (0x30 ≤ c) && decide (c ≤ 0x39)

def asciiLower (c : UInt8) : UInt8 := if 0x41 ≤ c ∧ c ≤ 0x5A then c + 32 else c

theorem takeWhile_append_stop {α : Type} {p : α → Bool} {s rest : List α} (all : ∀ c ∈ s, p c = true)
    (stop : rest.head?.any p = false) : (s ++ rest).takeWhile p = s ∧ (s ++ rest).dropWhile p = rest := by
  have none : rest.takeWhile p = [] ∧ rest.dropWhile p = rest := by
    cases rest with
    | nil => exact ⟨rfl, rfl⟩
    | cons c cs =>
      have no : p c = false := stop
      simp [no]
  rw [List.takeWhile_append_of_pos all, List.dropWhile_append_of_pos all, none.1, none.2, List.append_nil]
  exact ⟨rfl, rfl⟩

theorem forall₂_mem_right {α β : Type} {R : α → β → Prop} {l : List α} {m : List β}
    (all : List.Forall₂ R l m) {b : β}
    (member : b ∈ m) : ∃ a ∈ l, R a b := by
  induction all with
  | nil => cases member
  | cons related _ ih =>
    rcases List.mem_cons.mp member with rfl | later
    · exact ⟨_, List.mem_cons_self, related⟩
    · obtain ⟨a, inside, here⟩ := ih later
      exact ⟨a, List.mem_cons_of_mem _ inside, here⟩

/-- The largest `int`. -/
def cIntMax : Nat := 0x7FFFFFFF

/-- The largest `size_t`. -/
def sizeMax : Nat := 0xFFFFFFFFFFFFFFFF

def errorNotEnoughMemory : Nat := 8

def errorInvalidData : Nat := 13

def errorNoMoreFiles : Nat := 18

/-- The exit code of a process that still runs. -/
def stillActive : Nat := 259

end Machteld
