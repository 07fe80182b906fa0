import Machteld.Utf8

namespace Machteld

/-- Tcl's spelling of a code point: UTF-8, but U+0000 in two bytes, and
surrogates spelled like any other code point. -/
def tclEncode (n : Nat) : Bytes := if n = 0 then [0xC0, 0x80] else Utf8.encode n

def tclText (cs : List Nat) : Bytes := cs.flatMap tclEncode

/-- A string of Unicode scalar values other than U+0000. -/
def PlainText (s : Bytes) : Prop := ∃ cs, (∀ c ∈ cs, Utf8.IsScalar c ∧ c ≠ 0) ∧ s = tclText cs

theorem tclText_nonzero {cs : List Nat} (nonzero : ∀ c ∈ cs, c ≠ 0) : tclText cs = cs.flatMap Utf8.encode := by
  induction cs with
  | nil => rfl
  | cons c cs ih =>
    obtain ⟨first, rest⟩ := List.forall_mem_cons.mp nonzero
    have later := ih rest
    unfold tclText at later
    simp [tclText, tclEncode, first, later]

theorem PlainText.wellFormed {s : Bytes} (plain : PlainText s) : Utf8.WellFormed s := by
  obtain ⟨cs, all, rfl⟩ := plain
  exact ⟨cs, fun c member => (all c member).1, tclText_nonzero fun c member => (all c member).2⟩

end Machteld
