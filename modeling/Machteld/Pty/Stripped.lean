import Machteld.Pty.Strip

namespace Machteld

/-- The passes of `pty strip`, the last one first. -/
def ptyPasses : List (Matcher Nat) := [ptySimple, ptyCharset, ptyOsc, ptyCsi]

/-- No escape sequence that `pty strip` removes is in the text. -/
def PtyClean (t : Chars) : Prop := ptyCsi.Clean t ∧ ptyOsc.Clean t ∧ ptyCharset.Clean t ∧ ptySimple.Clean t

/-- Stripped text: clean, the rest of the text in order once whole sequences
are taken away, and not changed by stripping it again. -/
structure PtyStripped (s t : Chars) : Prop where
  clean : PtyClean t
  kept : ∃ a b c, ptyCsi.Removes s a ∧ ptyOsc.Removes a b ∧ ptyCharset.Removes b c ∧ ptySimple.Removes c t
  again : ptyStrip t = t

/-- No sequence of the text has others inside it without being taken away
whole. -/
def PtyUninterrupted (s : Chars) : Prop := ∀ c ∈ ptyPasses, ¬ Matcher.Interrupted ptyPasses c s

theorem ptyClean_again {t : Chars} (clean : PtyClean t) : ptyStrip t = t := by
  obtain ⟨csi, osc, charset, simple⟩ := clean
  rw [ptyStrip, Matcher.removeAll_clean csi, Matcher.removeAll_clean osc, Matcher.removeAll_clean charset,
    Matcher.removeAll_clean simple]

end Machteld
