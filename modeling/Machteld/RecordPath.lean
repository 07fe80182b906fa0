import Mathlib.Data.List.Basic

namespace Machteld

/-- The format of records that stand in a buffer one behind the other: which
are whole, and how far the next one is. -/
structure RecordFormat (α : Type) where
  Fits : List α → Prop
  next : List α → Nat
  Follows : List α → Prop

variable {α : Type} {format : RecordFormat α} {buf tail last : List α} {records : List (List α)}

/-- The records of a buffer on the way to a place behind them. -/
inductive RecordPath (format : RecordFormat α) : List α → List (List α) → List α → Prop
  | here (buf : List α) : RecordPath format buf [] buf
  | step {buf : List α} {records : List (List α)} {tail : List α} (fits : format.Fits buf)
    (more : format.next buf ≠ 0)
    (follows : format.Follows buf) (later : RecordPath format (buf.drop (format.next buf)) records tail) :
    RecordPath format buf (buf :: records) tail

/-- The records of a chain with a last one. -/
structure RecordChain (format : RecordFormat α) (buf : List α) (records : List (List α))
    (last : List α) : Prop where
  path : RecordPath format buf records last
  fits : format.Fits last
  ends : format.next last = 0

theorem RecordChain.step (fits : format.Fits buf) (more : format.next buf ≠ 0) (follows : format.Follows buf)
    (later : RecordChain format (buf.drop (format.next buf)) records last) :
    RecordChain format buf (buf :: records) last := ⟨.step fits more follows later.path, later.fits, later.ends⟩

theorem RecordChain.first (chain : RecordChain format buf records last) :
    format.Fits buf ∧ ((records = [] ∧ last = buf ∧ format.next buf = 0) ∨
      format.next buf ≠ 0 ∧ format.Follows buf ∧
        ∃ later, records = buf :: later ∧ RecordChain format (buf.drop (format.next buf)) later last) := by
  obtain ⟨path, fits, ends⟩ := chain
  cases path with
  | here => exact ⟨fits, .inl ⟨rfl, rfl, ends⟩⟩
  | step whole more follows later => exact ⟨whole, .inr ⟨more, follows, _, rfl, later, fits, ends⟩⟩

/-- A chain has no other way through its buffer. -/
theorem RecordChain.path_fits {others : List (List α)} (chain : RecordChain format buf records last)
    (path : RecordPath format buf others tail) : format.Fits tail := by
  obtain ⟨own, fits, ends⟩ := chain
  induction own generalizing others with
  | here buf =>
    cases path with
    | here => exact fits
    | step _ more => exact absurd ends more
  | step whole more follows later ih =>
    cases path with
    | here => exact whole
    | step _ _ _ rest => exact ih rest fits ends

end Machteld
