import Machteld.Dirs.Account
import Mathlib.Algebra.BigOperators.Group.Multiset.Basic
import Mathlib.Algebra.Group.Prod
import Mathlib.Algebra.GroupWithZero.Nat

namespace Machteld

/-- The rows and the number of files of a walk in links mode, in whatever
order. -/
abbrev LinksTally := Multiset LinksEntry × Multiset DirsErrRow × Multiset (Bytes × Nat) × Nat

def DirsWalk.tally (w : DirsWalk) : LinksTally := (w.entries, w.errors, w.multi, w.files)

/-- A file or a directory that is met, as the scan has it. -/
structure DirsMet where
  path : Wide
  directory : Bool
  reparse : Bool
  tag : UInt32

def DirEntry.met (dir : Wide) (e : DirEntry) : DirsMet := ⟨dirsJoin dir e.name, e.directory, e.reparse, e.eaSize⟩

/-- A name for something else. -/
def DirsMet.isName (m : DirsMet) : Bool := m.reparse && dirsIsname m.tag

def DirsOptions.errRow (o : DirsOptions) (path : Wide) (e : Nat) : DirsErrRow :=
  ⟨(dirsStrip o.unc path).getD [], e, o.reason e⟩

section

variable (fs : DirsFs) (o : DirsOptions)

def DirsFs.linkRow (m : DirsMet) : LinksEntry :=
  ⟨(dirsStrip o.unc m.path).getD [], (linksType m.tag m.directory).getD [],
    (fs.target m.path m.directory).getD [], m.tag⟩

/-- The error row of a name whose type or target is not known. -/
def DirsFs.linkError (m : DirsMet) : Option DirsErrRow :=
  if linksType m.tag m.directory = none then some (o.errRow m.path errorNotSupported)
  else if fs.target m.path m.directory = none then some (o.errRow m.path errorInvalidData)
  else none

/-- The row of a file with more than one link. -/
def DirsFs.multiRow (m : DirsMet) : Option (Bytes × Nat) :=
  match fs.nlinks m.path with
  | .error _ => none
  | .ok n => if 1 < n then some ((dirsStrip o.unc m.path).getD [], n) else none

/-- The error row of a file whose links cannot be counted. -/
def DirsFs.multiError (m : DirsMet) : Option DirsErrRow :=
  match fs.nlinks m.path with
  | .error e => some (o.errRow m.path e)
  | .ok _ => none

end

def optionBag {α : Type} (a : Option α) : Multiset α := a.toList

section

variable (fs : DirsFs) (o : DirsOptions)

/-- What a name adds to the tally. -/
def DirsFs.linkTally (m : DirsMet) : LinksTally :=
  if m.isName then (([fs.linkRow o m] : Multiset LinksEntry), optionBag (fs.linkError o m), 0, 0) else 0

/-- What a file that is asked for its links adds. -/
def DirsFs.countTally (m : DirsMet) : LinksTally :=
  if o.hardlinks && !m.reparse then (0, optionBag (fs.multiError o m), optionBag (fs.multiRow o m), 0) else 0

def DirsFs.fileTally (m : DirsMet) : LinksTally := fs.linkTally o m + fs.countTally o m + (0, 0, 0, 1)

end

section

variable {fs : DirsFs} {o : DirsOptions}

theorem DirsWalk.fault_tally (w : DirsWalk) (path : Wide) (e : Nat) :
    (w.fault o path e).tally = w.tally + (0, {o.errRow path e}, 0, 0) := by
  simp only [DirsWalk.tally, DirsWalk.fault, DirsOptions.errRow, Prod.mk_add_mk, add_zero, ← Multiset.coe_add,
    Multiset.coe_singleton]

theorem bag_snoc {α : Type} (l : List α) (a : α) : ((l ++ [a] : List α) : Multiset α) = l + {a} := by
  rw [← Multiset.coe_add, Multiset.coe_singleton]

/-- What the record of a name adds: its row or its error, and nothing where
the name is not shown. -/
theorem DirsFs.recorded_tally (w : DirsWalk) (m : DirsMet) (isName : m.isName = true) :
    (fs.recorded o w m.path (dirsStrip o.unc m.path) m.tag m.directory).tally = w.tally + fs.linkTally o m := by
  unfold DirsFs.recorded DirsFs.linkTally DirsFs.linkError
  rw [if_pos isName]
  dsimp only
  split_ifs with type target
  · rw [DirsWalk.fault_tally]
    simp [DirsWalk.tally, DirsFs.linkRow, optionBag, bag_snoc]
  · rw [DirsWalk.fault_tally]
    simp [DirsWalk.tally, DirsFs.linkRow, optionBag, bag_snoc]
  · simp [DirsWalk.tally, DirsFs.linkRow, optionBag, bag_snoc]

/-- What the link count of a file adds under `-hardlinks`. -/
theorem DirsFs.counted_tally (w : DirsWalk) (m : DirsMet) :
    (fs.counted o w m.path).tally = w.tally + (0, optionBag (fs.multiError o m),
      optionBag (fs.multiRow o m), 0) := by
  unfold DirsFs.counted DirsFs.multiError DirsFs.multiRow
  cases fs.nlinks m.path with
  | error e =>
    dsimp only
    rw [DirsWalk.fault_tally]
    simp [optionBag]
  | ok n =>
    dsimp only
    split_ifs with several
    · simp [DirsWalk.tally, optionBag, bag_snoc]
    · simp [optionBag]

/-- A file of a scanned directory adds what its name and its link count add.
-/
theorem DirsFs.filed_tally (links : o.mode = .links) (w : DirsWalk) (dir : Wide) (e : DirEntry)
    (plain : dotName e.name = false) (file : e.directory = false) :
    (fs.filed o dir w e).tally = w.tally + fs.fileTally o (e.met dir) := by
  have begun : ({ w with files := w.files + 1 } : DirsWalk).tally = w.tally + (0, 0, 0, 1) := by
    simp [DirsWalk.tally]
  unfold DirsFs.filed
  rw [links]
  dsimp only
  rw [if_neg (plain ▸ Bool.false_ne_true)]
  by_cases reparse : e.reparse = true
  · rw [if_pos reparse]
    have counts : fs.countTally o (e.met dir) = 0 := by simp [DirsFs.countTally, DirEntry.met, reparse]
    by_cases isName : dirsIsname e.eaSize = true
    · have named : (e.met dir).isName = true := Bool.and_eq_true_iff.mpr ⟨reparse, isName⟩
      have recorded := fs.recorded_tally { w with files := w.files + 1 } (o := o) (e.met dir) named
      simp only [DirEntry.met, file] at recorded
      rw [if_pos isName, recorded, begun, DirsFs.fileTally, counts, add_zero, add_right_comm, ← add_assoc]
      simp only [DirEntry.met, file]
    · have unnamed : fs.linkTally o (e.met dir) = 0 := by
        simp [DirsFs.linkTally, DirsMet.isName, DirEntry.met, isName]
      rw [if_neg isName, begun, DirsFs.fileTally, counts, unnamed, zero_add, zero_add]
  · rw [if_neg reparse]
    have unnamed : fs.linkTally o (e.met dir) = 0 := by
      simp [DirsFs.linkTally, DirsMet.isName, DirEntry.met, reparse]
    by_cases hard : o.hardlinks = true
    · have counts : fs.countTally o (e.met dir) =
          (0, optionBag (fs.multiError o (e.met dir)), optionBag (fs.multiRow o (e.met dir)), 0) := by
        simp [DirsFs.countTally, DirEntry.met, reparse, hard]
      have counted := fs.counted_tally { w with files := w.files + 1 } (o := o) (e.met dir)
      rw [if_pos hard, DirsFs.fileTally, unnamed, zero_add, counts, ← add_assoc, add_right_comm, ← begun]
      exact counted
    · have counts : fs.countTally o (e.met dir) = 0 := by simp [DirsFs.countTally, hard]
      rw [if_neg hard, begun, DirsFs.fileTally, unnamed, counts, zero_add, zero_add]

/-- What an entry adds when it is scanned. -/
def DirsFs.scanTally (fs : DirsFs) (o : DirsOptions) (m : DirsMet) : LinksTally :=
  if m.directory then 0 else fs.fileTally o m

/-- A subdirectory adds nothing when it is seen; it is told when it is
visited. -/
theorem DirsFs.looked_tally (links : o.mode = .links) (w : DirsWalk) (dir : Wide) (e : DirEntry)
    (plain : e.directory = false → dotName e.name = false) :
    (fs.looked o dir w e).tally = w.tally + fs.scanTally o (e.met dir) := by
  unfold DirsFs.looked DirsFs.scanTally
  by_cases directory : e.directory = true
  · rw [if_pos directory, if_pos (show (e.met dir).directory = true from directory), add_zero]
  · have file := Bool.eq_false_iff.mpr directory
    rw [if_neg directory, if_neg (show ¬ (e.met dir).directory = true from directory)]
    exact fs.filed_tally links w dir e (plain file) file

/-- A tally of many is the sum of what each adds. -/
theorem foldl_tally {α : Type} {f : DirsWalk → α → DirsWalk} {delta : α → LinksTally} {l : List α}
    (step : ∀ a ∈ l, ∀ w, (f w a).tally = w.tally + delta a) (w : DirsWalk) :
    (l.foldl f w).tally = w.tally + (l.map delta).sum := by
  induction l generalizing w with
  | nil => rw [List.map_nil, List.sum_nil, add_zero]; rfl
  | cons a l ih =>
    obtain ⟨first, rest⟩ := List.forall_mem_cons.mp step
    rw [List.foldl_cons, ih rest, first, List.map_cons, List.sum_cons, add_assoc]

/-- What the errors of a directory add. -/
def DirsOptions.errTally (o : DirsOptions) (path : Wide) (es : List Nat) : LinksTally :=
  (0, (es.map (o.errRow path) : List DirsErrRow), 0, 0)

theorem DirsOptions.errTally_nil (o : DirsOptions) (path : Wide) : o.errTally path [] = 0 := rfl

theorem DirsWalk.faults_tally (w : DirsWalk) (path : Wide) (es : List Nat) :
    (w.faults o path es).tally = w.tally + o.errTally path es := by
  rw [DirsWalk.faults_eq]
  simp only [DirsWalk.tally, DirsOptions.errTally, Prod.mk_add_mk, add_zero, ← Multiset.coe_add]
  rfl

theorem DirsWalk.emit_tally (w : DirsWalk) (it : DirsItem) (shown : Bytes) :
    (w.emit o it (some shown)).tally = w.tally := by
  unfold DirsWalk.emit
  dsimp only
  split <;> rfl

/-- A directory as it is known in the end. -/
def DirsReport.met (r : DirsReport) (path : Wide) : DirsMet := ⟨path, true, r.item.reparse, r.item.tag⟩

/-- A visited directory adds its own row where it is a name of the reparse
set. -/
theorem DirsFs.disclosed_tally (links : o.mode = .links) (w : DirsWalk) (path : Wide) (r : DirsReport) :
    (fs.disclosed o w path r (dirsStrip o.unc path)).tally = w.tally + fs.linkTally o (r.met path) := by
  unfold DirsFs.disclosed
  rw [links]
  dsimp only
  by_cases reparse : r.item.reparse = true
  · rw [if_pos reparse]
    by_cases isName : dirsIsname r.item.tag = true
    · have named : (r.met path).isName = true := Bool.and_eq_true_iff.mpr ⟨reparse, isName⟩
      rw [if_pos isName]
      exact fs.recorded_tally { w with links := w.links ++ [r.row (dirsStrip o.unc path)] } (r.met path) named
    · have unnamed : fs.linkTally o (r.met path) = 0 := by
        simp [DirsFs.linkTally, DirsMet.isName, DirsReport.met, isName]
      rw [if_neg isName, unnamed, add_zero]
      split <;> rfl
  · have unnamed : fs.linkTally o (r.met path) = 0 := by
      simp [DirsFs.linkTally, DirsMet.isName, DirsReport.met, reparse]
    rw [if_neg reparse, unnamed, add_zero]

/-- What a directory adds: its entries, its errors and its own row. -/
def DirsFs.itemTally (fs : DirsFs) (o : DirsOptions) (it : DirsItem) : LinksTally :=
  ((fs.report o it).seen.map fun e => fs.scanTally o (e.met it.path)).sum +
    o.errTally it.path (fs.report o it).errors + fs.linkTally o ((fs.report o it).met it.path)

/-- A visit adds the tallies of the files it has seen and one row for each
of its errors. -/
theorem DirsFs.booked_tally (links : o.mode = .links) (w : DirsWalk) {path : Wide} {r : DirsReport}
    (sound : r.Sound fs o path) (plain : ∀ e ∈ r.seen, e.directory = false → dotName e.name = false) :
    (fs.booked o w path r).tally = w.tally + ((r.seen.map fun e => fs.scanTally o (e.met path)).sum +
      o.errTally path r.errors) := by
  have folded := foldl_tally (fun e member w => fs.looked_tally links w path e (plain e member)) w
  unfold DirsFs.booked
  cases sound with
  | counted why => rcases why with rfl | rfl <;> simp [DirsWalk.tally, DirsOptions.errTally_nil]
  | nofollow _ => simp [DirsWalk.faults, DirsOptions.errTally_nil]
  | failed _ => simp [DirsWalk.faults_tally]
  | descended _ => rw [DirsWalk.faults_tally, folded, add_assoc]

/-- One item of the walk adds the sum of what it has met, so that the tally
of a walk is a sum over its items, and the order of the items does not
matter. -/
theorem DirsFs.note_tally (links : o.mode = .links) {rootw : Wide} {it : DirsItem} (listed : it.Listed rootw)
    {shown : Bytes} (spelled : dirsStrip o.unc it.path = some shown)
    (plain : ∀ e ∈ (fs.report o it).seen, e.directory = false → dotName e.name = false) (w : DirsWalk) :
    (fs.note o w it).tally = w.tally + fs.itemTally o it := by
  have emitted := w.emit_tally (o := o) it shown
  rw [← spelled] at emitted
  unfold DirsFs.note DirsFs.itemTally
  rw [DirsFs.disclosed_tally links, DirsFs.booked_tally links _ (fs.report_sound listed.marked) plain, emitted]
  simp only [add_assoc]

end

end Machteld
