import Machteld.Dirs.Names
import Machteld.Dirs.Visit
import Machteld.TclSpec

namespace Machteld

section

variable {o : DirsOptions}

/-- A child carries the name of its entry, once as it is and once in UTF-8.
-/
theorem dirsChild_eq {e : DirEntry} (name : DirsName e.name) (converts : (Utf16.decode e.name).isSome) :
    ∃ k, dirsChild o e = some k ∧ k.wname = e.name ∧ k.name = (codePoints e.name).flatMap Utf8.encode := by
  obtain ⟨cs, read⟩ := Option.isSome_iff_exists.mp converts
  have converted : mtWideToUtf8 true e.name = some (cs.flatMap Utf8.encode) := by
    rw [mtWideToUtf8, if_neg (not_or.mpr ⟨name.nonempty, Bool.noConfusion⟩), read]
    rfl
  rw [dirsChild, converted]
  refine ⟨_, rfl, rfl, ?_⟩
  rw [codePoints, read]
  rfl

/-- A child whose name is one of a file system and is converted. -/
structure DirsChild.Named (k : DirsChild) : Prop where
  name : DirsName k.wname
  converts : (Utf16.decode k.wname).isSome
  spelled : k.name = (codePoints k.wname).flatMap Utf8.encode

theorem codePoints_bound (w : Wide) : ∀ c ∈ codePoints w, c < 0x110000 := by
  unfold codePoints
  cases read : Utf16.decode w with
  | none => exact List.forall_mem_nil _
  | some cs => exact (Utf16.decode_some read).1

theorem codePoints_injective {v w : Wide} (left : (Utf16.decode v).isSome) (right : (Utf16.decode w).isSome)
    (same : codePoints v = codePoints w) : v = w := by
  obtain ⟨cs, read⟩ := Option.isSome_iff_exists.mp left
  obtain ⟨ds, read'⟩ := Option.isSome_iff_exists.mp right
  rw [codePoints, codePoints, read, read', Option.getD_some, Option.getD_some] at same
  exact Utf16.decode_injective read (same ▸ read')

theorem DirsChild.Named.cString {k : DirsChild} (named : k.Named) : Machteld.cString k.name = k.name := by
  refine cString_itself fun member => ?_
  rw [named.spelled] at member
  have inside := Utf8.slash_mem_flatMap_encode (codePoints_bound _) (by decide) member
  obtain ⟨cs, read⟩ := Option.isSome_iff_exists.mp named.converts
  rw [codePoints, read, Option.getD_some] at inside
  have unit : (0 : UInt16) ∈ cs.flatMap Utf16.units := List.mem_flatMap.mpr ⟨_, inside, by decide⟩
  rw [(Utf16.decode_some read).2] at unit
  exact named.name.noNul unit

/-- The comparison of names is the one of code points. -/
theorem dirsNamecmp_eq {x y : DirsChild} (left : x.Named) (right : y.Named) :
    dirsNamecmp x y = (compare (codePoints x.wname) (codePoints y.wname)).isLE := by
  rw [dirsNamecmp, left.cString, right.cString, left.spelled, right.spelled,
    Utf8.compare_flatMap_encode (codePoints_bound _) (codePoints_bound _)]

instance : Std.Total fun x y : DirsChild => dirsNamecmp x y = true where
  total x y := by
    unfold dirsNamecmp
    have swapped : compare (Machteld.cString y.name) (Machteld.cString x.name) = _ := Std.OrientedCmp.eq_swap
    rw [swapped]
    cases compare (Machteld.cString x.name) (Machteld.cString y.name)
    · exact .inl rfl
    · exact .inl rfl
    · exact .inr rfl

instance : IsTrans DirsChild fun x y => dirsNamecmp x y = true where
  trans _ _ _ first second := Std.TransCmp.isLE_trans first second

/-- Siblings with names of their own are in the order of code points. -/
theorem dirsKids_sorted {kids : List DirsChild} (named : ∀ k ∈ kids, k.Named)
    (apart : (kids.map DirsChild.wname).Nodup) :
    (kids.insertionSort fun x y => dirsNamecmp x y = true).Pairwise fun x y =>
      compare (codePoints x.wname) (codePoints y.wname) = .lt := by
  have sorted := List.pairwise_insertionSort (fun x y => dirsNamecmp x y = true) kids
  have perm := List.perm_insertionSort (fun x y => dirsNamecmp x y = true) kids
  have apart' := List.pairwise_map.mp ((perm.map DirsChild.wname).nodup_iff.mpr apart)
  refine (sorted.and apart').imp_of_mem fun {x y} memberX memberY both => ?_
  have left := named x (perm.mem_iff.mp memberX)
  have right := named y (perm.mem_iff.mp memberY)
  have below := dirsNamecmp_eq left right ▸ both.1
  cases order : compare (codePoints x.wname) (codePoints y.wname) with
  | lt => rfl
  | eq =>
    exact absurd (codePoints_injective left.converts right.converts (Std.LawfulEqOrd.eq_of_compare order)) both.2
  | gt =>
    rw [order] at below
    cases below

/-- All entries of an enumeration, whether they are read or not. -/
def DirStream.entries (s : DirStream) : List DirEntry := (s.first :: s.more).flatMap DirBatch.entries

/-- What a directory is entered for. -/
def DirsFs.Child (fs : DirsFs) (path child : Wide) : Prop :=
  ∃ follow bufsz s e, fs.stream path follow bufsz = .ok s ∧ e ∈ s.entries ∧ e.subdirectory = true ∧
    child = dirsJoin path e.name

/-- A finite tree below a root that is prefixed. -/
structure DirsFs.Bounded (fs : DirsFs) (unc : Bool) (rootw : Wide) : Prop where
  rooted : DirsRooted unc rootw
  named : ∀ path follow bufsz s, fs.stream path follow bufsz = .ok s → ∀ e ∈ s.entries, e.subdirectory = true →
    DirsName e.name
  distinct : ∀ path follow bufsz s, fs.stream path follow bufsz = .ok s →
    ((s.entries.filter DirEntry.subdirectory).map DirEntry.name).Nodup
  finite : Acc (fun child path => fs.Child path child) rootw

/-- A finite tree whose names are converted, below a root that is prefixed.
-/
structure DirsFs.Proper (fs : DirsFs) (unc : Bool) (rootw : Wide) : Prop where
  rooted : DirsRooted unc rootw
  named : ∀ path follow bufsz s, fs.stream path follow bufsz = .ok s → ∀ e ∈ s.entries, e.subdirectory = true →
    DirsName e.name ∧ (Utf16.decode e.name).isSome
  distinct : ∀ path follow bufsz s, fs.stream path follow bufsz = .ok s →
    ((s.entries.filter DirEntry.subdirectory).map DirEntry.name).Nodup
  finite : Acc (fun child path => fs.Child path child) rootw

variable {fs : DirsFs} {rootw : Wide}

/-- What the doubling loop returns is the answer of one of its attempts. -/
theorem dirsGrown_ok {α : Type} {answer : Nat → Except Nat α} {k bufsz : Nat} {a : α}
    (grown : dirsGrown answer k bufsz = .ok a) : ∃ n, answer n = .ok a := by
  induction k generalizing bufsz with
  | zero => exact ⟨bufsz, grown⟩
  | succ k ih =>
    rw [dirsGrown] at grown
    split at grown
    · rename_i found
      exact ⟨bufsz, found.trans grown⟩
    · split at grown
      · exact ih grown
      · cases grown

/-- What was read is a beginning of the directory. -/
theorem dirsRead_prefix (last : Nat) (first : DirBatch) (more : List DirBatch) :
    (dirsRead last first more).1 <+: (first :: more).flatMap DirBatch.entries := by
  induction more generalizing first with
  | nil => exact ⟨[], by simp only [dirsRead, List.append_nil, List.flatMap_cons, List.flatMap_nil]⟩
  | cons next more ih =>
    rw [dirsRead, List.flatMap_cons]
    split
    · exact List.prefix_append _ _
    · exact List.prefix_append_right_inj _ |>.mpr (ih next)

/-- What is listed is the beginning of an enumeration. -/
theorem DirsFs.listing_prefix {path : Wide} {follow : Bool} {es : List DirEntry} {errors : List Nat}
    (listed : fs.listing path follow = .ok (es, errors)) :
    es = [] ∨ ∃ bufsz s, fs.stream path follow bufsz = .ok s ∧ es <+: s.entries := by
  unfold DirsFs.listing at listed
  split at listed
  · obtain ⟨same, other⟩ := ite_eq_iff'.mp listed
    rename_i e _
    by_cases empty : e = errorNoMoreFiles
    · exact .inl (Prod.mk.inj (Except.ok.inj (same empty))).1.symm
    · cases other empty
  · rename_i s grown
    obtain ⟨bufsz, answered⟩ := dirsGrown_ok grown
    refine .inr ⟨bufsz, s, answered, ?_⟩
    have same : (dirsRead s.last s.first s.more).1 = es := congrArg Prod.fst (Except.ok.inj listed)
    rw [← same]
    exact dirsRead_prefix s.last s.first s.more

/-- A listing of a proper file system names each subdirectory once, under a
name that has a spelling, and as a child of the directory. -/
theorem DirsFs.Proper.listed (proper : fs.Proper o.unc rootw) {path : Wide} {follow : Bool} {es : List DirEntry}
    {errors : List Nat} (listed : fs.listing path follow = .ok (es, errors)) :
    (∀ e ∈ es, e.subdirectory = true → DirsName e.name ∧ (Utf16.decode e.name).isSome ∧
      fs.Child path (dirsJoin path e.name)) ∧
      ((es.filter DirEntry.subdirectory).map DirEntry.name).Nodup := by
  rcases fs.listing_prefix listed with rfl | ⟨bufsz, s, answered, front⟩
  · exact ⟨List.forall_mem_nil _, List.nodup_nil⟩
  · refine ⟨fun e member isSub => ?_, ?_⟩
    · obtain ⟨name, converts⟩ := proper.named path follow bufsz s answered e (front.subset member) isSub
      exact ⟨name, converts, follow, bufsz, s, e, answered, front.subset member, isSub, rfl⟩
    · exact (proper.distinct path follow bufsz s answered).sublist ((front.sublist.filter _).map _)

/-- Children of a listing whose names are converted. -/
theorem dirsKids_named {es : List DirEntry}
    (named : ∀ e ∈ es, e.subdirectory = true → DirsName e.name ∧ (Utf16.decode e.name).isSome) :
    (∀ k ∈ dirsKids o es, k.Named) ∧ (dirsKids o es).map DirsChild.wname =
      (es.filter DirEntry.subdirectory).map DirEntry.name ∧
      dirsBad o es = 0 := by
  induction es with
  | nil => exact ⟨List.forall_mem_nil _, rfl, rfl⟩
  | cons e es ih =>
    obtain ⟨first, rest⟩ := List.forall_mem_cons.mp named
    obtain ⟨kids, names, none⟩ := ih rest
    by_cases isSub : e.subdirectory = true
    · obtain ⟨name, converts⟩ := first isSub
      obtain ⟨k, made, wname, spelled⟩ := dirsChild_eq (o := o) name converts
      have head : dirsKids o (e :: es) = k :: dirsKids o es := by
        rw [dirsKids, List.filter_cons_of_pos isSub, List.filterMap_cons_some made]
        rfl
      refine ⟨?_, ?_, ?_⟩
      · rw [head, List.forall_mem_cons]
        exact ⟨⟨wname ▸ name, wname ▸ converts, wname ▸ spelled⟩, kids⟩
      · rw [head, List.map_cons, names, wname, List.filter_cons_of_pos isSub, List.map_cons]
      · rw [dirsBad, List.filter_cons_of_pos isSub, List.countP_cons, made]
        exact none
    · have head : dirsKids o (e :: es) = dirsKids o es := by rw [dirsKids, List.filter_cons_of_neg isSub]; rfl
      refine ⟨head ▸ kids, ?_, ?_⟩
      · rw [head, names, List.filter_cons_of_neg isSub]
      · rw [dirsBad, List.filter_cons_of_neg isSub]
        exact none

/-- What a report says, for a directory whose name for something else is one
of a reparse point. -/
inductive DirsReport.Sound (fs : DirsFs) (o : DirsOptions) (path : Wide) : DirsReport → Prop
  | counted {item : DirsItem} {action : DirsAction} (why : action = .depthlimited ∨ action = .pruned) :
    Sound fs o path ⟨item, action, [], [], []⟩
  | nofollow {item : DirsItem} (reparse : item.reparse = true) : Sound fs o path ⟨item, .nofollow, [], [], []⟩
  | failed {item : DirsItem} {errors : List Nat} (rows : errors ≠ []) :
    Sound fs o path ⟨item, .failed, [], errors, []⟩
  | descended {item : DirsItem} {follow : Bool} {es : List DirEntry} {errors : List Nat}
    (listed : fs.listing path follow = .ok (es, errors)) :
    Sound fs o path ⟨item, .descended, es, errors ++ List.replicate (dirsBad o es) errorNoUnicodeTranslation,
      (dirsKids o es).insertionSort fun x y => dirsNamecmp x y = true⟩

/-- What a visit reports is what the file system holds: its action, its
errors, the children it pushes and the entries it has seen, by cases on how
far the visit came. -/
theorem DirsFs.report_sound {it : DirsItem} (marked : it.noenter = true → it.reparse = true) :
    (fs.report o it).Sound fs o it.path := by
  cases refused : dirsRefusal o it with
  | some action =>
    rw [DirsFs.report_refused refused]
    rcases dirsRefusal_cases o refused with rfl | rfl | rfl
    · exact .counted (.inl rfl)
    · exact .counted (.inr rfl)
    · refine .nofollow (marked ?_)
      unfold dirsRefusal at refused
      split at refused
      · cases refused
      · split at refused
        · cases refused
        · split at refused
          · rename_i isName
            exact (Bool.and_eq_true_iff.mp isName).1
          · cases refused
  | none =>
    rcases opening : fs.opening it with ⟨it', ⟨action, errors⟩ | follow⟩
    · rw [DirsFs.report_unopened refused opening]
      rcases DirsFs.opening_error opening with ⟨rfl, rfl, reparse⟩ | ⟨rfl, rows⟩
      · exact .nofollow reparse
      · exact .failed rows
    · have path := (fs.opening_placed it).1
      rw [opening] at path
      cases listing : fs.listing it'.path follow with
      | error e =>
        rw [DirsFs.report_unlisted refused opening listing]
        exact .failed (List.cons_ne_nil _ _)
      | ok found =>
        rw [DirsFs.report_listed refused opening listing]
        exact .descended (path ▸ listing)

/-- A directory as it comes to the stack. -/
structure DirsItem.Listed (rootw : Wide) (it : DirsItem) : Prop where
  spelled : Spelled rootw it.path
  marked : it.noenter = true → it.reparse = true

theorem dirsChild_marked {e : DirEntry} {k : DirsChild} (made : dirsChild o e = some k)
    (isName : k.noenter = true) :
    k.reparse = true := by
  obtain ⟨_, -, rfl⟩ := Option.map_eq_some_iff.mp made
  exact (Bool.and_eq_true_iff.mp isName).1

theorem dirsChild_isSome {e : DirEntry} (name : DirsName e.name) :
    (dirsChild o e).isSome = (Utf16.decode e.name).isSome := by
  rw [dirsChild, Option.isSome_map, mtWideToUtf8, if_neg (not_or.mpr ⟨name.nonempty, Bool.noConfusion⟩),
    Option.isSome_map]

theorem dirsChild_wname {e : DirEntry} {k : DirsChild} (made : dirsChild o e = some k) : k.wname = e.name := by
  obtain ⟨_, -, rfl⟩ := Option.map_eq_some_iff.mp made
  rfl

theorem DirsFs.Proper.bounded (proper : fs.Proper o.unc rootw) : fs.Bounded o.unc rootw where
  rooted := proper.rooted
  named path follow bufsz s answered e member isSub := (proper.named path follow bufsz s answered e member isSub).1
  distinct := proper.distinct
  finite := proper.finite

/-- A kid is a subdirectory with a name of its own. -/
theorem DirsFs.Bounded.kid (bounded : fs.Bounded o.unc rootw) {it kid : DirsItem} (listed : it.Listed rootw)
    (member : kid ∈ fs.kids o it) :
    kid.Listed rootw ∧ fs.Child it.path kid.path ∧ ∃ n, namesBelow rootw kid.path =
      namesBelow rootw it.path ++ [n] := by
  have path := fs.report_path o it
  have sound := fs.report_sound (o := o) listed.marked
  obtain ⟨k, inKids, rfl⟩ := List.mem_map.mp member
  generalize fs.report o it = r at path sound inKids
  cases sound with
  | counted _ => cases inKids
  | nofollow _ => cases inKids
  | failed _ => cases inKids
  | @descended item follow es errors isListed =>
    obtain ⟨e, isEntry, made⟩ := List.mem_filterMap.mp ((List.mem_insertionSort _).mp inKids)
    obtain ⟨inEs, isSub⟩ := List.mem_filter.mp isEntry
    rcases fs.listing_prefix isListed with rfl | ⟨bufsz, s, answered, front⟩
    · cases inEs
    · have name := bounded.named it.path follow bufsz s answered e (front.subset inEs) isSub
      have converts : (Utf16.decode e.name).isSome = true := by rw [← dirsChild_isSome (o := o) name, made]; rfl
      have joined : (k.item item).path = dirsJoin it.path e.name := by
        rw [DirsChild.item, path, dirsChild_wname made]
      rw [joined]
      exact ⟨⟨joined ▸ listed.spelled.join name converts, dirsChild_marked made⟩,
        ⟨follow, bufsz, s, e, answered, front.subset inEs, isSub, rfl⟩, e.name, namesBelow_join listed.spelled name⟩

/-- The children that are pushed are subdirectories of the listing, in its order.
-/
theorem dirsKids_wname (es : List DirEntry) :
    ((dirsKids o es).map DirsChild.wname).Sublist ((es.filter DirEntry.subdirectory).map DirEntry.name) := by
  unfold dirsKids
  induction es.filter DirEntry.subdirectory with
  | nil => exact .slnil
  | cons e es ih =>
    cases made : dirsChild o e with
    | none =>
      rw [List.filterMap_cons_none made]
      exact .cons _ ih
    | some k =>
      rw [List.filterMap_cons_some made, List.map_cons, List.map_cons, dirsChild_wname made]
      exact .cons_cons _ ih

/-- No two children of an item have the same name. -/
theorem DirsFs.Bounded.siblings (bounded : fs.Bounded o.unc rootw) {it : DirsItem} (listed : it.Listed rootw) :
    ((fs.kids o it).map fun kid => namesBelow rootw kid.path).Nodup := by
  have path := fs.report_path o it
  have sound := fs.report_sound (o := o) listed.marked
  unfold DirsFs.kids
  generalize fs.report o it = r at path sound
  cases sound with
  | counted _ => exact List.nodup_nil
  | nofollow _ => exact List.nodup_nil
  | failed _ => exact List.nodup_nil
  | @descended item follow es errors isListed =>
    rcases fs.listing_prefix isListed with rfl | ⟨bufsz, s, answered, front⟩
    · exact List.nodup_nil
    · have apart := (bounded.distinct it.path follow bufsz s answered).sublist ((front.sublist.filter _).map _)
      have perm := List.perm_insertionSort (fun x y => dirsNamecmp x y = true) (dirsKids o es)
      have distinct := (perm.map DirsChild.wname).nodup_iff.mpr (apart.sublist (dirsKids_wname es))
      have keys : (((dirsKids o es).insertionSort fun x y => dirsNamecmp x y = true).map (·.item item)).map
          (fun kid => namesBelow rootw kid.path) =
          (((dirsKids o es).insertionSort fun x y => dirsNamecmp x y = true).map DirsChild.wname).map
            fun n => namesBelow rootw it.path ++ [n] := by
        rw [List.map_map, List.map_map]
        refine List.map_congr_left fun k member => ?_
        obtain ⟨e, isEntry, made⟩ := List.mem_filterMap.mp (perm.mem_iff.mp member)
        obtain ⟨inEs, isSub⟩ := List.mem_filter.mp isEntry
        have name := bounded.named it.path follow bufsz s answered e (front.subset inEs) isSub
        rw [Function.comp, Function.comp, DirsChild.item, path, dirsChild_wname made]
        exact namesBelow_join listed.spelled name
      rw [keys]
      exact distinct.map fun m n same => List.singleton_injective (List.append_cancel_left same)

def DirsFs.linkRows (fs : DirsFs) (o : DirsOptions) (it : DirsItem) : List DirsLinkRow :=
  if (fs.report o it).item.reparse then [(fs.report o it).row (dirsStrip o.unc it.path)] else []

def DirsFs.errRows (fs : DirsFs) (o : DirsOptions) (it : DirsItem) : List DirsErrRow :=
  (fs.report o it).errors.map fun e => ⟨(dirsStrip o.unc it.path).getD [], e, o.reason e⟩

/-- Whether a directory is met with an action. -/
def DirsFs.meets (fs : DirsFs) (o : DirsOptions) (action : DirsAction) (it : DirsItem) : Bool :=
  decide ((fs.report o it).action = action)

theorem DirsWalk.faults_eq (w : DirsWalk) (path : Wide) (es : List Nat) :
    w.faults o path es =
      { w with errors := w.errors ++ es.map fun e => ⟨(dirsStrip o.unc path).getD [], e, o.reason e⟩ } := by
  induction es generalizing w with
  | nil => rw [List.map_nil, List.append_nil]; rfl
  | cons e es ih =>
    refine (ih (w.fault o path e)).trans ?_
    rw [DirsWalk.fault, List.map_cons, List.append_assoc, List.singleton_append]

theorem DirsFs.looked_dirs (dirs : o.mode = .dirs) (path : Wide) (w : DirsWalk) (es : List DirEntry) :
    es.foldl (fs.looked o path) w = w := by
  induction es generalizing w with
  | nil => rfl
  | cons e es ih =>
    have same : fs.looked o path w e = w := by
      unfold DirsFs.looked DirsFs.filed
      rw [dirs]
      exact ite_self w
    rw [List.foldl_cons, same, ih]

/-- In the mode `dirs` a visit books its errors and whether it was pruned or
cut by the depth. -/
theorem DirsFs.booked_dirs (dirs : o.mode = .dirs) (w : DirsWalk) {path : Wide} {r : DirsReport}
    (sound : r.Sound fs o path) :
    fs.booked o w path r =
      { w with
        errors := w.errors ++ r.errors.map fun e => ⟨(dirsStrip o.unc path).getD [], e, o.reason e⟩
        pruned := w.pruned + if r.action = .pruned then 1 else 0
        depthlimited := w.depthlimited + if r.action = .depthlimited then 1 else 0 } := by
  unfold DirsFs.booked
  cases sound with
  | counted why => rcases why with rfl | rfl <;> simp only [List.map_nil, List.append_nil] <;> rfl
  | nofollow _ => exact DirsWalk.faults_eq w path []
  | failed _ => exact DirsWalk.faults_eq w path _
  | descended _ =>
    simp only [DirsFs.looked_dirs dirs]
    exact DirsWalk.faults_eq w path _

/-- In that mode a visited reparse point has a row. -/
theorem DirsFs.disclosed_dirs (dirs : o.mode = .dirs) (w : DirsWalk) (path : Wide) (r : DirsReport)
    (shown : Option Bytes) :
    fs.disclosed o w path r shown = { w with links := w.links ++
      if r.item.reparse then [r.row shown] else [] } := by
  unfold DirsFs.disclosed
  rw [dirs]
  split
  · rfl
  · rw [List.append_nil]

theorem DirsWalk.emit_dirs (dirs : o.mode = .dirs) (w : DirsWalk) (it : DirsItem) (shown : Bytes) :
    w.emit o it (some shown) =
      { w with paths := w.paths ++ [shown], count := w.count + 1, maxdepth := max w.maxdepth it.depth } := by
  unfold DirsWalk.emit
  simp only [dirs, if_true]
  split
  · rename_i deeper
    rw [Nat.max_eq_right deeper.le]
  · rename_i above
    rw [Nat.max_eq_left (Nat.not_lt.mp above)]

/-- What one more directory adds to the tally. -/
theorem DirsFs.note_dirs (dirs : o.mode = .dirs) {it : DirsItem} (listed : it.Listed rootw)
    {shown : Bytes} (spelled : dirsStrip o.unc it.path = some shown) (w : DirsWalk) :
    fs.note o w it =
      { w with
        paths := w.paths ++ [shown]
        links := w.links ++ fs.linkRows o it
        errors := w.errors ++ fs.errRows o it
        count := w.count + 1
        pruned := w.pruned + if fs.meets o .pruned it then 1 else 0
        depthlimited := w.depthlimited + if fs.meets o .depthlimited it then 1 else 0
        maxdepth := max w.maxdepth it.depth } := by
  have sound := fs.report_sound (o := o) listed.marked
  simp only [DirsFs.note, spelled, DirsWalk.emit_dirs dirs, DirsFs.booked_dirs dirs _ sound,
    DirsFs.disclosed_dirs dirs,
    DirsFs.linkRows, DirsFs.errRows, DirsFs.meets, decide_eq_true_eq]

/-- The tally of directories in an order. -/
theorem DirsFs.notes_dirs (dirs : o.mode = .dirs) (rooted : DirsRooted o.unc rootw) {order : List DirsItem}
    (listed : ∀ it ∈ order, it.Listed rootw) (w : DirsWalk) :
    order.foldl (fs.note o) w =
      { w with
        paths := w.paths ++ order.map fun it => (dirsStrip o.unc it.path).getD []
        links := w.links ++ order.flatMap (fs.linkRows o)
        errors := w.errors ++ order.flatMap (fs.errRows o)
        count := w.count + order.length
        pruned := w.pruned + order.countP (fs.meets o .pruned)
        depthlimited := w.depthlimited + order.countP (fs.meets o .depthlimited)
        maxdepth := order.foldl (fun deepest it => max deepest it.depth) w.maxdepth } := by
  induction order generalizing w with
  | nil =>
    simp only [List.foldl_nil, List.map_nil, List.flatMap_nil, List.append_nil, List.length_nil,
      List.countP_nil, Nat.add_zero]
  | cons it order ih =>
    obtain ⟨first, rest⟩ := List.forall_mem_cons.mp listed
    obtain ⟨shown, spelled⟩ := dirsStrip_isSome rooted first.spelled
    rw [List.foldl_cons, fs.note_dirs dirs first spelled, ih rest]
    simp only [List.map_cons, spelled, Option.getD_some, List.flatMap_cons, List.append_assoc,
      List.singleton_append,
      List.length_cons, List.countP_cons, List.foldl_cons, Nat.add_comm, Nat.add_left_comm]

/-- The numbers that both modes report. -/
def DirsWalk.numbers (w : DirsWalk) : Nat × Nat × Nat × Nat := (w.count, w.pruned, w.depthlimited, w.maxdepth)

theorem DirsFs.recorded_numbers (w : DirsWalk) (full : Wide) (shown : Option Bytes) (tag : UInt32) (isdir : Bool) :
    (fs.recorded o w full shown tag isdir).numbers = w.numbers := by
  unfold DirsFs.recorded
  dsimp only
  split
  · rfl
  · split <;> rfl

/-- Seeing an entry changes none of the four numbers. -/
theorem DirsFs.looked_numbers (path : Wide) (w : DirsWalk) (e : DirEntry) :
    (fs.looked o path w e).numbers = w.numbers := by
  unfold DirsFs.looked DirsFs.filed DirsFs.counted
  split
  · rfl
  · split
    · rfl
    · dsimp only
      split
      · rfl
      · split
        · split
          · exact DirsFs.recorded_numbers _ _ _ _ _
          · rfl
        · split
          · split
            · rfl
            · split <;> rfl
          · rfl

theorem DirsFs.seen_numbers (path : Wide) (w : DirsWalk) (es : List DirEntry) :
    (es.foldl (fs.looked o path) w).numbers = w.numbers := by
  induction es generalizing w with
  | nil => rfl
  | cons e es ih => exact (ih _).trans (fs.looked_numbers path w e)

theorem DirsFs.disclosed_numbers (w : DirsWalk) (path : Wide) (r : DirsReport) (shown : Option Bytes) :
    (fs.disclosed o w path r shown).numbers = w.numbers := by
  unfold DirsFs.disclosed
  dsimp only
  split
  · split
    · rfl
    · split
      · exact DirsFs.recorded_numbers _ _ _ _ _
      · split <;> rfl
  · rfl

/-- A visit that was pruned or cut by the depth is counted as such, and
nothing else is. -/
theorem DirsFs.booked_numbers (w : DirsWalk) {path : Wide} {r : DirsReport} (sound : r.Sound fs o path) :
    (fs.booked o w path r).numbers = (w.count, w.pruned + if r.action = .pruned then 1 else 0,
      w.depthlimited + if r.action = .depthlimited then 1 else 0, w.maxdepth) := by
  unfold DirsFs.booked
  cases sound with
  | counted why => rcases why with rfl | rfl <;> rfl
  | nofollow _ => rfl
  | failed _ =>
    rw [DirsWalk.faults_eq]
    rfl
  | descended _ =>
    rw [DirsWalk.faults_eq]
    exact fs.seen_numbers path w _

theorem DirsWalk.emit_numbers (w : DirsWalk) (it : DirsItem) (shown : Bytes) :
    (w.emit o it (some shown)).numbers = (w.count + 1, w.pruned, w.depthlimited, max w.maxdepth it.depth) := by
  unfold DirsWalk.emit
  dsimp only
  split
  · rename_i deeper
    rw [Nat.max_eq_right deeper.le]
    rfl
  · rename_i above
    rw [Nat.max_eq_left (Nat.not_lt.mp above)]
    rfl

/-- One item counts once, whatever it is. -/
theorem DirsFs.note_numbers {it : DirsItem} (listed : it.Listed rootw) {shown : Bytes}
    (spelled : dirsStrip o.unc it.path = some shown) (w : DirsWalk) :
    (fs.note o w it).numbers = (w.count + 1, w.pruned + if fs.meets o .pruned it then 1 else 0,
      w.depthlimited + if fs.meets o .depthlimited it then 1 else 0, max w.maxdepth it.depth) := by
  have sound := fs.report_sound (o := o) listed.marked
  have emitted := w.emit_numbers (o := o) it shown
  simp only [DirsWalk.numbers, Prod.mk.injEq] at emitted
  simp only [DirsFs.note, spelled, DirsFs.disclosed_numbers, DirsFs.booked_numbers _ sound, emitted, DirsFs.meets,
    decide_eq_true_eq]

/-- The numbers of the report are the counts over the items that were
visited: all of them, those that were pruned, those that were cut by the
depth, and the deepest. -/
theorem DirsFs.notes_numbers (rooted : DirsRooted o.unc rootw) {order : List DirsItem}
    (listed : ∀ it ∈ order, it.Listed rootw) (w : DirsWalk) :
    (order.foldl (fs.note o) w).numbers = (w.count + order.length, w.pruned + order.countP (fs.meets o .pruned),
      w.depthlimited + order.countP (fs.meets o .depthlimited),
      order.foldl (fun deepest it => max deepest it.depth) w.maxdepth) := by
  induction order generalizing w with
  | nil => rfl
  | cons it order ih =>
    obtain ⟨first, rest⟩ := List.forall_mem_cons.mp listed
    obtain ⟨shown, spelled⟩ := dirsStrip_isSome rooted first.spelled
    have noted := fs.note_numbers first spelled w
    simp only [DirsWalk.numbers, Prod.mk.injEq] at noted
    rw [List.foldl_cons, ih rest]
    simp only [noted, List.length_cons, List.countP_cons, List.foldl_cons, Nat.add_comm, Nat.add_left_comm]

end

end Machteld
