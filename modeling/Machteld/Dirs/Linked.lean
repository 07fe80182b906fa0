import Machteld.Dirs.Inventory

namespace Machteld

/-- The row of the root, which is a name with some tag or none. -/
inductive DirsFs.RootRow (fs : DirsFs) (o : DirsOptions) (rootw : Wide) (errors : List DirsErrRow) :
    Option UInt32 → Multiset LinksEntry → Prop
  | plain : RootRow fs o rootw errors none 0
  | listed {tag : UInt32} (determined : ∀ row ∈ fs.linkError o ⟨rootw, true, true, tag⟩, row ∈ errors) :
    RootRow fs o rootw errors (some tag) {fs.linkRow o ⟨rootw, true, true, tag⟩}
  | unclassified {tag : UInt32} {e : Nat} (handle : fs.rootTag rootw = (none, some e))
    (scan : fs.rootScanned rootw = none)
    (row : o.errRow rootw e ∈ errors) : RootRow fs o rootw errors (some tag) 0

/-- The rows a file whose name is not converted may have: those of its name
and of its links, with the empty path. -/
def DirsFs.hiddenRows (fs : DirsFs) (o : DirsOptions) (mets : List DirsMet) : Multiset LinksEntry :=
  ((mets.filter fun m => !m.directory && m.isName && !m.shown o).map (fs.linkRow o) : List LinksEntry)

def DirsFs.hiddenMultis (fs : DirsFs) (o : DirsOptions) (mets : List DirsMet) : Multiset (Bytes × Nat) :=
  ((mets.filter fun m => !m.directory && !m.reparse && !m.shown o).filterMap (fs.multiRow o) : List (Bytes × Nat))

/-- What the rows of a walk in links mode say about a tree. A file whose
name is not converted is promised no row, and has at most one, with the
empty path that nothing else has. -/
structure DirsFs.Inventories (fs : DirsFs) (o : DirsOptions) (rootw : Wide) (name : Option UInt32) (w : DirsWalk)
    (order : List DirsItem) : Prop where
  reached : ∀ it, it ∈ order ↔ Relation.ReflTransGen (fun parent kid => kid ∈ fs.kids o parent) (fs.root rootw) it
  met : ∀ it ∈ order, (fs.report o it).mets it.path = [] ∨ ∃ follow es errors, fs.listing it.path follow =
    .ok (es, errors) ∧
    (fs.report o it).mets it.path = (es.filter fun e => !dotName e.name).map (DirEntry.met it.path)
  kids : ∀ it ∈ order, ((fs.kids o it).map DirsItem.path).Perm
    ((((fs.report o it).mets it.path).filter fun m => m.directory && m.shown o).map DirsMet.path)
  shown : ∀ m ∈ fs.mets o order, (dirsStrip o.unc m.path).getD [] = [] ↔ m.shown o = false
  apart : ((rootw :: ((fs.mets o order).filter fun m => m.shown o).map DirsMet.path).map (dirsStrip o.unc)).Nodup
  links : ∃ top others, (w.entries : Multiset LinksEntry) =
      top + ((((fs.mets o order).filter fun m => m.isName && m.shown o).map (fs.linkRow o) :
        List LinksEntry) + others) ∧
    fs.RootRow o rootw w.errors name top ∧ others ≤ fs.hiddenRows o (fs.mets o order)
  determined : ∀ m ∈ fs.mets o order, m.isName = true → m.shown o = true → ∀ row ∈ fs.linkError o m, row ∈ w.errors
  unnamed : ((order.flatMap fun it => List.replicate
      (((fs.report o it).mets it.path).countP fun m => m.directory && !m.shown o)
      (o.errRow it.path errorNoUnicodeTranslation) : List DirsErrRow) : Multiset DirsErrRow) ≤ w.errors
  multilinked : o.hardlinks = true → ∃ others, (w.multi : Multiset (Bytes × Nat)) =
      (((fs.mets o order).filter fun m => !m.directory && !m.reparse && m.shown o).filterMap (fs.multiRow o) :
        List (Bytes × Nat)) + others ∧ others ≤ fs.hiddenMultis o (fs.mets o order)
  counted : o.hardlinks = true → ∀ m ∈ fs.mets o order, m.directory = false → m.reparse = false →
    ∀ e, fs.nlinks m.path = .error e → o.errRow m.path e ∈ w.errors
  files : w.files = (fs.mets o order).countP fun m => !m.directory

section

variable {fs : DirsFs} {o : DirsOptions} {rootw : Wide} {name : Option UInt32}

theorem DirsFs.rootWalk_tally (fs : DirsFs) (o : DirsOptions) (rootw : Wide) :
    (fs.rootWalk o rootw).tally = (0, optionBag ((fs.rootTag rootw).2.map (o.errRow rootw)), 0, 0) := by
  unfold DirsFs.rootWalk
  cases (fs.rootTag rootw).2 <;> rfl

/-- What the root itself adds. -/
theorem DirsFs.root_tally (fs : DirsFs) (o : DirsOptions) (rootw : Wide) :
    fs.linkTally o ((fs.report o (fs.root rootw)).met rootw) =
      fs.linkTally o ⟨rootw, true, (fs.rootScanned rootw).isSome, (fs.rootScanned rootw).getD 0⟩ := by
  have noted : fs.linkTally o ((fs.report o (fs.root rootw)).met rootw) =
      fs.linkTally o ⟨rootw, true, (fs.root rootw).reparse, (fs.root rootw).tag⟩ := by
    refine @DirsFs.report_linkTally fs o (fs.root rootw) ?_ fun below => absurd below (Nat.lt_irrefl 0)
    unfold DirsFs.root dirsRoot
    cases fs.rootScanned rootw <;> rfl
  rw [noted]
  unfold DirsFs.root dirsRoot
  cases fs.rootScanned rootw <;> rfl

/-- A reparse tag counts as a name where the tag says so, and only then. -/
theorem AttributeTag.name_eq {info : AttributeTag} (reparse : info.reparse = true) :
    (dirsIsname info.tag = true → info.name = some info.tag) ∧ ∀ tag ∈ info.name, info.tag = tag := by
  unfold AttributeTag.name
  rw [reparse, Bool.true_and]
  refine ⟨fun isName => if_pos isName, fun tag member => ?_⟩
  split_ifs at member
  · exact Option.some.inj member
  · cases member

theorem AttributeTag.name_none {info : AttributeTag} (plain : info.reparse = false) : info.name = none := by
  rw [AttributeTag.name, plain]
  rfl

/-- The look at the root fails, or tells its tag where it is a reparse
point. -/
theorem DirsFs.rootTag_cases (fs : DirsFs) (rootw : Wide) : (∃ e, fs.rootTag rootw = (none, some e)) ∨
    ∃ info, fs.attributes rootw false = .ok info ∧ fs.rootTag rootw =
      (if info.reparse then some info.tag else none, none) := by
  unfold DirsFs.rootTag
  cases fs.opened rootw false with
  | some e => exact .inl ⟨e, rfl⟩
  | none =>
    cases fs.attributes rootw false with
    | error e => exact .inl ⟨e, rfl⟩
    | ok info => exact .inr ⟨info, rfl, rfl⟩

/-- The tag of the root, where any query tells it. -/
theorem DirsFs.Static.rootScanned (static : fs.Static o.unc rootw name) :
    (∀ tag ∈ fs.rootScanned rootw, dirsIsname tag = true → name = some tag) ∧
      (∀ tag ∈ name, fs.rootScanned rootw = some tag ∨
        fs.rootScanned rootw = none ∧ ∃ e, fs.rootTag rootw = (none, some e)) := by
  have scan : ∀ tag, ((fs.found rootw).bind fun info => if info.reparse &&
    info.directory then some info.tag else none) =
      some tag → (dirsIsname tag = true → name = some tag) ∧ ∀ tag' ∈ name, tag = tag' := by
    intro tag told
    obtain ⟨info, found, told⟩ := Option.bind_eq_some_iff.mp told
    split_ifs at told with both
    obtain ⟨reparse, directory⟩ := Bool.and_eq_true_iff.mp both
    obtain rfl := Option.some.inj told
    rw [← static.found info found directory]
    exact AttributeTag.name_eq reparse
  unfold DirsFs.rootScanned
  rcases fs.rootTag_cases rootw with ⟨e, failed⟩ | ⟨info, told, answer⟩
  · rw [failed]
    refine ⟨fun tag member => (scan tag member).1, fun tag member => ?_⟩
    cases found : (fs.found rootw).bind fun info => if info.reparse &&
      info.directory then some info.tag else none with
    | none => exact .inr ⟨rfl, e, rfl⟩
    | some tag' => exact .inl (congrArg some ((scan tag' found).2 tag member))
  · rw [answer]
    cases reparse : info.reparse with
    | true =>
      obtain ⟨isName, only⟩ := AttributeTag.name_eq reparse
      rw [static.root info told] at isName only
      refine ⟨fun tag member => ?_, fun tag member => .inl (congrArg some (only tag member))⟩
      obtain rfl := Option.some.inj member
      exact isName
    | false =>
      refine ⟨fun tag member => (scan tag member).1, fun tag member => ?_⟩
      rw [← static.root info told, AttributeTag.name_none reparse] at member
      cases member

/-- The row of the root is the one of its tag. -/
theorem DirsFs.Static.rootRow (static : fs.Static o.unc rootw name) {errors : List DirsErrRow}
    (classified : ∀ e ∈ (fs.rootTag rootw).2, o.errRow rootw e ∈ errors)
    (own : ∀ row ∈ (fs.linkTally o ((fs.report o (fs.root rootw)).met rootw)).2.1, row ∈ errors) :
    fs.RootRow o rootw errors name (fs.linkTally o ((fs.report o (fs.root rootw)).met rootw)).1 := by
  obtain ⟨sound, told⟩ := static.rootScanned
  rw [fs.root_tally o rootw] at own ⊢
  cases scanned : fs.rootScanned rootw with
  | none =>
    have zero : fs.linkTally o ⟨rootw, true, (none : Option UInt32).isSome, (none : Option UInt32).getD 0⟩ = 0 :=
      rfl
    rw [zero]
    cases isNamed : name with
    | none => exact .plain
    | some tag =>
      rcases told tag isNamed with known | ⟨-, e, failed⟩
      · cases scanned.symm.trans known
      · exact .unclassified failed scanned (classified e (by rw [failed]; rfl))
  | some tag =>
    rw [scanned] at own
    by_cases isName : dirsIsname tag = true
    · have listed : fs.linkTally o ⟨rootw, true, (some tag).isSome, (some tag).getD 0⟩ =
          (({fs.linkRow o ⟨rootw, true, true, tag⟩}, optionBag (fs.linkError o ⟨rootw, true, true, tag⟩), 0, 0) :
            LinksTally) := if_pos isName
      rw [sound tag scanned isName, listed]
      rw [listed] at own
      refine .listed fun row member => own row ?_
      rw [Option.mem_def.mp member]
      exact Multiset.mem_singleton_self row
    · have zero : fs.linkTally o ⟨rootw, true, (some tag).isSome, (some tag).getD 0⟩ = 0 := if_neg isName
      rw [zero]
      cases isNamed : name with
      | none => exact .plain
      | some tag' =>
        rcases told tag' isNamed with known | ⟨unknown, -⟩
        · obtain rfl := Option.some.inj (scanned.symm.trans known)
          exact absurd (static.isName tag isNamed) isName
        · cases scanned.symm.trans unknown

theorem DirsFs.linkTally_rest (fs : DirsFs) (m : DirsMet) :
    (fs.linkTally o m).2.2.1 = 0 ∧ (fs.linkTally o m).2.2.2 = 0 := by
  unfold DirsFs.linkTally
  split <;> exact ⟨rfl, rfl⟩

theorem sum_count {α : Type} (p : α → Bool) (l : List α) :
    (l.map fun a => if p a = true then 0 else 1).sum = l.countP fun a => !p a := by
  induction l with
  | nil => rfl
  | cons a l ih =>
    rw [List.map_cons, List.sum_cons, ih, List.countP_cons]
    cases p a <;> simp [Nat.add_comm]

/-- The parts of the tally of a walk. -/
theorem DirsFs.Static.parts (static : fs.Static o.unc rootw name) (links : o.mode = .links) {order : List DirsItem}
    (walk : DepthFirst (fs.kids o) [fs.root rootw] order) {w : DirsWalk}
    (ends : w = order.foldl (fs.note o) (fs.rootWalk o rootw)) :
    (w.entries : Multiset LinksEntry) = (fs.linkTally o ((fs.report o (fs.root rootw)).met rootw)).1 +
        ((fs.mets o order).filterMap (fs.metRow o) : List LinksEntry) ∧
      (w.errors : Multiset DirsErrRow) = optionBag ((fs.rootTag rootw).2.map (o.errRow rootw)) +
        (fs.linkTally o ((fs.report o (fs.root rootw)).met rootw)).2.1 +
          ((fs.mets o order).map fun m => (fs.metTally o m).2.1).sum +
            (order.map fun it => (((fs.report o it).errors.map (o.errRow it.path) : List DirsErrRow) :
              Multiset DirsErrRow)).sum ∧
      (w.multi : Multiset (Bytes × Nat)) = ((fs.mets o order).filterMap (fs.metMulti o) : List (Bytes × Nat)) ∧
      w.files = (fs.mets o order).countP fun m => !m.directory := by
  have whole := static.notes links (static.bounded.listed_all walk) (fs.rootWalk o rootw)
  rw [← ends, fs.rootWalk_tally o rootw, static.order_tally walk, tally_sum, tally_sum] at whole
  simp only [DirsWalk.tally, Prod.ext_iff, Prod.fst_add, Prod.snd_add, DirsOptions.errTally, DirsFs.metTally_parts,
    bag_filterMap, fs.linkTally_rest, List.sum_map_zero, zero_add, add_zero, sum_count] at whole
  obtain ⟨entries, errors, multi, files⟩ := whole
  exact ⟨entries, by rw [errors, add_assoc, add_assoc, add_assoc], multi, files⟩

theorem bag_split {α β : Type} (f : α → Option β) (q : α → Bool) (l : List α) :
    (l.filterMap f : Multiset β) = ((l.filter q).filterMap f : List β) +
      ((l.filter fun a => !q a).filterMap f : List β) := by
  rw [Multiset.coe_add, ← List.filterMap_append]
  exact Multiset.coe_eq_coe.mpr ((List.filter_append_perm q l).symm.filterMap f)

/-- The rows of what is shown, with those of the files that are not. -/
theorem DirsFs.metRows (fs : DirsFs) (l : List DirsMet) :
    ((l.filterMap (fs.metRow o) : List LinksEntry) : Multiset LinksEntry) =
      ((l.filter fun m => m.isName && m.shown o).map (fs.linkRow o) : List LinksEntry) + fs.hiddenRows o l := by
  rw [bag_split (fs.metRow o) fun m => m.shown o, hiddenRows, ← List.filterMap_eq_map]
  simp only [List.filterMap_filter]
  refine congrArg₂ (· + ·) (congrArg Multiset.ofList ?_) (congrArg Multiset.ofList ?_)
  · refine List.filterMap_congr fun m _ => ?_
    unfold DirsFs.metRow
    cases m.isName <;> cases m.shown o <;> simp
  · refine List.filterMap_congr fun m _ => ?_
    unfold DirsFs.metRow
    cases m.directory <;> cases m.isName <;> cases m.shown o <;> simp

/-- The rows with more than one link are those of files with a spelling and
those of files without one. -/
theorem DirsFs.metMultis (fs : DirsFs) (hard : o.hardlinks = true) (l : List DirsMet) :
    ((l.filterMap (fs.metMulti o) : List (Bytes × Nat)) : Multiset (Bytes × Nat)) =
      ((l.filter fun m => !m.directory && !m.reparse && m.shown o).filterMap (fs.multiRow o) : List (Bytes × Nat)) +
        fs.hiddenMultis o l := by
  rw [bag_split (fs.metMulti o) fun m => m.shown o, hiddenMultis]
  simp only [List.filterMap_filter]
  refine congrArg₂ (· + ·) (congrArg Multiset.ofList ?_) (congrArg Multiset.ofList ?_)
  · refine List.filterMap_congr fun m _ => ?_
    unfold DirsFs.metMulti
    rw [hard]
    cases m.directory <;> cases m.reparse <;> cases m.shown o <;> simp
  · refine List.filterMap_congr fun m _ => ?_
    unfold DirsFs.metMulti
    rw [hard]
    cases m.directory <;> cases m.reparse <;> cases m.shown o <;> simp

/-- Lists below bags, item by item, are below them as a whole. -/
theorem bags_le {α β : Type} {f : α → List β} {g : α → Multiset β} {l : List α}
    (each : ∀ a ∈ l, (f a : Multiset β) ≤ g a) :
    ((l.flatMap f : List β) : Multiset β) ≤ (l.map g).sum := by
  induction l with
  | nil => exact le_refl _
  | cons a l ih =>
    obtain ⟨first, rest⟩ := List.forall_mem_cons.mp each
    rw [List.flatMap_cons, ← Multiset.coe_add, List.map_cons, List.sum_cons]
    exact add_le_add first (ih rest)

/-- The subdirectories of what is met are those that are looked at. -/
theorem dirsKids_met {path : Wide} (rooted : DirsRooted o.unc rootw) (spelled : Spelled rootw path)
    (es : List DirEntry)
    (named : ∀ e ∈ es, dotName e.name = false → DirsName e.name) :
    (dirsKids o es).map (fun k => dirsJoin path k.wname) =
        ((((es.filter fun e => !dotName e.name).map (DirEntry.met path)).filter fun m =>
          m.directory && m.shown o).map
          DirsMet.path) ∧
      dirsBad o es = ((es.filter fun e => !dotName e.name).map (DirEntry.met path)).countP fun m =>
        m.directory && !m.shown o := by
  induction es with
  | nil => exact ⟨rfl, rfl⟩
  | cons e es ih =>
    obtain ⟨first, rest⟩ := List.forall_mem_cons.mp named
    obtain ⟨kids, bad⟩ := ih rest
    cases dot : dotName e.name with
    | true =>
      have isSub : ¬ e.subdirectory = true := by simp [DirEntry.subdirectory, dot]
      have skipped : (e :: es).filter (fun e => !dotName e.name) = es.filter fun e => !dotName e.name :=
        List.filter_cons_of_neg (by simp [dot])
      rw [skipped, dirsKids, dirsBad, List.filter_cons_of_neg isSub]
      exact ⟨kids, bad⟩
    | false =>
      have kept : (e :: es).filter (fun e => !dotName e.name) = e :: es.filter fun e => !dotName e.name :=
        List.filter_cons_of_pos (by simp [dot])
      have shown : (e.met path).shown o = (Utf16.decode e.name).isSome := dirsStrip_join rooted spelled (first dot)
      have converts := dirsChild_isSome (o := o) (first dot)
      rw [kept, List.map_cons]
      cases isDirectory : e.directory with
      | false =>
        have isSub : ¬ e.subdirectory = true := by simp [DirEntry.subdirectory, isDirectory]
        rw [dirsKids, dirsBad, List.filter_cons_of_neg isSub,
          List.filter_cons_of_neg (by simp [DirEntry.met, isDirectory]),
          List.countP_cons_of_neg (by simp [DirEntry.met, isDirectory])]
        exact ⟨kids, bad⟩
      | true =>
        have isSub : e.subdirectory = true := by simp [DirEntry.subdirectory, isDirectory, dot]
        have directory : (e.met path).directory = true := isDirectory
        rw [dirsKids, dirsBad, List.filter_cons_of_pos isSub]
        cases made : dirsChild o e with
        | none =>
          have hidden : (e.met path).shown o = false := by rw [shown, ← converts, made]; rfl
          rw [List.filterMap_cons_none made, List.filter_cons_of_neg (by simp [hidden]),
            List.countP_cons_of_pos (by simp [made]), List.countP_cons_of_pos (by simp [hidden, directory])]
          exact ⟨kids, congrArg (· + 1) bad⟩
        | some k =>
          have visible : (e.met path).shown o = true := by rw [shown, ← converts, made]; rfl
          rw [List.filterMap_cons_some made, List.filter_cons_of_pos (by simp [visible, directory]),
            List.countP_cons_of_neg (by simp [made]), List.countP_cons_of_neg (by simp [visible]),
              List.map_cons, List.map_cons,
            dirsChild_wname made]
          exact ⟨congrArg (_ :: ·) kids, bad⟩

theorem DirsFs.Static.met_named (static : fs.Static o.unc rootw name) {it : DirsItem} (listed : it.Listed rootw) :
    ∀ e ∈ (fs.report o it).seen, dotName e.name = false → DirsName e.name := by
  obtain ⟨s, ofStream, front⟩ := (static.scanned (o := o) listed).stream
  exact fun e member => ofStream.named e (front.subset member)

/-- The names below the root of what is met in a directory. -/
theorem DirsFs.Static.met_keys (static : fs.Static o.unc rootw name) {it : DirsItem} (listed : it.Listed rootw) :
    ((fs.report o it).mets it.path).map (fun m => namesBelow rootw m.path) =
      (((fs.report o it).seen.filter fun e => !dotName e.name).map DirEntry.name).map fun n =>
        namesBelow rootw it.path ++ [n] := by
  rw [DirsReport.mets, List.map_map, List.map_map]
  refine List.map_congr_left fun e member => ?_
  obtain ⟨inside, noDot⟩ := List.mem_filter.mp member
  exact namesBelow_join listed.spelled (static.met_named listed e inside (by simpa using noDot))

/-- What is met has names of its own. -/
theorem DirsFs.Static.keys_nodup (static : fs.Static o.unc rootw name) {order : List DirsItem}
    (walk : DepthFirst (fs.kids o) [fs.root rootw] order) :
    ((fs.mets o order).map fun m => namesBelow rootw m.path).Nodup := by
  have listed := static.bounded.listed_all walk
  have distinct := List.pairwise_map.mp (static.bounded.keys_nodup walk)
  rw [DirsFs.mets, List.map_flatMap, List.nodup_flatMap]
  refine ⟨fun it member => ?_, distinct.imp_of_mem fun {it it'} member member' apart => ?_⟩
  · obtain ⟨s, ofStream, front⟩ := (static.scanned (o := o) (listed it member)).stream
    rw [static.met_keys (listed it member)]
    exact (ofStream.distinct.sublist ((front.sublist.filter _).map _)).map
      fun m n same => List.singleton_injective (List.append_cancel_left same)
  · intro key inside inside'
    dsimp only at inside inside'
    rw [static.met_keys (listed it member)] at inside
    rw [static.met_keys (listed it' member')] at inside'
    obtain ⟨n, -, rfl⟩ := List.mem_map.mp inside
    obtain ⟨n', -, same⟩ := List.mem_map.mp inside'
    exact apart (List.append_inj_left' same rfl).symm

/-- What a walk has met lies below the root, and what is shown of it has a
spelling. -/
theorem DirsFs.Static.met_spelled (static : fs.Static o.unc rootw name) {order : List DirsItem}
    (walk : DepthFirst (fs.kids o) [fs.root rootw] order) {m : DirsMet} (met : m ∈ fs.mets o order) :
    namesBelow rootw m.path ≠ [] ∧ (m.shown o = true → Spelled rootw m.path) := by
  obtain ⟨it, member, inside⟩ := List.mem_flatMap.mp met
  have listed := static.bounded.listed_all walk it member
  obtain ⟨e, isEntry, rfl⟩ := List.mem_map.mp inside
  obtain ⟨seen, noDot⟩ := List.mem_filter.mp isEntry
  have named := static.met_named listed e seen (by simpa using noDot)
  constructor
  · rw [DirEntry.met, namesBelow_join listed.spelled named]
    exact List.append_ne_nil_of_right_ne_nil _ (List.cons_ne_nil _ _)
  · intro shown
    have converts := (dirsStrip_join static.rooted listed.spelled named).symm.trans shown
    exact listed.spelled.join named converts

theorem namesBelow_self (rootw : Wide) : namesBelow rootw rootw = [] := by
  rw [namesBelow, List.drop_length]
  rfl

/-- A path that is shown is not empty: there is a name behind the root. -/
theorem DirsFs.Static.shown_iff (static : fs.Static o.unc rootw name) {order : List DirsItem}
    (walk : DepthFirst (fs.kids o) [fs.root rootw] order) {m : DirsMet} (met : m ∈ fs.mets o order) :
    (dirsStrip o.unc m.path).getD [] = [] ↔ m.shown o = false := by
  obtain ⟨below, spelled⟩ := static.met_spelled walk met
  unfold DirsMet.shown at spelled ⊢
  cases strip : dirsStrip o.unc m.path with
  | none => exact iff_of_true rfl rfl
  | some text =>
    rw [strip] at spelled
    obtain ⟨s, whole, decodes, -⟩ := spelled rfl
    obtain ⟨cs, read⟩ := Option.isSome_iff_exists.mp decodes
    obtain ⟨front, shown, -⟩ := dirsStrip_spelled static.rooted read
    rw [whole, shown] at strip
    obtain rfl := Option.some.inj strip
    refine iff_of_false (fun empty => below ?_) Bool.true_eq_false.mp
    have spelling := List.map_eq_nil_iff.mp (List.append_eq_nil_iff.mp empty).2
    have none' : cs = [] := List.eq_nil_iff_forall_not_mem.mpr fun c member =>
      Utf8.encode_ne_nil c (List.flatMap_eq_nil_iff.mp spelling c member)
    obtain rfl := Utf16.decode_injective (none' ▸ read) (rfl : Utf16.decode [] = some [])
    rw [whole, List.append_nil, namesBelow_self]

/-- The paths that are shown are different. -/
theorem DirsFs.Static.apart (static : fs.Static o.unc rootw name) {order : List DirsItem}
    (walk : DepthFirst (fs.kids o) [fs.root rootw] order) :
    ((rootw :: ((fs.mets o order).filter fun m => m.shown o).map DirsMet.path).map (dirsStrip o.unc)).Nodup := by
  have keys : ((rootw :: ((fs.mets o order).filter fun m => m.shown o).map DirsMet.path).map
    (namesBelow rootw)).Nodup := by
    rw [List.map_cons, List.map_map, List.nodup_cons]
    refine ⟨fun member => ?_, (static.keys_nodup walk).sublist (List.filter_sublist.map _)⟩
    obtain ⟨m, inside, same⟩ := List.mem_map.mp member
    exact (static.met_spelled walk (List.mem_filter.mp inside).1).1 (same.trans (namesBelow_self rootw))
  have spelled : ∀ p ∈ rootw :: ((fs.mets o order).filter fun m => m.shown o).map DirsMet.path,
    Spelled rootw p := by
    refine List.forall_mem_cons.mpr ⟨Spelled.root rootw, fun p member => ?_⟩
    obtain ⟨m, inside, rfl⟩ := List.mem_map.mp member
    obtain ⟨met, shown⟩ := List.mem_filter.mp inside
    exact (static.met_spelled walk met).2 shown
  refine List.pairwise_map.mpr ((List.pairwise_map.mp keys).imp_of_mem fun member member' apart same => apart ?_)
  rw [dirsStrip_injective static.rooted (spelled _ member) (spelled _ member') same]

/-- The report of `links` from the tally of its walk: each row from exactly
one name of the tree, but for those without a UTF-8 form. -/
theorem DirsFs.Static.inventories (static : fs.Static o.unc rootw name) (links : o.mode = .links)
    {order : List DirsItem}
    (walk : DepthFirst (fs.kids o) [fs.root rootw] order) {w : DirsWalk}
    (ends : w = order.foldl (fs.note o) (fs.rootWalk o rootw)) : fs.Inventories o rootw name w order := by
  have listed := static.bounded.listed_all walk
  obtain ⟨entries, errors, multi, files⟩ := static.parts links walk ends
  have inErrors : ∀ {row : DirsErrRow}, row ∈ (w.errors : Multiset DirsErrRow) → row ∈ w.errors :=
    Multiset.mem_coe.mp
  constructor
  · exact fun it => by simpa only [List.mem_singleton, exists_eq_left] using walk.mem_iff
  · intro it member
    have sound := fs.report_sound (o := o) (listed it member).marked
    unfold DirsReport.mets
    generalize fs.report o it = r at sound
    cases sound with
    | counted _ => exact .inl rfl
    | nofollow _ => exact .inl rfl
    | failed _ => exact .inl rfl
    | descended isListed => exact .inr ⟨_, _, _, isListed, rfl⟩
  · intro it member
    have scanned := static.scanned (o := o) (listed it member)
    obtain ⟨kids, -⟩ := dirsKids_met (o := o) static.rooted (listed it member).spelled _
      (static.met_named (listed it member))
    have perm := List.perm_insertionSort (fun x y => dirsNamecmp x y = true) (dirsKids o (fs.report o it).seen)
    rw [DirsReport.mets, ← kids, DirsFs.kids, List.map_map, scanned.kids]
    refine (perm.map _).trans (List.Perm.of_eq (List.map_congr_left fun k _ => ?_))
    rw [Function.comp, DirsChild.item, fs.report_path o it]
  · exact fun m met => static.shown_iff walk met
  · exact static.apart walk
  · refine ⟨_, _, entries.trans (congrArg (_ + ·) (fs.metRows (fs.mets o order))), static.rootRow ?_ ?_, le_refl _⟩
    · intro e failed
      apply inErrors
      rw [errors, Option.mem_def.mp failed]
      simp [optionBag]
    · intro row member
      apply inErrors
      rw [errors]
      simp [member]
  · intro m met isName shown row failed
    apply inErrors
    rw [errors]
    have own := mem_bags (f := fun m => (fs.metTally o m).2.1) met (fs.metTally_link m isName shown failed)
    simp [own]
  · rw [errors]
    refine le_trans (bags_le fun it member => ?_) (Multiset.le_add_left _ _)
    obtain ⟨before, same⟩ := (static.scanned (o := o) (listed it member)).unnamed
    obtain ⟨-, bad⟩ := dirsKids_met (o := o) static.rooted (listed it member).spelled _
      (static.met_named (listed it member))
    rw [DirsReport.mets, ← bad, same, List.map_append, List.map_replicate, ← Multiset.coe_add]
    exact Multiset.le_add_left _ _
  · exact fun hard => ⟨_, multi.trans (fs.metMultis hard (fs.mets o order)), le_refl _⟩
  · intro hard m met file plain e failed
    apply inErrors
    rw [errors]
    have own := mem_bags (f := fun m => (fs.metTally o m).2.1) met (fs.metTally_count m hard file plain failed)
    simp [own]
  · exact files

/-- The walk of a finite tree that nobody changes, in links mode: an
inventory of its names and of its files. -/
theorem dirsCore_inventories (links : o.mode = .links) (static : fs.Static o.unc rootw name)
    (opens : fs.Opens rootw)
    (v : DirsPending) :
    ∃ w order, (dirsHost fs).Yields (dirsCore o rootw) v (.ok w) ∧ DepthFirst (fs.kids o) [fs.root rootw] order ∧
      fs.Inventories o rootw name w order := by
  obtain ⟨order, walk⟩ := static.bounded.order (o := o)
  exact ⟨_, order, dirsHost_yields (dirsCore_reaches o opens walk v), walk, static.inventories links walk rfl⟩

end

def tagMountPoint : UInt32 := 0xA0000003

/-- A root with one junction, of some name. -/
def junctionFs (n : Wide) : DirsFs where
  opened _ _ := none
  attributes path _ := .ok (if path = walkRoot then ⟨true, false, 0⟩ else ⟨true, true, tagMountPoint⟩)
  stream path _ _ :=
    if path = walkRoot then .ok ⟨⟨[⟨n, true, true, tagMountPoint⟩], false⟩, [], errorNoMoreFiles⟩ else .error 5
  found _ := none
  target _ _ := some (ascii "C:/t")
  links _ := .error 5

theorem junctionFs_stream {n path : Wide} {follow : Bool} {bufsz : Nat} {s : DirStream}
    (answered : (junctionFs n).stream path follow bufsz = .ok s) :
    path = walkRoot ∧ s.entries = [⟨n, true, true, tagMountPoint⟩] := by
  by_cases isRoot : path = walkRoot
  · have answer := (if_pos isRoot).symm.trans answered
    obtain rfl := Except.ok.inj answer
    exact ⟨isRoot, rfl⟩
  · cases (if_neg isRoot).symm.trans answered

theorem junctionFs_static {n : Wide} (named : DirsName n) (below : dirsJoin walkRoot n ≠ walkRoot) :
    (junctionFs n).Static false walkRoot none where
  rooted := walkRoot_rooted
  streams path follow bufsz s answered := by
    obtain ⟨rfl, entries⟩ := junctionFs_stream answered
    refine ⟨?_, ?_, ?_, ?_⟩
    · rw [entries]
      exact List.forall_mem_singleton.mpr fun _ => named
    · rw [entries]
      exact List.forall_mem_singleton.mpr fun file => Bool.noConfusion file
    · rw [entries]
      exact (List.nodup_singleton n).sublist (List.filter_sublist.map _)
    · rw [entries]
      refine List.forall_mem_singleton.mpr fun _ info told _ _ => ⟨rfl, ?_⟩
      obtain rfl := Except.ok.inj told
      rw [if_neg below]
  isName _ member := by cases member
  root info told := by
    obtain rfl := Except.ok.inj told
    rfl
  found _ told := by cases told
  finite := by
    refine .intro _ fun child below' => .intro _ fun other deeper => ?_
    obtain ⟨_, _, _, e, answered, member, -, rfl⟩ := below'
    obtain ⟨_, _, _, _, again, -⟩ := deeper
    rw [(junctionFs_stream answered).2, List.mem_singleton] at member
    subst member
    exact absurd (junctionFs_stream again).1 below

def linksOptions : DirsOptions := ⟨.links, none, [], true, false, fun _ => [], fun _ _ => false⟩

theorem junctionFs_opens (n : Wide) : (junctionFs n).Opens walkRoot := ⟨rfl, _, rfl, rfl⟩

theorem junctionFs_a : (junctionFs [0x61]).Static false walkRoot none :=
  junctionFs_static ⟨by decide, by decide, by decide, by decide⟩ (by decide)

theorem dirsCore_inventories_sample :
    ∃ w order, (dirsHost (junctionFs [0x61])).Yields (dirsCore linksOptions walkRoot) (fun _ => ([], 0)) (.ok w) ∧
      DepthFirst ((junctionFs [0x61]).kids linksOptions) [(junctionFs [0x61]).root walkRoot] order ∧
      (junctionFs [0x61]).Inventories linksOptions walkRoot none w order :=
  dirsCore_inventories rfl junctionFs_a (junctionFs_opens _) _

/-- A root that is a junction, which no query tells. -/
def hiddenFs : DirsFs where
  opened _ follow := if follow then none else some 5
  attributes _ follow := if follow then .ok ⟨true, false, 0⟩ else .error 5
  stream _ _ _ := .error errorNoMoreFiles
  found _ := none
  target _ _ := none
  links _ := .error 5

theorem hiddenFs_static : hiddenFs.Static false walkRoot (some tagMountPoint) where
  rooted := walkRoot_rooted
  streams _ _ _ _ answered := by cases answered
  isName _ member := by
    obtain rfl := Option.some.inj member
    decide
  root _ told := by cases told
  found _ told := by cases told
  finite := by
    refine .intro _ fun _ child => ?_
    obtain ⟨_, _, _, _, answered, -⟩ := child
    cases answered

theorem junctionFs_unpaired : (junctionFs [0xD800]).Static false walkRoot none :=
  junctionFs_static ⟨by decide, by decide, by decide, by decide⟩ (by decide)

/-- A junction whose name is not converted has no row, nor has a root that
no query classifies. -/
theorem dirsCore_unlisted :
    ((junctionFs [0xD800]).Static false walkRoot none ∧ (junctionFs [0xD800]).Opens walkRoot ∧
      ∃ w order, (dirsHost (junctionFs [0xD800])).Yields (dirsCore linksOptions walkRoot)
        (fun _ => ([], 0)) (.ok w) ∧
        DepthFirst ((junctionFs [0xD800]).kids linksOptions) [(junctionFs [0xD800]).root walkRoot] order ∧
        ((junctionFs [0xD800]).mets linksOptions order).countP DirsMet.isName = 1 ∧ w.entries = []) ∧
    hiddenFs.Static false walkRoot (some tagMountPoint) ∧ hiddenFs.Opens walkRoot ∧
      ∃ w, (dirsHost hiddenFs).Yields (dirsCore linksOptions walkRoot) (fun _ => ([], 0))
        (.ok w) ∧ w.entries = [] := by
  have opens : hiddenFs.Opens walkRoot := ⟨rfl, _, rfl, rfl⟩
  have walk : DepthFirst ((junctionFs [0xD800]).kids linksOptions) [(junctionFs [0xD800]).root walkRoot]
      [(junctionFs [0xD800]).root walkRoot] := @DepthFirst.cons _ _ _ [] [] [] .nil .nil
  have walk' : DepthFirst (hiddenFs.kids linksOptions) [hiddenFs.root walkRoot] [hiddenFs.root walkRoot] :=
    @DepthFirst.cons _ _ _ [] [] [] .nil .nil
  exact ⟨⟨junctionFs_unpaired, junctionFs_opens _, _, _,
      dirsHost_yields (dirsCore_reaches _ (junctionFs_opens _) walk _), walk, rfl, rfl⟩,
    hiddenFs_static, opens, _, dirsHost_yields (dirsCore_reaches _ opens walk' _), rfl⟩

end Machteld
