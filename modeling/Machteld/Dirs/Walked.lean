import Machteld.Dirs.Account

namespace Machteld

/-- What explains that a listed directory is not entered. -/
inductive DirsReason
  | depthlimited
  | pruned
  | nofollow
  | error
deriving DecidableEq

section

variable (fs : DirsFs) (o : DirsOptions)

/-- An explanation in a result: a count or a row. -/
def DirsFs.Explains (w : DirsWalk) (rows : List DirsErrRow) (it : DirsItem) : DirsReason → Prop
  | .depthlimited => fs.meets o .depthlimited it = true
  | .pruned => fs.meets o .pruned it = true
  | .nofollow => ∃ row ∈ w.links, row.action = .nofollow ∧ dirsStrip o.unc it.path = some row.path
  | .error => ∃ row ∈ rows, dirsStrip o.unc it.path = some row.path

/-- What a walk says about a tree: the directories in their order, and why
some of them are not entered. -/
structure DirsFs.Accounts (root : DirsItem) (w : DirsWalk) (rows : List DirsErrRow)
    (order : List DirsItem) : Prop where
  preorder : DepthFirst (fs.kids o) [root] order
  reached : ∀ it, it ∈ order ↔ Relation.ReflTransGen (fun parent kid => kid ∈ fs.kids o parent) root it
  entered : ∀ it ∈ order, fs.meets o .descended it = true → ∃ follow es, fs.listing it.path follow =
    .ok (es, (fs.report o it).errors) ∧
    ((fs.kids o it).map DirsItem.path).Perm ((es.filter DirEntry.subdirectory).map fun e => dirsJoin it.path e.name)
  others : ∀ it ∈ order, fs.meets o .descended it = false → fs.kids o it = []
  siblings : ∀ it ∈ order, (fs.report o it).kids.Pairwise fun a b =>
    compare (codePoints a.wname) (codePoints b.wname) = .lt
  paths : w.paths.map some = order.map fun it => dirsStrip o.unc it.path
  once : w.paths.Nodup
  dirs : w.count = w.paths.length
  depthlimited : w.depthlimited = order.countP (fs.meets o .depthlimited)
  pruned : w.pruned = order.countP (fs.meets o .pruned)
  explained : ∀ it ∈ order,
    (fs.meets o .descended it = false ∨ (fs.report o it).errors ≠ []) ↔ ∃! reason, fs.Explains o w rows it reason
  partly : ∀ it ∈ order, fs.meets o .descended it = true → (fs.report o it).errors ≠ [] →
    fs.Explains o w rows it .error
  whole : ∀ it ∈ order, fs.meets o .descended it = true → (fs.report o it).errors = [] →
    ∀ reason, ¬ fs.Explains o w rows it reason

end

section

variable {fs : DirsFs} {o : DirsOptions} {rootw : Wide}

/-- The one reason of a report. -/
def DirsReport.reason (r : DirsReport) : Option DirsReason :=
  match r.action with
  | .depthlimited => some .depthlimited
  | .pruned => some .pruned
  | .nofollow => some .nofollow
  | .failed => some .error
  | .descended => if r.errors = [] then none else some .error

/-- The action of a visit is the reason that the file system has for it. -/
theorem DirsReport.Sound.reason_iff {path : Wide} {r : DirsReport} (sound : r.Sound fs o path) :
    (r.action = .depthlimited ↔ r.reason = some .depthlimited) ∧ (r.action = .pruned ↔ r.reason = some .pruned) ∧
      (r.action = .nofollow ∧ r.item.reparse = true ↔ r.reason = some .nofollow) ∧
      (r.errors ≠ [] ↔ r.reason = some .error) := by
  cases sound with
  | counted why => rcases why with rfl | rfl <;> simp [DirsReport.reason]
  | nofollow reparse => simp [DirsReport.reason, reparse]
  | failed rows => simp [DirsReport.reason, rows]
  | @descended _ _ es errors _ =>
    generalize errors ++ List.replicate (dirsBad o es) errorNoUnicodeTranslation = all
    by_cases none : all = [] <;> simp [DirsReport.reason, none]

theorem DirsReport.reason_isSome {r : DirsReport} :
    r.reason.isSome = true ↔ r.action ≠ .descended ∨ r.errors ≠ [] := by
  unfold DirsReport.reason
  cases r.action
  case descended => by_cases none : r.errors = [] <;> simp [none]
  all_goals simp

/-- Where the paths are all different, the rows are the ones of the
directory itself. -/
theorem DirsFs.explains_iff {order : List DirsItem} {w : DirsWalk} {rows : List DirsErrRow}
    (rooted : DirsRooted o.unc rootw) (listed : ∀ it ∈ order, it.Listed rootw)
    (distinct : (order.map fun it => dirsStrip o.unc it.path).Nodup)
    (links : w.links = order.flatMap (fs.linkRows o))
    (errors : rows = order.flatMap (fs.errRows o)) {it : DirsItem} (member : it ∈ order) (reason : DirsReason) :
    fs.Explains o w rows it reason ↔ (fs.report o it).reason = some reason := by
  obtain ⟨depthlimited, pruned, nofollow, error⟩ := (fs.report_sound (o := o) (listed it member).marked).reason_iff
  obtain ⟨shown, spelled⟩ := dirsStrip_isSome rooted (listed it member).spelled
  have own : ∀ it' ∈ order, (dirsStrip o.unc it'.path).getD [] = shown → it' = it := by
    intro it' member' same
    obtain ⟨shown', spelled'⟩ := dirsStrip_isSome rooted (listed it' member').spelled
    rw [spelled', Option.getD_some] at same
    exact List.inj_on_of_nodup_map distinct member' member (spelled'.trans (same ▸ spelled.symm))
  cases reason with
  | depthlimited => exact decide_eq_true_iff.trans depthlimited
  | pruned => exact decide_eq_true_iff.trans pruned
  | nofollow =>
    rw [← nofollow, DirsFs.Explains, links, spelled]
    constructor
    · rintro ⟨row, inLinks, action, path⟩
      obtain ⟨it', member', isRow⟩ := List.mem_flatMap.mp inLinks
      rw [DirsFs.linkRows] at isRow
      split at isRow
      · rename_i reparse
        obtain rfl := List.mem_singleton.mp isRow
        obtain rfl := own it' member' (Option.some.inj path).symm
        exact ⟨action, reparse⟩
      · cases isRow
    · rintro ⟨action, reparse⟩
      refine ⟨(fs.report o it).row (dirsStrip o.unc it.path), List.mem_flatMap.mpr ⟨it, member, ?_⟩, action, ?_⟩
      · rw [DirsFs.linkRows, if_pos reparse]
        exact List.mem_singleton_self _
      · rw [DirsReport.row, spelled]
        rfl
  | error =>
    rw [← error, DirsFs.Explains, errors, spelled]
    constructor
    · rintro ⟨row, inRows, path⟩ none
      obtain ⟨it', member', isRow⟩ := List.mem_flatMap.mp inRows
      obtain ⟨e, isError, rfl⟩ := List.mem_map.mp isRow
      obtain rfl := own it' member' (Option.some.inj path).symm
      rw [none] at isError
      cases isError
    · intro some
      obtain ⟨e, isError⟩ := List.exists_mem_of_ne_nil _ some
      refine ⟨_, List.mem_flatMap.mpr ⟨it, member, List.mem_map_of_mem isError⟩, ?_⟩
      rw [spelled]
      rfl

theorem DirsFs.root_listed (fs : DirsFs) (rootw : Wide) : (fs.root rootw).Listed rootw :=
  ⟨Spelled.root rootw, fun isName => (Bool.and_eq_true_iff.mp isName).1⟩

/-- The tree of the items is finite where the one of the directories is. -/
theorem DirsFs.Bounded.accessible (bounded : fs.Bounded o.unc rootw) {path : Wide}
    (finite : Acc (fun child path => fs.Child path child) path) :
    ∀ it : DirsItem, it.path = path → it.Listed rootw → Acc (fun kid it => kid ∈ fs.kids o it) it := by
  induction finite with
  | intro path _ ih =>
    intro it same listed
    refine .intro it fun kid member => ?_
    obtain ⟨kidListed, child, -⟩ := bounded.kid listed member
    exact ih kid.path (same ▸ child) kid rfl kidListed

theorem DirsFs.Bounded.order (bounded : fs.Bounded o.unc rootw) :
    ∃ order, DepthFirst (fs.kids o) [fs.root rootw] order :=
  DepthFirst.exists_of_finite
    (List.forall_mem_singleton.mpr (bounded.accessible bounded.finite (fs.root rootw) rfl (fs.root_listed rootw)))

theorem DirsFs.Bounded.listed_all (bounded : fs.Bounded o.unc rootw) {order : List DirsItem}
    (walk : DepthFirst (fs.kids o) [fs.root rootw] order) : ∀ it ∈ order, it.Listed rootw :=
  walk.all (List.forall_mem_singleton.mpr (fs.root_listed rootw)) fun _ listed _ member =>
    (bounded.kid listed member).1

/-- The directories of a walk have names of their own. -/
theorem DirsFs.Bounded.keys_nodup (bounded : fs.Bounded o.unc rootw) {order : List DirsItem}
    (walk : DepthFirst (fs.kids o) [fs.root rootw] order) :
    (order.map fun it => namesBelow rootw it.path).Nodup := by
  have handed : ∀ it : DirsItem, it.Listed rootw → ∀ kid ∈ fs.kids o it, kid.Listed rootw :=
    fun _ listed _ member => (bounded.kid listed member).1
  have longer : ∀ it : DirsItem, it.Listed rootw → ∀ kid ∈ fs.kids o it,
      ∃ n, namesBelow rootw kid.path = namesBelow rootw it.path ++ [n] :=
    fun _ listed _ member => (bounded.kid listed member).2.2
  exact walk.keys_nodup handed longer (fun _ listed => bounded.siblings listed)
    (List.forall_mem_singleton.mpr (fs.root_listed rootw)) (List.forall_mem_singleton.mpr rfl)
      (List.nodup_singleton _)

theorem DirsFs.Bounded.distinct_all (bounded : fs.Bounded o.unc rootw) {order : List DirsItem}
    (walk : DepthFirst (fs.kids o) [fs.root rootw] order) :
    (order.map fun it => dirsStrip o.unc it.path).Nodup := by
  have listed := bounded.listed_all walk
  refine List.pairwise_map.mpr ((List.pairwise_map.mp (bounded.keys_nodup walk)).imp_of_mem
    fun member member' apart same => apart ?_)
  rw [dirsStrip_injective bounded.rooted (listed _ member).spelled (listed _ member').spelled same]

/-- A directory that was entered was listed, and its children are its
subdirectories, each once, in the order of their code points. -/
theorem DirsFs.Proper.entered (proper : fs.Proper o.unc rootw) {it : DirsItem} (listed : it.Listed rootw)
    (descended : fs.meets o .descended it = true) :
    ∃ follow es, fs.listing it.path follow = .ok (es, (fs.report o it).errors) ∧
      ((fs.kids o it).map DirsItem.path).Perm ((es.filter DirEntry.subdirectory).map fun e =>
        dirsJoin it.path e.name) ∧
      (fs.report o it).kids.Pairwise fun a b => compare (codePoints a.wname) (codePoints b.wname) = .lt := by
  have path := fs.report_path o it
  have sound := fs.report_sound (o := o) listed.marked
  have action := decide_eq_true_iff.mp descended
  unfold DirsFs.kids
  generalize fs.report o it = r at path sound action
  cases sound with
  | counted why => rcases why with rfl | rfl <;> cases action
  | nofollow _ => cases action
  | failed _ => cases action
  | @descended item follow es errors isListed =>
    obtain ⟨named, apart⟩ := proper.listed isListed
    obtain ⟨kids, names, none⟩ := dirsKids_named (o := o) fun e inside isSub =>
      ⟨(named e inside isSub).1, (named e inside isSub).2.1⟩
    refine ⟨follow, es, ?_, ?_, dirsKids_sorted kids (names ▸ apart)⟩
    · rw [none, List.replicate_zero, List.append_nil]
      exact isListed
    · have perm := List.perm_insertionSort (fun x y => dirsNamecmp x y = true) (dirsKids o es)
      refine ((perm.map (·.item item)).map DirsItem.path).trans (List.Perm.of_eq ?_)
      have joined : (es.filter DirEntry.subdirectory).map (fun e => dirsJoin it.path e.name) =
          ((es.filter DirEntry.subdirectory).map DirEntry.name).map (dirsJoin it.path) := by rw [List.map_map]; rfl
      rw [joined, ← names, List.map_map, List.map_map]
      refine List.map_congr_left fun k _ => ?_
      rw [Function.comp, Function.comp, DirsChild.item, path]

/-- A directory that was not entered has no children in the walk. -/
theorem DirsFs.kids_others {it : DirsItem} (listed : it.Listed rootw) (other : fs.meets o .descended it = false) :
    (fs.report o it).kids = [] := by
  have sound := fs.report_sound (o := o) listed.marked
  have action := decide_eq_false_iff_not.mp other
  generalize fs.report o it = r at sound action
  cases sound with
  | descended _ => exact absurd rfl action
  | counted _ => rfl
  | nofollow _ => rfl
  | failed _ => rfl

/-- The tally of the pre-order accounts for the tree. -/
theorem DirsFs.Proper.accounts (proper : fs.Proper o.unc rootw) (dirs : o.mode = .dirs) {order : List DirsItem}
    (walk : DepthFirst (fs.kids o) [fs.root rootw] order) :
    ∃ rows, (order.foldl (fs.note o) (fs.rootWalk o rootw)).errors = (fs.rootWalk o rootw).errors ++ rows ∧
      fs.Accounts o (fs.root rootw) (order.foldl (fs.note o) (fs.rootWalk o rootw)) rows order := by
  have listed := proper.bounded.listed_all walk
  have distinct := proper.bounded.distinct_all walk
  have start : (fs.rootWalk o rootw).paths = [] ∧ (fs.rootWalk o rootw).links = [] ∧
    (fs.rootWalk o rootw).count = 0 ∧
      (fs.rootWalk o rootw).pruned = 0 ∧ (fs.rootWalk o rootw).depthlimited = 0 := by
    unfold DirsFs.rootWalk
    cases (fs.rootTag rootw).2 <;> exact ⟨rfl, rfl, rfl, rfl, rfl⟩
  have noted := fs.notes_dirs dirs proper.rooted listed (fs.rootWalk o rootw)
  generalize order.foldl (fs.note o) (fs.rootWalk o rootw) = w at noted
  have links : w.links = order.flatMap (fs.linkRows o) := by rw [noted, start.2.1, List.nil_append]
  have paths : w.paths = order.map fun it => (dirsStrip o.unc it.path).getD [] := by
    rw [noted, start.1, List.nil_append]
  have shown : w.paths.map some = order.map fun it => dirsStrip o.unc it.path := by
    rw [paths, List.map_map]
    refine List.map_congr_left fun it member => ?_
    obtain ⟨s, spelled⟩ := dirsStrip_isSome proper.rooted (listed it member).spelled
    rw [Function.comp, spelled, Option.getD_some]
  have reasons := fun it (member : it ∈ order) => fs.explains_iff proper.rooted listed distinct links rfl member
  refine ⟨_, congrArg DirsWalk.errors noted, ?_⟩
  constructor
  · exact walk
  · exact fun it => by simpa only [List.mem_singleton, exists_eq_left] using walk.mem_iff
  · intro it member descended
    obtain ⟨follow, es, isListed, perm, -⟩ := proper.entered (listed it member) descended
    exact ⟨follow, es, isListed, perm⟩
  · intro it member other
    rw [DirsFs.kids, fs.kids_others (listed it member) other, List.map_nil]
  · intro it member
    cases descended : fs.meets o .descended it with
    | true =>
      obtain ⟨_, _, -, -, sorted⟩ := proper.entered (listed it member) descended
      exact sorted
    | false =>
      rw [fs.kids_others (listed it member) descended]
      exact .nil
  · exact shown
  · exact List.Nodup.of_map some (shown ▸ distinct)
  · rw [paths, List.length_map, noted, start.2.2.1, Nat.zero_add]
  · rw [noted, start.2.2.2.2, Nat.zero_add]
  · rw [noted, start.2.2.2.1, Nat.zero_add]
  · intro it member
    have decided : (fs.meets o .descended it = false ∨ (fs.report o it).errors ≠ []) ↔
      (fs.report o it).reason.isSome = true := by
      rw [DirsReport.reason_isSome, DirsFs.meets, decide_eq_false_iff_not]
    rw [decided, Option.isSome_iff_exists]
    simp only [reasons it member]
    constructor
    · rintro ⟨reason, is⟩
      exact ⟨reason, is, fun other isOther => Option.some.inj (isOther.symm.trans is)⟩
    · rintro ⟨reason, is, -⟩
      exact ⟨reason, is⟩
  · intro it member descended some
    rw [reasons it member, DirsReport.reason, decide_eq_true_iff.mp descended]
    exact if_neg some
  · intro it member descended none reason
    rw [reasons it member, DirsReport.reason, decide_eq_true_iff.mp descended]
    simp only [none, if_true, reduceCtorEq, not_false_eq_true]

theorem dirsHost_yields {α : Type} {p : DirsProg (Wide × Bool) α} {v : DirsPending} {a : α}
    (run : ∃ u, (dirsHost fs).Reaches p v (.done a) u) : (dirsHost fs).Yields p v a := by
  obtain ⟨u, run⟩ := run
  exact run.yields Empty.elim fun _ _ _ _ => rfl

/-- The walk of a finite tree that nobody changes, in both modes. Apart from
the row of a root that cannot be classified, its result accounts for the
tree. -/
theorem dirsCore_accounts (dirs : o.mode = .dirs) (proper : fs.Proper o.unc rootw) (opens : fs.Opens rootw)
    (v : DirsPending) :
    ∃ w rows order, (dirsHost fs).Yields (dirsCore o rootw) v (.ok w) ∧
      w.errors = (fs.rootWalk o rootw).errors ++ rows ∧ fs.Accounts o (fs.root rootw) w rows order ∧
      ∀ hardlinks, ∃ w', (dirsHost fs).Yields (dirsCore { o with mode := .links, hardlinks := hardlinks } rootw) v
        (.ok w') ∧
        w'.count = w.count ∧ w'.pruned = w.pruned ∧ w'.depthlimited = w.depthlimited ∧
          w'.maxdepth = w.maxdepth := by
  obtain ⟨order, walk⟩ := proper.bounded.order
  obtain ⟨rows, errors, accounts⟩ := proper.accounts dirs walk
  have listed := proper.bounded.listed_all walk
  refine ⟨_, rows, order, dirsHost_yields (dirsCore_reaches o opens walk v), errors, accounts, fun hardlinks => ?_⟩
  have other := dirsHost_yields (dirsCore_reaches { o with mode := .links, hardlinks := hardlinks } opens walk v)
  have here := fs.notes_numbers proper.rooted listed (fs.rootWalk o rootw)
  have there := @DirsFs.notes_numbers { o with mode := .links, hardlinks := hardlinks } fs rootw
    proper.rooted _ listed
    (fs.rootWalk { o with mode := .links, hardlinks := hardlinks } rootw)
  have begun : (fs.rootWalk { o with mode := .links, hardlinks := hardlinks } rootw) = fs.rootWalk o rootw := rfl
  have same := there.trans (begun ▸ here.symm)
  simp only [DirsWalk.numbers, Prod.mk.injEq] at same
  exact ⟨_, other, same⟩

end

/-- The root `C:\r`, as it is prefixed. -/
def walkRoot : Wide := [0x5C, 0x5C, 0x3F, 0x5C, 0x43, 0x3A, 0x5C, 0x72]

theorem walkRoot_rooted : DirsRooted false walkRoot := ⟨by decide, by decide⟩

/-- A root with one directory, which cannot be opened. -/
def deniedFs : DirsFs where
  opened path _ := if path = walkRoot then none else some 5
  attributes _ _ := .ok ⟨true, false, 0⟩
  stream path _ _ :=
    if path = walkRoot then .ok ⟨⟨[⟨[0x61], true, false, 0⟩], false⟩, [], errorNoMoreFiles⟩ else .error 5
  found _ := none
  target _ _ := none
  links _ := .error 5

theorem deniedFs_stream {path : Wide} {follow : Bool} {bufsz : Nat} {s : DirStream}
    (answered : deniedFs.stream path follow bufsz = .ok s) :
    path = walkRoot ∧ s.entries = [⟨[0x61], true, false, 0⟩] := by
  by_cases isRoot : path = walkRoot
  · have answer := (if_pos isRoot).symm.trans answered
    obtain rfl := Except.ok.inj answer
    exact ⟨isRoot, rfl⟩
  · cases (if_neg isRoot).symm.trans answered

theorem deniedFs_proper : deniedFs.Proper false walkRoot where
  rooted := walkRoot_rooted
  named path follow bufsz s answered e member _ := by
    rw [(deniedFs_stream answered).2, List.mem_singleton] at member
    subst member
    exact ⟨⟨by decide, by decide, by decide, by decide⟩, rfl⟩
  distinct path follow bufsz s answered := by
    rw [(deniedFs_stream answered).2]
    exact List.nodup_singleton _
  finite := by
    refine .intro _ fun child below => .intro _ fun other deeper => ?_
    obtain ⟨_, _, _, e, answered, member, -, rfl⟩ := below
    obtain ⟨_, _, _, _, again, -⟩ := deeper
    rw [(deniedFs_stream answered).2, List.mem_singleton] at member
    subst member
    exact absurd (deniedFs_stream again).1 (by decide)

def walkOptions (depthcap : Option Nat) : DirsOptions :=
  ⟨.dirs, depthcap, [], false, false, fun _ => [], fun _ _ => false⟩

theorem dirsCore_accounts_sample :
    ∃ w rows order, (dirsHost deniedFs).Yields (dirsCore (walkOptions none) walkRoot) (fun _ => ([], 0)) (.ok w) ∧
      w.errors = (deniedFs.rootWalk (walkOptions none) walkRoot).errors ++ rows ∧
      deniedFs.Accounts (walkOptions none) (deniedFs.root walkRoot) w rows order ∧
      ∀ hardlinks, ∃ w', (dirsHost deniedFs).Yields
        (dirsCore { walkOptions none with mode := .links, hardlinks := hardlinks } walkRoot)
        (fun _ => ([], 0)) (.ok w') ∧
        w'.count = w.count ∧ w'.pruned = w.pruned ∧ w'.depthlimited = w.depthlimited ∧ w'.maxdepth = w.maxdepth :=
  dirsCore_accounts rfl deniedFs_proper ⟨rfl, _, rfl, rfl⟩ _

/-- An empty root whose own handle is refused. -/
def unclassifiedFs : DirsFs where
  opened _ follow := if follow then none else some 5
  attributes _ _ := .ok ⟨true, false, 0⟩
  stream _ _ _ := .error errorNoMoreFiles
  found _ := none
  target _ _ := none
  links _ := .error 5

theorem unclassifiedFs_proper : unclassifiedFs.Proper false walkRoot where
  rooted := walkRoot_rooted
  named _ _ _ _ answered := by cases answered
  distinct _ _ _ _ answered := by cases answered
  finite := by
    refine .intro _ fun _ child => ?_
    obtain ⟨_, _, _, _, answered, -⟩ := child
    cases answered

/-- A root that is not entered for its depth and has the row of its
classification too. -/
theorem dirsCore_explained_twice :
    unclassifiedFs.Proper false walkRoot ∧ unclassifiedFs.Opens walkRoot ∧
      ∃ w order, (dirsHost unclassifiedFs).Yields (dirsCore (walkOptions (some 0)) walkRoot)
        (fun _ => ([], 0)) (.ok w) ∧
        DepthFirst (unclassifiedFs.kids (walkOptions (some 0))) [unclassifiedFs.root walkRoot] order ∧
        ¬ ∀ it ∈ order, (unclassifiedFs.meets (walkOptions (some 0)) .descended it = false ∨
            (unclassifiedFs.report (walkOptions (some 0)) it).errors ≠ []) ↔
          ∃! reason, unclassifiedFs.Explains (walkOptions (some 0)) w w.errors it reason := by
  have opens : unclassifiedFs.Opens walkRoot := ⟨rfl, _, rfl, rfl⟩
  have walk : DepthFirst (unclassifiedFs.kids (walkOptions (some 0))) [unclassifiedFs.root walkRoot]
      [unclassifiedFs.root walkRoot] :=
    @DepthFirst.cons _ _ _ [] [] [] .nil .nil
  refine ⟨unclassifiedFs_proper, opens, _, _, dirsHost_yields (dirsCore_reaches _ opens walk _), walk,
    fun claim => ?_⟩
  obtain ⟨reason, -, only⟩ := (claim _ List.mem_cons_self).mp (.inl rfl)
  have first := only .depthlimited rfl
  have second := only .error ⟨_, List.mem_cons_self, rfl⟩
  cases first.trans second.symm

end Machteld
