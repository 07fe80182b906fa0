import Machteld.Dirs.Volume

namespace Machteld

section

variable {H : Type} {held : H → Prop} (o : DirsOptions)

theorem dirsOpen_uses (path : Wide) (follow : Bool) : (dirsOpen path follow).Only (DirsCall.Uses held) :=
  Prog.Only.ask trivial

theorem attributeTagInfo_uses (h : H) : (attributeTagInfo h).Only (DirsCall.Uses held) := Prog.Only.ask trivial

theorem closeHandle_uses (h : H) : (closeHandle h).Only (DirsCall.Uses held) := Prog.Only.ask trivial

theorem linksRecord_uses (w : DirsWalk) (full : Wide) (shown : Option Bytes) (tag : UInt32) (isdir : Bool) :
    (linksRecord o w full shown tag isdir).Only (DirsCall.Uses held) :=
  Prog.Only.bind (Prog.Only.ask trivial) fun _ => trivial

/-- The calls for a file use only handles that are held. -/
theorem dirsFile_uses (it : DirsItem) (w : DirsWalk) (e : DirEntry) :
    (dirsFile o it w e).Only (DirsCall.Uses held) := by
  unfold dirsFile
  split
  · trivial
  · split
    · trivial
    · split
      · split
        · exact linksRecord_uses o _ _ _ _ _
        · trivial
      · split
        · have count : (linksNlinks (dirsJoin it.path e.name)).Only (DirsCall.Uses held) :=
            ⟨trivial, fun _ => trivial⟩
          refine Prog.Only.bind count fun answer => ?_
          cases answer <;> trivial
        · trivial

theorem dirsEntry_uses (it : DirsItem) (s : DirsScan) (e : DirEntry) :
    (dirsEntry o it s e).Only (DirsCall.Uses held) := by
  unfold dirsEntry
  split
  · split
    · trivial
    · split <;> trivial
  · exact Prog.Only.bind (dirsFile_uses o it s.walk e) fun _ => trivial

theorem dirsEntries_uses (it : DirsItem) (s : DirsScan) (es : List DirEntry) :
    (dirsEntries o it s es).Only (DirsCall.Uses held) := by
  induction es generalizing s with
  | nil => trivial
  | cons e es ih => exact Prog.Only.bind (dirsEntry_uses o it s e) ih

/-- The calls for a listing use only the handle of the directory. -/
theorem dirsRestart_uses {h : H} (mine : held h) (doublings bufsz : Nat) :
    (dirsRestart h doublings bufsz).Only (DirsCall.Uses held) := by
  induction doublings generalizing bufsz with
  | zero => exact Prog.Only.bind (Prog.Only.ask mine) fun _ => trivial
  | succ k ih =>
    refine Prog.Only.bind (Prog.Only.ask mine) fun answer => ?_
    cases answer with
    | ok batch => trivial
    | error e =>
      dsimp only
      split
      · exact ih (bufsz * 2)
      · trivial

theorem dirsBatchTurn_uses {h : H} (mine : held h) (it : DirsItem) (bufsz : Nat) (s : DirsScan × DirBatch) :
    (dirsBatchTurn o it h bufsz s).Only (DirsCall.Uses held) := by
  refine Prog.Only.bind (dirsEntries_uses o it s.1 s.2.entries) fun scan => ?_
  split
  · trivial
  · refine Prog.Only.bind (Prog.Only.ask mine) fun answer => ?_
    cases answer <;> trivial

theorem dirsChildren_uses {h : H} (mine : held h) (w : DirsWalk) (it : DirsItem) :
    (dirsChildren o w h it).Only (DirsCall.Uses held) := by
  refine Prog.Only.bind (dirsRestart_uses mine 8 65536) fun answer => ?_
  obtain ⟨first, bufsz⟩ := answer
  cases first with
  | error e =>
    dsimp only
    split <;> trivial
  | ok batch => exact Prog.Only.bind (Prog.Only.iterate (dirsBatchTurn_uses o mine it bufsz)) fun _ => trivial

theorem dirsDisclose_uses (v : DirsVisit) (shown : Option Bytes) :
    (dirsDisclose o v shown).Only (DirsCall.Uses held) := by
  unfold dirsDisclose
  dsimp only
  split
  · split
    · trivial
    · split
      · exact linksRecord_uses o _ _ _ _ _
      · trivial
  · trivial

theorem dirsRootTag_uses (rootw : Wide) : (dirsRootTag rootw).Only (@DirsCall.Uses H held) := by
  refine Prog.Only.bind (dirsOpen_uses rootw false) fun opened => ?_
  cases opened with
  | error e => trivial
  | ok h =>
    refine Prog.Only.bind (attributeTagInfo_uses h) fun answer => Prog.Only.bind (closeHandle_uses h) fun _ => ?_
    cases answer <;> trivial

theorem dirsRootScanned_uses (rootw : Wide) (raw : Option UInt32) :
    (dirsRootScanned rootw raw).Only (@DirsCall.Uses H held) := by
  cases raw with
  | some tag => trivial
  | none =>
    refine Prog.Only.bind (Prog.Only.ask trivial) fun found => ?_
    cases found <;> trivial

end

/-- The host whose paths are opened themselves only with no link on the way.
-/
abbrev unswappedHost (root : Nat) (rootw : Wide) : Host (DirsCall DirsHandle) DirsCall.Answer :=
  (swapHost root rootw).only (unswapped root rootw)

section

variable (o : DirsOptions) {root : Nat} {rootw : Wide} {start : DirsObjects}

theorem DirsVolume.Kept.stable (m : DirsSwap) (w v : DirsVolume) (kept : w.Kept start root)
    (moved : (unswappedHost root rootw).move m w = some v) : v.Kept start root := kept.swap moved

/-- A part that enumerates nothing. -/
theorem DirsVolume.Kept.only {α β : Type} {p : DirsProg DirsHandle α} {f : α → DirsProg DirsHandle β}
    {post : β → DirsVolume → Prop} {v : DirsVolume} (kept : v.Kept start root)
    (uses : p.Only (DirsCall.Uses fun _ => False))
    (next : ∀ a u, u.Kept start root → (unswappedHost root rootw).Ensures (·.Kept start root) (f a) post u) :
    (unswappedHost root rootw).Ensures (·.Kept start root) (p >>= f) post v := by
  refine Host.Ensures.bind ((Host.Ensures.only (DirsVolume.Kept.stable)
    (fun _ kept => kept) ?_ uses kept).mono next)
  intro c outcome a w u meets kept acted
  exact kept.act meets (fun _ absurd => absurd.elim) (DirsVolume.act_acted (Host.only_act.mp acted).2)

/-- A part that enumerates a handle only. -/
theorem DirsVolume.Kept.handle {α : Type} {p : DirsProg DirsHandle α} {v : DirsVolume} {h : DirsHandle}
    (kept : v.Kept start root) (held : v.Held start root h) (uses : p.Only (DirsCall.Uses fun h' => h' = h)) :
    (unswappedHost root rootw).Ensures (·.Kept start root) p (fun _ u => u.Kept start root) v := by
  refine (Host.Ensures.only (I := fun w : DirsVolume => w.Kept start root ∧ w.Held start root h) ?_
    (fun _ both => both.1) ?_ uses
    ⟨kept, held⟩).mono fun _ _ both => both.1
  · intro m w u both moved
    exact ⟨both.1.swap moved, both.2.later (DirsVolume.swap_before moved)⟩
  · intro c outcome a w u meets both acted
    have acts := DirsVolume.act_acted (Host.only_act.mp acted).2
    exact ⟨both.1.act meets (fun _ same => same ▸ both.2) acts, both.2.later acts.before⟩

/-- An open of a path below the root that does not follow links stays inside
the tree, unless a name above it was replaced. -/
theorem dirsOpen_raw {β : Type} {path : Wide} {f : Except Nat DirsHandle → DirsProg DirsHandle β}
    {post : β → DirsVolume → Prop} {v : DirsVolume} (beneath : Beneath rootw path) (kept : v.Kept start root)
    (next : ∀ answer u, u.Kept start root →
      (∀ h, answer = .ok h → h.path = path ∧ h.follow = false ∧ u.Held start root h) →
      (unswappedHost root rootw).Ensures (·.Kept start root) (f answer) post u) :
    (unswappedHost root rootw).Ensures (·.Kept start root) (dirsOpen path false >>= f) post v := by
  refine Host.Ensures.ask DirsVolume.Kept.stable (fun _ kept => kept) kept fun outcome answer w u kept acted => ?_
  obtain ⟨clear, acted⟩ := Host.only_act.mp acted
  have acts := DirsVolume.act_acted acted
  refine next answer u (kept.other acts trivial) ?_
  rintro h rfl
  obtain ⟨samePath, sameFollow, way⟩ := DirsVolume.act_createFile acted
  obtain ⟨parts, found⟩ := beneath.parts
  have unlinked : w.objects.unlinked root parts = true := by
    simpa only [unswapped, found, Option.all_some] using clear
  exact ⟨samePath, sameFollow, .inr (acts.objects ▸ kept.confined.resolve .refl unlinked (way parts found))⟩

/-- The root is followed, and where it leads is where the tree begins. -/
theorem dirsOpen_root {β : Type} {f : Except Nat DirsHandle → DirsProg DirsHandle β}
    {post : β → DirsVolume → Prop} {v : DirsVolume} (kept : v.Kept start root)
    (next : ∀ answer u, u.Kept start root → (∀ h, answer = .ok h → u.Held start root h) →
      (unswappedHost root rootw).Ensures (·.Kept start root) (f answer) post u) :
    (unswappedHost root rootw).Ensures (·.Kept start root) (dirsOpen rootw true >>= f) post v := by
  refine Host.Ensures.ask DirsVolume.Kept.stable (fun _ kept => kept) kept fun outcome answer w u kept acted => ?_
  obtain ⟨-, acted⟩ := Host.only_act.mp acted
  have acts := DirsVolume.act_acted acted
  refine next answer u (kept.other acts trivial) ?_
  rintro h rfl
  obtain ⟨-, -, way⟩ := DirsVolume.act_createFile acted
  have isRoot : root = h.id := Option.some.inj (way [] (if_pos rfl))
  exact .inr (.inl (isRoot ▸ .refl))

/-- A second open, which follows, is only of a path that was seen to hold content.
-/
theorem dirsOpen_second {β : Type} {path : Wide} {f : Except Nat DirsHandle → DirsProg DirsHandle β}
    {post : β → DirsVolume → Prop} {v : DirsVolume} (known : path ∈ v.content) (kept : v.Kept start root)
    (next : ∀ answer u, u.Kept start root → (∀ h, answer = .ok h → u.Held start root h) →
      (unswappedHost root rootw).Ensures (·.Kept start root) (f answer) post u) :
    (unswappedHost root rootw).Ensures (·.Kept start root) (dirsOpen path true >>= f) post v := by
  refine Host.Ensures.ask (I := fun w : DirsVolume => w.Kept start root ∧ path ∈ w.content) ?_
    (fun _ both => both.1) ⟨kept, known⟩
    fun outcome answer w u both acted => ?_
  · intro m w u both moved
    exact ⟨both.1.swap moved, (DirsVolume.swap_before moved).content both.2⟩
  · have acted := (Host.only_act.mp acted).2
    have acts := DirsVolume.act_acted acted
    refine next answer u (both.1.other acts trivial) ?_
    rintro h rfl
    obtain ⟨samePath, sameFollow, -⟩ := DirsVolume.act_createFile acted
    exact .inl ⟨sameFollow, samePath ▸ acts.content both.2⟩

/-- An item of the stack. -/
def DirsItem.Placed (rootw : Wide) (it : DirsItem) : Prop :=
  Beneath rootw it.path ∧ (it.depth = 0 → it.path = rootw)

theorem DirsItem.Placed.kid {it : DirsItem} (placed : it.Placed rootw) (k : DirsChild) : (k.item it).Placed rootw :=
  ⟨placed.1.join k.wname, fun absurd => (Nat.succ_ne_zero _ absurd).elim⟩

/-- What an opened item is told by its handle does not move it. -/
structure DirsOpened.Sound (start : DirsObjects) (root : Nat) (rootw : Wide) (opened : DirsOpened DirsHandle)
    (v : DirsVolume) : Prop where
  kept : v.Kept start root
  placed : opened.item.Placed rootw
  held : ∀ h, opened.handle = .ok h → v.Held start root h

variable (start) in
theorem DirsOpened.Sound.stable (root : Nat) (rootw : Wide) (opened : DirsOpened DirsHandle) (m : DirsSwap)
    (w v : DirsVolume) (sound : opened.Sound start root rootw w)
    (moved : (unswappedHost root rootw).move m w = some v) : opened.Sound start root rootw v :=
  ⟨sound.kept.swap moved, sound.placed, fun h got => (sound.held h got).later (DirsVolume.swap_before moved)⟩

theorem DirsOpened.Sound.ensures {opened : DirsOpened DirsHandle} {v : DirsVolume}
    (sound : opened.Sound start root rootw v) :
    (unswappedHost root rootw).Ensures (·.Kept start root) (Prog.done opened)
      (fun opened u => opened.Sound start root rootw u) v :=
  Host.Ensures.pure (DirsOpened.Sound.stable start root rootw opened) (fun _ sound => sound.kept) sound
    fun _ sound => sound

theorem dirsOpened_failed {it : DirsItem} {v : DirsVolume} (kept : v.Kept start root) (placed : it.Placed rootw)
    (w : DirsWalk) (action : DirsAction) :
    (unswappedHost root rootw).Ensures (·.Kept start root)
    (Prog.done (⟨it, w, .error action⟩ : DirsOpened DirsHandle))
      (fun opened u => opened.Sound start root rootw u) v :=
  DirsOpened.Sound.ensures ⟨kept, placed, fun _ absurd => (Except.error_ne_ok absurd).elim⟩

theorem dirsOpened_got {it : DirsItem} {v : DirsVolume} (kept : v.Kept start root) (placed : it.Placed rootw)
    {h : DirsHandle} (held : v.Held start root h) (w : DirsWalk) :
    (unswappedHost root rootw).Ensures (·.Kept start root) (Prog.done (⟨it, w, .ok h⟩ : DirsOpened DirsHandle))
      (fun opened u => opened.Sound start root rootw u) v :=
  DirsOpened.Sound.ensures ⟨kept, placed, fun _ same => Except.ok.inj same ▸ held⟩

/-- Opening an item keeps what is held inside the tree, and so is the handle
that it gives. -/
theorem dirsOpenItem_ensures (w : DirsWalk) {it : DirsItem} (placed : it.Placed rootw) {v : DirsVolume}
    (kept : v.Kept start root) :
    (unswappedHost root rootw).Ensures (·.Kept start root) (dirsOpenItem o w it)
      (fun opened u => opened.Sound start root rootw u) v := by
  by_cases isRoot : it.depth = 0
  · simp only [dirsOpenItem, isRoot, decide_true, if_true, placed.2 isRoot]
    refine dirsOpen_root kept fun answer u kept held => ?_
    cases answer with
    | error e => exact dirsOpened_failed kept placed _ _
    | ok h => exact dirsOpened_got kept placed (held h rfl) w
  · simp only [dirsOpenItem, isRoot, decide_false, if_false]
    refine dirsOpen_raw placed.1 kept fun answer u kept held => ?_
    cases answer with
    | error e => exact dirsOpened_failed kept placed _ _
    | ok h =>
      obtain ⟨samePath, raw, held⟩ := held h rfl
      refine Host.Ensures.ask (I := fun w : DirsVolume => w.Kept start root ∧ w.Held start root h) ?_
        (fun _ both => both.1) ⟨kept, held⟩ fun outcome answer w u both acted => ?_
      · intro m w u both moved
        exact ⟨both.1.swap moved, both.2.later (DirsVolume.swap_before moved)⟩
      have acted := (Host.only_act.mp acted).2
      have acts := DirsVolume.act_acted acted
      have kept := both.1.other acts trivial
      have held := both.2.later acts.before
      cases answer with
      | error e => exact dirsOpened_got kept placed held _
      | ok info =>
        by_cases isReparse : info.reparse = true
        · simp only [isReparse, if_true]
          have moved : (it.classified info.tag).Placed rootw := placed
          by_cases isName : dirsIsname info.tag = true
          · refine kept.only (closeHandle_uses h) fun _ u kept => ?_
            rw [if_pos (show (it.classified info.tag).noenter = true from isName)]
            exact dirsOpened_failed kept moved _ _
          · have known := DirsVolume.act_attributeTag raw isReparse (Bool.eq_false_iff.mpr isName) acted
            refine Host.Ensures.ask (I := fun w : DirsVolume => w.Kept start root ∧ h.path ∈ w.content) ?_
              (fun _ both => both.1) ⟨kept, known⟩ fun outcome answer w u both acted => ?_
            · intro m w u both moved
              exact ⟨both.1.swap moved, (DirsVolume.swap_before moved).content both.2⟩
            have acts := DirsVolume.act_acted (Host.only_act.mp acted).2
            have known := acts.content both.2
            rw [samePath] at known
            rw [if_neg (show ¬ (it.classified info.tag).noenter = true from isName)]
            refine dirsOpen_second known (both.1.other acts trivial) fun answer u kept held => ?_
            cases answer with
            | error e => exact dirsOpened_failed kept moved _ _
            | ok h => exact dirsOpened_got kept moved (held h rfl) _
        · simp only [isReparse]
          exact dirsOpened_got kept placed held _

/-- The end of a part that enumerates nothing by then. -/
theorem DirsVolume.Kept.pure {α : Type} {a : α} {fact : α → Prop} {v : DirsVolume} (kept : v.Kept start root)
    (holds : fact a) :
    (unswappedHost root rootw).Ensures (·.Kept start root) (Prog.done a)
    (fun a u => u.Kept start root ∧ fact a) v :=
  Host.Ensures.pure DirsVolume.Kept.stable (fun _ kept => kept) kept fun _ kept => ⟨kept, holds⟩

/-- A visit keeps what is held inside the tree and its item below the root.
-/
theorem dirsDescend_ensures (w : DirsWalk) {it : DirsItem} (placed : it.Placed rootw) {v : DirsVolume}
    (kept : v.Kept start root) :
    (unswappedHost root rootw).Ensures (·.Kept start root) (dirsDescend o w it)
      (fun visit u => u.Kept start root ∧ visit.item.Placed rootw) v := by
  unfold dirsDescend
  split
  · exact kept.pure placed
  · exact kept.pure placed
  · exact kept.pure placed
  · refine Host.Ensures.bind ((dirsOpenItem_ensures o w placed kept).mono fun opened u sound => ?_)
    dsimp only
    split
    · exact sound.kept.pure sound.placed
    · rename_i h got
      have children := @dirsChildren_uses _ (fun h' => h' = h) o h rfl opened.walk opened.item
      refine Host.Ensures.bind ((sound.kept.handle (sound.held h got) children).mono fun answer u kept => ?_)
      refine kept.only (closeHandle_uses h) fun _ u kept => ?_
      obtain ⟨w, result⟩ := answer
      cases result <;> exact kept.pure sound.placed

theorem dirsWalkTurn_ensures {stack : List DirsItem} (w : DirsWalk) (placed : ∀ it ∈ stack, it.Placed rootw)
    {v : DirsVolume} (kept : v.Kept start root) :
    (unswappedHost root rootw).Ensures (·.Kept start root) (dirsWalkTurn o (stack, w))
      (fun r u => u.Kept start root ∧ Sum.elim (fun s => ∀ it ∈ s.1, it.Placed rootw) (fun _ => True) r) v := by
  cases stack with
  | nil => exact kept.pure trivial
  | cons it stack =>
    obtain ⟨first, later⟩ := List.forall_mem_cons.mp placed
    refine Host.Ensures.bind ((dirsDescend_ensures o _ first kept).mono fun visit u sound => ?_)
    refine sound.1.only (dirsDisclose_uses o visit _) fun w u kept => kept.pure ?_
    show ∀ it ∈ visit.kids.foldr _ stack, it.Placed rootw
    induction visit.kids with
    | nil => exact later
    | cons k kids ih => exact List.forall_mem_cons.mpr ⟨sound.2.kid k, ih⟩

/-- So does the walk, for every order of calls and replacements. -/
theorem dirsWalk_ensures (w : DirsWalk) (reparse : Bool) (tag : UInt32) {v : DirsVolume}
    (kept : v.Kept start root) :
    (unswappedHost root rootw).Ensures (·.Kept start root) (dirsWalk o w rootw reparse tag)
      (fun _ u => u.Kept start root) v := by
  refine Host.Ensures.iterate (fun s (u : DirsVolume) => u.Kept start root ∧ ∀ it ∈ s.1, it.Placed rootw) ?_
    (fun _ _ both => both.1)
    (fun _ => DirsVolume.Kept.stable) (fun _ _ kept => kept) ⟨kept, ?_⟩ ?_
  · intro s m w u both moved
    exact ⟨both.1.swap moved, both.2⟩
  · intro s u both
    refine (dirsWalkTurn_ensures o s.2 both.2 both.1).mono fun r u result => ?_
    cases r with
    | inl s => exact ⟨result.1, result.2⟩
    | inr w => exact result.1
  · intro it member
    obtain rfl := List.mem_singleton.mp member
    exact ⟨.inl rfl, fun _ => rfl⟩

/-- And the whole command, where no ancestor is replaced. -/
theorem dirsCore_ensures {v : DirsVolume} (kept : v.Kept start root) :
    (unswappedHost root rootw).Ensures (·.Kept start root) (dirsCore o rootw) (fun _ _ => True) v := by
  refine kept.only (dirsOpen_uses rootw true) fun answer u kept => ?_
  have finish : ∀ (result : Except TclError DirsWalk) u, u.Kept start root →
      (unswappedHost root rootw).Ensures (·.Kept start root) (Prog.done result) (fun _ _ => True) u :=
    fun _ _ kept => Host.Ensures.pure DirsVolume.Kept.stable (fun _ kept => kept) kept fun _ _ => trivial
  cases answer with
  | error e => exact finish _ _ kept
  | ok h =>
    refine kept.only (attributeTagInfo_uses h) fun answer u kept => ?_
    refine kept.only (closeHandle_uses h) fun _ u kept => ?_
    cases answer with
    | error e => exact finish _ _ kept
    | ok info =>
      dsimp only
      split
      · exact finish _ _ kept
      · refine kept.only (dirsRootTag_uses rootw) fun raw u kept => ?_
        refine kept.only (dirsRootScanned_uses rootw raw.1) fun tag u kept => ?_
        exact Host.Ensures.bind ((dirsWalk_ensures o _ _ _ kept).mono fun w u kept => finish _ _ kept)

/-- In a run that opens no path with a link between the root and its end,
what is enumerated is of the tree, apart from the second open of a content
reparse point. -/
theorem dirsCore_stays {objects : DirsObjects} {p : DirsProg DirsHandle (Except TclError DirsWalk)} {v : DirsVolume}
    (run : ((swapHost root rootw).only (unswapped root rootw)).Reaches (dirsCore o rootw) ⟨objects, [], []⟩ p v) :
    ∀ h ∈ v.enumerated, ¬ v.SecondOpen h → ¬ v.Escaped objects root h := by
  have start : DirsVolume.Kept objects root ⟨objects, [], []⟩ :=
    ⟨DirsObjects.Inside.confined, List.forall_mem_nil _⟩
  have kept := ((dirsCore_ensures o start).reaches run).now
  exact fun h member single => (kept.record h member).not_escaped single

end

/-- A root with a directory a that has a directory b, and another directory
that has one too. -/
def swapStart : DirsObjects
  | 0 => some (.directory none fun name => if name = [0x61] then some 1 else none)
  | 1 => some (.directory none fun name => if name = [0x62] then some 2 else none)
  | 2 => some (.directory none fun _ => none)
  | 3 => some (.directory none fun name => if name = [0x62] then some 4 else none)
  | 4 => some (.directory none fun _ => none)
  | _ => none

theorem swapStart_inside {id : Nat} (inside : swapStart.Inside 0 id) : id ≤ 2 := by
  induction inside with
  | refl => omega
  | @tail id next _ entry bound =>
    obtain ⟨content, names, name, found, stands⟩ := entry
    have cases : id = 0 ∨ id = 1 ∨ id = 2 := by omega
    rcases cases with rfl | rfl | rfl
    all_goals
      obtain ⟨-, rfl⟩ := DirsObject.directory.inj (Option.some.inj found)
    · obtain ⟨-, same⟩ := Option.ite_none_right_eq_some.mp stands
      have is : 1 = next := Option.some.inj same
      omega
    · obtain ⟨-, same⟩ := Option.ite_none_right_eq_some.mp stands
      have is : 2 = next := Option.some.inj same
      omega
    · cases stands

/-- The root `C:\r`, as it is prefixed. -/
def swapRoot : Wide := [0x5C, 0x5C, 0x3F, 0x5C, 0x43, 0x3A, 0x5C, 0x72]

def swapOptions : DirsOptions := ⟨.dirs, none, [], false, false, fun _ => [], fun _ _ => false⟩

/-- The directory a becomes a junction to the other directory. -/
def swapJunction : DirsSwap := ⟨[], [0x61], 5, true, 3, []⟩

/-- The enumeration of a directory with one child, from its first buffer to
the end of its handle. -/
def swapListed (name : Wide) : List (DirsSwap ⊕ DirsOutcome) :=
  [.inr (.lists ⟨[⟨name, true, false, 0⟩], false⟩), .inr .works, .inr (.fails errorNoMoreFiles), .inr .works]

/-- The root is checked and its children are listed. -/
def swapBegun : List (DirsSwap ⊕ DirsOutcome) :=
  List.replicate 6 (.inr .works) ++ [.inr (.finds none), .inr .works, .inr .works] ++ swapListed [0x61]

/-- The junction itself is not entered. -/
theorem dirsCore_stays_sample : ∃ w v, (unswappedHost 0 swapRoot).Reaches (dirsCore swapOptions swapRoot)
      ⟨swapStart, [], []⟩ (.done (.ok w)) v ∧
    v.enumerated ≠ [] ∧ ∀ h ∈ v.enumerated, ¬ v.SecondOpen h → ¬ v.Escaped swapStart 0 h := by
  have run := @Host.play_reaches _ _ (unswappedHost 0 swapRoot) _ (dirsCore swapOptions swapRoot) (.done (.ok _))
    ⟨swapStart, [], []⟩ _ (swapBegun ++ [.inl swapJunction] ++ List.replicate 5 (.inr .works)) rfl
  exact ⟨_, _, run, List.cons_ne_nil _ _, dirsCore_stays swapOptions run⟩

/-- Once a is listed it is replaced, and b is opened by its path. -/
theorem dirsCore_escapes :
    ∃ p v, (swapHost 0 swapRoot).Reaches (dirsCore swapOptions swapRoot) ⟨swapStart, [], []⟩ p v ∧
    ∃ h ∈ v.enumerated, ¬ v.SecondOpen h ∧ v.Escaped swapStart 0 h := by
  refine ⟨_, _, @Host.play_reaches _ _ (swapHost 0 swapRoot) _ _ _ _ _
    (swapBegun ++ List.replicate 3 (.inr .works) ++ swapListed [0x62] ++ [.inl swapJunction] ++
      List.replicate 3 (.inr .works) ++ [.inr (.lists ⟨[], false⟩)]) rfl,
    ⟨swapRoot ++ [0x5C, 0x61, 0x5C, 0x62], false, 4⟩, List.mem_cons_self, fun absurd =>
      Bool.false_ne_true absurd.1, rfl, ?_⟩
  intro inside
  have bound : 4 ≤ 2 := swapStart_inside inside
  omega

end Machteld
