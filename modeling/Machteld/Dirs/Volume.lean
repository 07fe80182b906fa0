import Machteld.Dirs.Walk
import Machteld.Except
import Mathlib.Logic.Function.Basic

namespace Machteld

/-- What an identifier of a volume stands for: a directory, with the tag of
a content filter or without one, or a name for the place that a path leads
to from some directory. -/
inductive DirsObject
  | directory (content : Option UInt32) (names : Wide → Option Nat)
  | link (tag : UInt32) (base : Nat) (target : List Wide)
  | file

abbrev DirsObjects := Nat → Option DirsObject

namespace DirsObjects

/-- A directory that is no link. -/
def directory (objects : DirsObjects) (id : Nat) : Option (Option UInt32 × (Wide → Option Nat)) :=
  match objects id with
  | some (.directory content names) => some (content, names)
  | _ => none

def isLink (objects : DirsObjects) (id : Nat) : Bool :=
  match objects id with
  | some (.link _ _ _) => true
  | _ => false

/-- The way of a path from a directory. What stands behind a link is found
by going on from where it leads to; a link at the end is what the path
stands for unless it is followed. -/
def walked (objects : DirsObjects) (follow : Bool) (again : Nat → List Wide → Option Nat) :
    Nat → List Wide → Option Nat
  | id, [] => some id
  | id, name :: rest => do
    let (_, names) ← objects.directory id
    let next ← names name
    match ← objects next with
    | .link _ base target => if rest = [] ∧ follow = false then some next else again base (target ++ rest)
    | _ => objects.walked follow again next rest

/-- With at most so many links on the way. -/
def resolve (objects : DirsObjects) (follow : Bool) : Nat → Nat → List Wide → Option Nat
  | 0 => objects.walked follow fun _ _ => none
  | limit + 1 => objects.walked follow (objects.resolve follow limit)

/-- What a path stands for as long as there is no link before its end. -/
def located (objects : DirsObjects) : Nat → List Wide → Option Nat
  | id, [] => some id
  | id, name :: rest => do
    let (_, names) ← objects.directory id
    objects.located (← names name) rest

/-- No directory between the first one and the last name of a path is a
link. -/
def unlinked (objects : DirsObjects) : Nat → List Wide → Bool
  | id, name :: next :: rest =>
    match (objects.directory id).bind fun d => d.2 name with
    | some below => !objects.isLink below && objects.unlinked below (next :: rest)
    | none => true
  | _, _ => true

/-- A new link gets the name of what was in a directory. -/
def swapped (objects : DirsObjects) (parent : Nat) (content : Option UInt32)
    (names : Wide → Option Nat) (name : Wide)
    (made : Nat) (link : DirsObject) : DirsObjects :=
  Function.update (Function.update objects made (some link)) parent
    (some (.directory content (Function.update names name (some made))))

section

variable {objects : DirsObjects} {parent made id : Nat} {content : Option UInt32}
  {names : Wide → Option Nat} {name : Wide}
  {link : DirsObject}

theorem swapped_parent : objects.swapped parent content names name made link parent =
    some (.directory content (Function.update names name (some made))) := Function.update_self _ _ _

theorem swapped_made (other : made ≠ parent) :
    objects.swapped parent content names name made link made = some link := by
  rw [swapped, Function.update_of_ne other, Function.update_self]

theorem swapped_of_ne (notParent : id ≠ parent) (notMade : id ≠ made) :
    objects.swapped parent content names name made link id = objects id := by
  rw [swapped, Function.update_of_ne notParent, Function.update_of_ne notMade]

end

end DirsObjects

structure DirsHandle where
  path : Wide
  follow : Bool
  id : Nat

/-- A volume. The last two fields are a record: the paths whose own handle
was the one of a content reparse point, and the handles that were
enumerated. -/
structure DirsVolume where
  objects : DirsObjects
  content : List Wide
  enumerated : List DirsHandle

/-- How a call ends. A filter may hide its own reparse point, and a path
that is not one of the tree leads anywhere. -/
inductive DirsOutcome
  | works
  | fails (error : Nat)
  | hides
  | leads (id : Nat)
  | lists (batch : DirBatch)
  | finds (info : Option AttributeTag)
  | reads (target : Option Bytes)
  | counts (links : Nat)

/-- A directory below the root is replaced by a junction or a symbolic link.
-/
structure DirsSwap where
  parent : List Wide
  name : Wide
  made : Nat
  junction : Bool
  base : Nat
  target : List Wide

/-- The names of a path below the root. -/
def dirsParts (rootw path : Wide) : Option (List Wide) :=
  if path = rootw then some []
  else if dirsJoin rootw [] <+: path then some ((path.drop (dirsJoin rootw []).length).splitOn wideSlash)
  else none

def reparseLimit : Nat := 63

def dirsAttributeTag (objects : DirsObjects) (id : Nat) : Option AttributeTag :=
  (objects id).map fun
  | .directory (some tag) _ => ⟨true, true, tag⟩
  | .directory none _ => ⟨true, false, 0⟩
  | .link tag _ _ => ⟨true, true, tag⟩
  | .file => ⟨false, false, 0⟩

namespace DirsVolume

def enumerate (v : DirsVolume) (h : DirsHandle) : DirsVolume := { v with enumerated := h :: v.enumerated }

/-- A handle has told what it is the handle of. -/
def classified (v : DirsVolume) (h : DirsHandle) (info : AttributeTag) : DirsVolume :=
  if h.follow = false ∧ info.reparse = true ∧ dirsIsname info.tag =
    false then { v with content := h.path :: v.content }
  else v

def act (root : Nat) (rootw : Wide) (c : DirsCall DirsHandle) (outcome : DirsOutcome) (v : DirsVolume) :
    Option (c.Answer × DirsVolume) :=
  match c, outcome with
  | .createFile _ _, .fails e => some (.error e, v)
  | .createFile path follow, .works =>
    match dirsParts rootw path with
    | some parts => (v.objects.resolve follow reparseLimit root parts).map fun id => (.ok ⟨path, follow, id⟩, v)
    | none => none
  | .createFile path follow, .leads id =>
    if dirsParts rootw path = none then some (.ok ⟨path, follow, id⟩, v) else none
  | .attributeTag _, .fails e => some (.error e, v)
  | .attributeTag h, .works => (dirsAttributeTag v.objects h.id).map fun info => (.ok info, v.classified h info)
  | .attributeTag h, .hides => (v.objects.directory h.id).map fun _ => (.ok ⟨true, false, 0⟩, v)
  | .restart h _, .fails e => some (.error e, v.enumerate h)
  | .restart h _, .lists batch => some (.ok batch, v.enumerate h)
  | .next h _, .fails e => some (.error e, v.enumerate h)
  | .next h _, .lists batch => some (.ok batch, v.enumerate h)
  | .closeHandle _, .works => some ((), v)
  | .findFirst _, .finds info => some (info, v)
  | .linkTarget _ _, .reads target => some (target, v)
  | .linkCount _, .fails e => some (.error e, v)
  | .linkCount _, .counts n => some (.ok n, v)
  | _, _ => none

def swap (root : Nat) (m : DirsSwap) (v : DirsVolume) : Option DirsVolume := do
  let parent ← v.objects.located root m.parent
  let (content, names) ← v.objects.directory parent
  let old ← names m.name
  let _ ← v.objects.directory old
  if (v.objects m.made).isNone then
    let link := DirsObject.link (if m.junction then 0xA0000003 else 0xA000000C) m.base m.target
    some { v with objects := v.objects.swapped parent content names m.name m.made link }
  else none

end DirsVolume

/-- The system below the root, which is not replaced itself and neither is
what stands above it, with a process that replaces directories. -/
def swapHost (root : Nat) (rootw : Wide) : Host (DirsCall DirsHandle) DirsCall.Answer where
  World := DirsVolume
  Choice := DirsOutcome
  act := DirsVolume.act root rootw
  Move := DirsSwap
  move := DirsVolume.swap root

/-- A path is opened itself only while no directory between the root and its
last name is a link. -/
def unswapped (root : Nat) (rootw : Wide) : DirsCall DirsHandle → DirsVolume → Bool
  | .createFile path false, v => (dirsParts rootw path).all (v.objects.unlinked root)
  | _, _ => true

def DirsObjects.Entry (objects : DirsObjects) (id next : Nat) : Prop :=
  ∃ content names name, objects id = some (.directory content names) ∧ names name = some next

/-- The tree of a root. -/
def DirsObjects.Inside (objects : DirsObjects) (root : Nat) : Nat → Prop := Relation.ReflTransGen objects.Entry root

/-- A directory that is enumerated and was not in the tree. -/
def DirsVolume.Escaped (objects : DirsObjects) (root : Nat) (v : DirsVolume) (h : DirsHandle) : Prop :=
  (v.objects.directory h.id).isSome ∧ ¬ objects.Inside root h.id

/-- The second open of a content reparse point. -/
def DirsVolume.SecondOpen (v : DirsVolume) (h : DirsHandle) : Prop := h.follow = true ∧ h.path ∈ v.content

/-- A call that enumerates only handles of some kind. -/
def DirsCall.Uses {H : Type} (held : H → Prop) : DirsCall H → Prop
  | .restart h _ => held h
  | .next h _ => held h
  | _ => True

section

variable {objects start : DirsObjects}

theorem DirsObjects.directory_iff {id : Nat} {content : Option UInt32} {names : Wide → Option Nat} :
    objects.directory id = some (content, names) ↔ objects id = some (.directory content names) := by
  unfold DirsObjects.directory
  split
  · rename_i found
    simp only [found, Option.some.injEq, Prod.mk.injEq, DirsObject.directory.injEq]
  · rename_i other
    exact iff_of_false (Option.some_ne_none _).symm fun found => other _ _ found

theorem DirsObjects.isLink_iff {id : Nat} :
    objects.isLink id = true ↔ ∃ tag base target, objects id = some (.link tag base target) := by
  unfold DirsObjects.isLink
  split
  · rename_i tag base target found
    exact iff_of_true rfl ⟨tag, base, target, found⟩
  · rename_i other
    refine iff_of_false Bool.false_ne_true ?_
    rintro ⟨tag, base, target, found⟩
    exact other tag base target found

/-- The entries of the directories of the tree are of the tree, or they are
links by now. -/
def DirsObjects.Confined (start : DirsObjects) (root : Nat) (now : DirsObjects) : Prop :=
  ∀ id content names name next, start.Inside root id → now id = some (.directory content names) →
    names name = some next → start.Inside root next ∨ now.isLink next = true

theorem DirsObjects.Inside.confined {root : Nat} : start.Confined root start :=
  fun _ content names name _ inside found entry => .inl (inside.tail ⟨content, names, name, found, entry⟩)

variable {root : Nat} (confined : start.Confined root objects)

include confined

/-- A path of names below the root leads to an object of the tree or to a
link that was swapped in. -/
theorem DirsObjects.Confined.located {id found : Nat} {parts : List Wide} (inside : start.Inside root id)
    (located : objects.located id parts = some found) : start.Inside root found ∨ objects.isLink found = true := by
  induction parts generalizing id with
  | nil =>
    cases located
    exact .inl inside
  | cons name rest ih =>
    obtain ⟨⟨content, names⟩, isDirectory, more⟩ := Option.bind_eq_some_iff.mp located
    obtain ⟨next, entry, later⟩ := Option.bind_eq_some_iff.mp more
    rcases confined _ _ _ _ _ inside (directory_iff.mp isDirectory) entry with below | link
    · exact ih below later
    · cases rest with
      | nil =>
        cases later
        exact .inr link
      | cons _ _ =>
        obtain ⟨tag, base, target, stands⟩ := isLink_iff.mp link
        obtain ⟨⟨_, _⟩, isDirectory, -⟩ := Option.bind_eq_some_iff.mp later
        rw [directory_iff.mp isDirectory] at stands
        cases stands

/-- A path that is not followed, with no link before its end. -/
theorem DirsObjects.Confined.walked {again : Nat → List Wide → Option Nat} {id found : Nat} {parts : List Wide}
    (inside : start.Inside root id) (clear : objects.unlinked id parts = true)
    (way : objects.walked false again id parts = some found) :
    start.Inside root found ∨ objects.isLink found = true := by
  induction parts generalizing id with
  | nil =>
    cases way
    exact .inl inside
  | cons name rest ih =>
    obtain ⟨⟨content, names⟩, isDirectory, more⟩ := Option.bind_eq_some_iff.mp way
    obtain ⟨next, entry, later⟩ := Option.bind_eq_some_iff.mp more
    obtain ⟨stands, object, final⟩ := Option.bind_eq_some_iff.mp later
    have below := confined _ _ _ _ _ inside (directory_iff.mp isDirectory) entry
    cases rest with
    | nil =>
      have same : found = next := by
        cases stands <;> exact (Option.some.inj final).symm
      rw [same]
      exact below
    | cons second rest =>
      have checked : (!objects.isLink next && objects.unlinked next (second :: rest)) = true := by
        simpa only [unlinked, isDirectory, Option.bind_some, entry] using clear
      obtain ⟨unlinked, further⟩ := Bool.and_eq_true_iff.mp checked
      have isNot : ¬ objects.isLink next = true := Bool.not_eq_true _ ▸ Bool.not_eq_true' _ ▸ unlinked
      have inside' := below.resolve_right isNot
      cases stands with
      | link tag base target => exact (isNot (isLink_iff.mpr ⟨tag, base, target, object⟩)).elim
      | directory _ _ => exact ih inside' further final
      | file => exact ih inside' further final

theorem DirsObjects.Confined.resolve {limit id found : Nat} {parts : List Wide} (inside : start.Inside root id)
    (clear : objects.unlinked id parts = true) (way : objects.resolve false limit id parts = some found) :
    start.Inside root found ∨ objects.isLink found = true := by
  cases limit <;> exact confined.walked inside clear way

end

section

variable {root : Nat} {rootw : Wide} {start : DirsObjects} {v u : DirsVolume}

/-- What is left of a volume later on: links stay links, and the record
stays. -/
structure DirsVolume.Before (v u : DirsVolume) : Prop where
  links : ∀ id, v.objects.isLink id = true → u.objects.isLink id = true
  content : v.content ⊆ u.content

/-- What a replacement between two calls can do: one name of one directory
becomes a new directory link. -/
theorem DirsVolume.swap_cases {m : DirsSwap} (swapped : v.swap root m = some u) :
    ∃ parent content names link, v.objects.located root m.parent = some parent ∧
      v.objects parent = some (.directory content names) ∧ v.objects m.made = none ∧
      u = { v with objects := v.objects.swapped parent content names m.name m.made link } ∧ ∃ tag base target,
        link = .link tag base target := by
  obtain ⟨parent, found, more⟩ := Option.bind_eq_some_iff.mp swapped
  obtain ⟨⟨content, names⟩, isDirectory, more⟩ := Option.bind_eq_some_iff.mp more
  obtain ⟨old, _, more⟩ := Option.bind_eq_some_iff.mp more
  obtain ⟨_, _, final⟩ := Option.bind_eq_some_iff.mp more
  obtain ⟨free, same⟩ := Option.ite_none_right_eq_some.mp final
  exact ⟨parent, content, names, _, found, DirsObjects.directory_iff.mp isDirectory,
    Option.isNone_iff_eq_none.mp free,
    (Option.some.inj same).symm, _, _, _, rfl⟩

theorem DirsVolume.swap_before {m : DirsSwap} (swapped : v.swap root m = some u) : v.Before u := by
  obtain ⟨parent, content, names, link, -, isDirectory, free, rfl, -⟩ := swap_cases swapped
  refine ⟨fun id isLink => ?_, List.Subset.refl _⟩
  obtain ⟨tag, base, target, stands⟩ := DirsObjects.isLink_iff.mp isLink
  refine DirsObjects.isLink_iff.mpr ⟨tag, base, target, ?_⟩
  have notParent : id ≠ parent := by
    rintro rfl
    rw [isDirectory] at stands
    cases stands
  have notMade : id ≠ m.made := by
    rintro rfl
    rw [free] at stands
    cases stands
  exact (DirsObjects.swapped_of_ne notParent notMade).trans stands

/-- A replacement leaves every directory that is in the tree in it: it takes
a name away and gives it to a new link, and no directory gets a new name. -/
theorem DirsVolume.swap_confined {m : DirsSwap} (confined : start.Confined root v.objects)
    (swapped : v.swap root m = some u) : start.Confined root u.objects := by
  have before := (swap_before swapped).links
  obtain ⟨parent, content, names, link, -, isDirectory, free, rfl, tag, base, target, rfl⟩ := swap_cases swapped
  have notMade : parent ≠ m.made := by
    rintro rfl
    rw [free] at isDirectory
    cases isDirectory
  intro id content' names' name next inside stands entry
  by_cases isParent : id = parent
  · subst isParent
    obtain ⟨-, rfl⟩ := DirsObject.directory.inj (Option.some.inj (DirsObjects.swapped_parent.symm.trans stands))
    by_cases replaced : name = m.name
    · subst replaced
      rw [Function.update_self] at entry
      obtain rfl := Option.some.inj entry
      exact .inr (DirsObjects.isLink_iff.mpr ⟨tag, base, target, DirsObjects.swapped_made notMade.symm⟩)
    · rw [Function.update_of_ne replaced] at entry
      exact (confined id content names name next inside isDirectory entry).imp_right (before next)
  · by_cases isMade : id = m.made
    · subst isMade
      cases (DirsObjects.swapped_made isParent).symm.trans stands
    · have stood := (DirsObjects.swapped_of_ne isParent isMade).symm.trans stands
      exact (confined id content' names' name next inside stood entry).imp_right (before next)

theorem DirsVolume.swap_enumerated {m : DirsSwap} (swapped : v.swap root m = some u) :
    u.enumerated = v.enumerated := by
  obtain ⟨_, _, _, _, -, -, -, rfl, -⟩ := swap_cases swapped
  rfl

/-- What a call changes. -/
structure DirsVolume.Acted (c : DirsCall DirsHandle) (v u : DirsVolume) : Prop where
  objects : u.objects = v.objects
  content : v.content ⊆ u.content
  enumerated : ∀ held, c.Uses held → ∀ h ∈ u.enumerated, held h ∨ h ∈ v.enumerated

theorem DirsVolume.Acted.none (c : DirsCall DirsHandle) : Acted c v v :=
  ⟨rfl, List.Subset.refl _, fun _ _ _ member => .inr member⟩

theorem DirsVolume.Acted.enumerate {c : DirsCall DirsHandle} {h : DirsHandle}
    (uses : ∀ held, c.Uses held → held h) :
    Acted c v (v.enumerate h) := by
  refine ⟨rfl, List.Subset.refl _, fun held meets h' member => ?_⟩
  rcases List.mem_cons.mp member with rfl | before
  · exact .inl (uses held meets)
  · exact .inr before

theorem DirsVolume.Acted.classified {c : DirsCall DirsHandle} {h : DirsHandle} {info : AttributeTag} :
    Acted c v (v.classified h info) := by
  unfold DirsVolume.classified
  split
  · exact ⟨rfl, List.subset_cons_self _ _, fun _ _ _ member => .inr member⟩
  · exact .none c

/-- What a call may do to the volume: open, close and read handles, and
nothing to the objects. Only replacements change those. -/
theorem DirsVolume.act_acted {c : DirsCall DirsHandle} {outcome : DirsOutcome} {a : c.Answer}
    (acted : act root rootw c outcome v = some (a, u)) : Acted c v u := by
  unfold act at acted
  split at acted
  · obtain ⟨-, rfl⟩ := Prod.mk.inj (Option.some.inj acted)
    exact .none _
  · split at acted
    · obtain ⟨_, -, same⟩ := Option.map_eq_some_iff.mp acted
      obtain ⟨-, rfl⟩ := Prod.mk.inj same
      exact .none _
    · cases acted
  · obtain ⟨-, same⟩ := Option.ite_none_right_eq_some.mp acted
    obtain ⟨-, rfl⟩ := Prod.mk.inj (Option.some.inj same)
    exact .none _
  · obtain ⟨-, rfl⟩ := Prod.mk.inj (Option.some.inj acted)
    exact .none _
  · obtain ⟨_, -, same⟩ := Option.map_eq_some_iff.mp acted
    obtain ⟨-, rfl⟩ := Prod.mk.inj same
    exact .classified
  · obtain ⟨_, -, same⟩ := Option.map_eq_some_iff.mp acted
    obtain ⟨-, rfl⟩ := Prod.mk.inj same
    exact .none _
  iterate 4
    · obtain ⟨-, rfl⟩ := Prod.mk.inj (Option.some.inj acted)
      exact .enumerate fun _ meets => meets
  iterate 5
    · obtain ⟨-, rfl⟩ := Prod.mk.inj (Option.some.inj acted)
      exact .none _
  · cases acted

/-- A handle is to the object that its path leads to at the time of the
call. -/
theorem DirsVolume.act_createFile {path : Wide} {follow : Bool} {outcome : DirsOutcome} {h : DirsHandle}
    (acted : act root rootw (.createFile path follow) outcome v = some (.ok h, u)) :
    h.path = path ∧ h.follow = follow ∧ ∀ parts, dirsParts rootw path = some parts →
      v.objects.resolve follow reparseLimit root parts = some h.id := by
  cases outcome with
  | works =>
    simp only [act] at acted
    split at acted
    · rename_i parts found
      obtain ⟨id, way, same⟩ := Option.map_eq_some_iff.mp acted
      obtain ⟨same, -⟩ := Prod.mk.inj same
      obtain rfl := Except.ok.inj same
      refine ⟨rfl, rfl, fun parts' found' => ?_⟩
      obtain rfl := Option.some.inj (found.symm.trans found')
      exact way
    · cases acted
  | leads id =>
    obtain ⟨elsewhere, same⟩ := Option.ite_none_right_eq_some.mp acted
    obtain ⟨same, -⟩ := Prod.mk.inj (Option.some.inj same)
    obtain rfl := Except.ok.inj same
    refine ⟨rfl, rfl, fun parts found => ?_⟩
    rw [elsewhere] at found
    cases found
  | fails e => cases acted
  | hides => cases acted
  | lists batch => cases acted
  | finds info => cases acted
  | reads target => cases acted
  | counts n => cases acted

/-- Only the handle of a content reparse point tells a tag that is no name.
-/
theorem DirsVolume.act_attributeTag {h : DirsHandle} {outcome : DirsOutcome} {info : AttributeTag}
    (raw : h.follow = false)
    (isReparse : info.reparse = true) (noName : dirsIsname info.tag = false)
    (acted : act root rootw (.attributeTag h) outcome v = some (.ok info, u)) : h.path ∈ u.content := by
  cases outcome with
  | works =>
    obtain ⟨info', -, same⟩ := Option.map_eq_some_iff.mp acted
    obtain ⟨answered, rfl⟩ := Prod.mk.inj same
    obtain rfl := Except.ok.inj answered
    rw [classified, if_pos ⟨raw, isReparse, noName⟩]
    exact List.mem_cons_self
  | hides =>
    obtain ⟨_, -, same⟩ := Option.map_eq_some_iff.mp acted
    obtain ⟨same, -⟩ := Prod.mk.inj same
    obtain rfl := Except.ok.inj same
    cases isReparse
  | fails e => cases acted
  | leads id => cases acted
  | lists batch => cases acted
  | finds info => cases acted
  | reads target => cases acted
  | counts n => cases acted

/-- A handle of the second open of a content reparse point, or of a
directory of the tree, or of a link itself. -/
def DirsVolume.Held (start : DirsObjects) (root : Nat) (v : DirsVolume) (h : DirsHandle) : Prop :=
  v.SecondOpen h ∨ start.Inside root h.id ∨ v.objects.isLink h.id = true

structure DirsVolume.Kept (start : DirsObjects) (root : Nat) (v : DirsVolume) : Prop where
  confined : start.Confined root v.objects
  record : ∀ h ∈ v.enumerated, v.Held start root h

theorem DirsVolume.Held.later {h : DirsHandle} (held : v.Held start root h) (before : v.Before u) :
    u.Held start root h := by
  rcases held with second | inside | link
  · exact .inl ⟨second.1, before.content second.2⟩
  · exact .inr (.inl inside)
  · exact .inr (.inr (before.links _ link))

/-- A handle that is no second open is to an object of the tree. -/
theorem DirsVolume.Held.not_escaped {h : DirsHandle} (held : v.Held start root h) (single : ¬ v.SecondOpen h) :
    ¬ v.Escaped start root h := by
  rintro ⟨isDirectory, outside⟩
  rcases held with second | inside | link
  · exact single second
  · exact outside inside
  · obtain ⟨⟨content, names⟩, found⟩ := Option.isSome_iff_exists.mp isDirectory
    obtain ⟨tag, base, target, stands⟩ := DirsObjects.isLink_iff.mp link
    rw [DirsObjects.directory_iff.mp found] at stands
    cases stands

theorem DirsVolume.Acted.before {c : DirsCall DirsHandle} (acted : Acted c v u) : v.Before u :=
  ⟨fun _ link => acted.objects ▸ link, acted.content⟩

theorem DirsVolume.Kept.swap {m : DirsSwap} (kept : v.Kept start root) (swapped : v.swap root m = some u) :
    u.Kept start root := by
  refine ⟨swap_confined kept.confined swapped, fun h member => ?_⟩
  rw [swap_enumerated swapped] at member
  exact (kept.record h member).later (swap_before swapped)

/-- A call that enumerates only what may be enumerated. -/
theorem DirsVolume.Kept.act {c : DirsCall DirsHandle} {held : DirsHandle → Prop} (kept : v.Kept start root)
    (uses : c.Uses held) (mine : ∀ h, held h → v.Held start root h) (acted : Acted c v u) : u.Kept start root := by
  refine ⟨acted.objects ▸ kept.confined, fun h member => ?_⟩
  rcases acted.enumerated held uses h member with now | before
  · exact (mine h now).later acted.before
  · exact (kept.record h before).later acted.before

/-- A call that enumerates nothing. -/
theorem DirsVolume.Kept.other {c : DirsCall DirsHandle} (kept : v.Kept start root) (acted : Acted c v u)
    (uses : c.Uses fun _ => False) : u.Kept start root := kept.act uses (fun _ absurd => absurd.elim) acted

/-- A path of the tree. -/
def Beneath (rootw path : Wide) : Prop := path = rootw ∨ dirsJoin rootw [] <+: path

theorem Beneath.parts {path : Wide} (beneath : Beneath rootw path) :
    ∃ parts, dirsParts rootw path = some parts := by
  unfold dirsParts
  by_cases isRoot : path = rootw
  · exact ⟨_, if_pos isRoot⟩
  · exact ⟨_, (if_neg isRoot).trans (if_pos (beneath.resolve_left isRoot))⟩

theorem Beneath.join {path : Wide} (beneath : Beneath rootw path) (name : Wide) :
    Beneath rootw (dirsJoin path name) := by
  rcases beneath with rfl | below
  · refine .inr ⟨name, ?_⟩
    simp only [dirsJoin, List.append_nil, List.append_assoc]
  · exact .inr (below.trans ⟨_, rfl⟩)

end

end Machteld
