import Machteld.Docs.Options
import Machteld.WinPath

namespace Machteld

def controlChar (c : Nat) : Bool := decide (c ≤ 0x1F) || c == 0x7F

/-- `DocsSafeRelative` -/
def docsSafeRelative (path : Chars) : Bool :=
  if path = [] ∨ 32767 < path.length then false
  else if filePathType path ≠ .relative then false
  else if path.any controlChar || path.contains 0x5C || path.contains 0x3A || occurs (chars "//") path ||
    path.getLast? == some 0x2F then
    false
  else
    let parts := fileSplit path
    if path ≠ (fileJoin parts).map (fun c => if c = 0x5C then 0x2F else c) then false
    else if parts = [] then false
    else parts.all fun part => !([chars ".", chars "..", []].contains part)

/-- `DocsJoin` below a root. -/
def docsJoin (root relative : Chars) : Except TclError Chars :=
  if docsSafeRelative relative then .ok (fileJoin (root :: fileSplit relative))
  else .error (docsFail "corrupt" (ascii "docs: unsafe reference path in catalog"))

/-- A root that `DocsRoot` returns: a path that `file join` has made, in a
zip file system. -/
structure ReferenceRoot where
  text : Chars
  mounted : chars "//zipfs:/" <+: text
  joined : fileJoin [text] = text
  ends : OpenEnd text

/-- A name that stays where it is: no parent or dot, no drive and no device.
-/
structure InnerName (name : Chars) : Prop where
  proper : PathName name
  dots : name ≠ chars "." ∧ name ≠ chars ".."
  device : winDevice name = false

/-- A path strictly below another one, by its spelling. -/
def StrictlyBelow (root path : Chars) : Prop :=
  ∃ names, names ≠ [] ∧ (∀ name ∈ names, InnerName name) ∧ path = root ++ behindSeps names

/-- Up to letter case. -/
def SameFold (fold : Nat → Nat) (a b : Chars) : Prop := a.map fold = b.map fold

/-- An accepted path stays below the root under its own spelling, and no
other one names what it names, but for letter case. -/
structure StaysInside (root : ReferenceRoot) (fold : Nat → Nat) (relative : Chars) : Prop where
  joins : ∃ path, docsJoin root.text relative = .ok path ∧ StrictlyBelow root.text path ∧
    path = root.text ++ 0x2F :: relative
  own : ∀ other path path', docsJoin root.text relative = .ok path → docsJoin root.text other = .ok path' →
    SameFold fold path path' → SameFold fold relative other

/-- The first name of a path is a device. -/
def leadsDevice (relative : Chars) : Bool := (fileSplit relative).head?.any winDevice

/-- The names of an accepted path. -/
structure SafeNames (relative : Chars) (first : Chars) (names : List Chars) : Prop where
  split : fileSplit relative = first :: names
  spelled : relative = namesPath (first :: names)
  proper : ∀ name ∈ first :: names, PathName name
  dots : ∀ name ∈ first :: names, name ≠ chars "." ∧ name ≠ chars ".."
  plain : ∀ name ∈ names, winDevice name = false

theorem splitElement_plain {piece : Chars} (plain : 0x3A ∉ piece) : splitElement piece = piece := by
  unfold splitElement
  split
  · exact absurd (List.mem_cons_of_mem _ List.mem_cons_self) plain
  · rfl

theorem docsSafeRelative_names {relative : Chars} (accepted : docsSafeRelative relative = true) :
    (∃ first names, SafeNames relative first names) ∧ winDevice relative = false := by
  unfold docsSafeRelative at accepted
  dsimp only at accepted
  split_ifs at accepted with empty type textual joined parts
  obtain ⟨root, device⟩ := winRoot_relative (not_not.mp type)
  simp only [Bool.or_eq_true, not_or, List.contains_iff_mem] at textual
  obtain ⟨⟨⟨⟨-, slash⟩, colon⟩, -⟩, -⟩ := textual
  have fresh : ∀ c ∈ ([] : Chars), isPathSep c = false := fun c bad => absurd bad List.not_mem_nil
  have proper : ∀ name ∈ pathPieces [] relative, PathName name := by
    intro name member
    obtain ⟨some', all⟩ := pathPieces_mem member fresh
    refine ⟨some', fun c inside => ⟨(all c inside).1, ?_⟩⟩
    rintro rfl
    exact colon ((all _ inside).2.resolve_left List.not_mem_nil)
  have split : fileSplit relative = pathPieces [] relative := by
    unfold fileSplit
    rw [root]
    cases pieces : pathPieces [] relative with
    | nil => rfl
    | cons piece more =>
      dsimp only
      have same : ∀ name ∈ more, splitElement name = name := by
        intro name member
        refine splitElement_plain fun bad => ?_
        exact ((proper name (pieces ▸ List.mem_cons_of_mem _ member)).plain 0x3A bad).2 rfl
      rw [List.map_congr_left same, List.map_id']
  rw [split] at accepted joined parts
  obtain ⟨front, back, whole, path, plain⟩ := fileJoin_names proper
  have inside : ∀ name ∈ back, PathName name := fun name member =>
    proper name (whole ▸ List.mem_append_right _ member)
  have clean : (namesPath back).map (fun c => if c = 0x5C then 0x2F else c) = namesPath back := by
    refine (List.map_congr_left fun c member => if_neg ?_).trans (List.map_id' _)
    rintro rfl
    rcases mem_namesPath member with bad | ⟨name, known, bad⟩
    · cases bad
    · exact Bool.noConfusion ((inside name known).plain _ bad).1
  rw [path, clean] at joined
  have spelled := not_not.mp joined
  have same : pathPieces [] relative = back := by rw [spelled, pathPieces_namesPath inside]
  cases back with
  | nil => exact absurd same parts
  | cons first names =>
    refine ⟨⟨first, names, split.trans same, spelled, inside, ?_, plain⟩, device⟩
    intro name member
    have kept := List.all_eq_true.mp accepted name (same ▸ member)
    constructor
    · rintro rfl
      cases kept
    · rintro rfl
      cases kept

section

variable {root : ReferenceRoot} {relative first : Chars} {names : List Chars}

theorem ReferenceRoot.text_some (root : ReferenceRoot) : root.text ≠ [] := by
  intro empty
  have mounted := root.mounted
  rw [empty, List.prefix_nil] at mounted
  cases mounted

/-- Where the names of an accepted path lead from the root. -/
theorem SafeNames.joins (safe : SafeNames relative first names) (accepted : docsSafeRelative relative = true)
    (root : ReferenceRoot) :
    docsJoin root.text relative = .ok (if winDevice first then relative else root.text ++ 0x2F :: relative) := by
  have start : joinStep [] root.text = root.text := root.joined
  rw [docsJoin, if_pos accepted, safe.split, fileJoin, List.foldl_cons, start, List.foldl_cons]
  obtain ⟨proper, later⟩ := List.forall_mem_cons.mp safe.proper
  rw [joinStep_name proper root.ends]
  by_cases device : winDevice first = true
  · rw [if_pos (.inl device), if_pos device, joinSteps_names proper.some later safe.plain
      (proper.openEnd []), safe.spelled]
    rfl
  · have ends : OpenEnd (root.text ++ 0x2F :: first) := by
      have whole := proper.openEnd (root.text ++ [0x2F])
      rwa [List.append_assoc] at whole
    rw [if_neg (not_or.mpr ⟨device, root.text_some⟩), if_neg device,
      joinSteps_names (by simp) later safe.plain ends, safe.spelled,
      List.append_assoc]
    rfl

theorem SafeNames.leads (safe : SafeNames relative first names) : leadsDevice relative = winDevice first := by
  rw [leadsDevice, safe.split, List.head?_cons, Option.any_some]

/-- What comes from a zip file system begins with a slash. -/
theorem ReferenceRoot.slash (root : ReferenceRoot) : ∃ rest, root.text = 0x2F :: rest := by
  obtain ⟨rest, whole⟩ := root.mounted
  exact ⟨_, whole.symm⟩

/-- An accepted path begins with no slash. -/
theorem SafeNames.head (safe : SafeNames relative first names) : ∃ c rest, relative = c :: rest ∧ c ≠ 0x2F := by
  have proper := safe.proper first List.mem_cons_self
  cases first with
  | nil => exact absurd rfl proper.some
  | cons c more =>
    refine ⟨c, more ++ behindSeps names, safe.spelled, ?_⟩
    rintro rfl
    cases (proper.plain 0x2F List.mem_cons_self).1

/-- What two accepted paths join to is the same only where they are. -/
theorem SafeNames.own {other : Chars} {others : List Chars} {first' : Chars} {fold : Nat → Nat}
    (slash : ∀ c, fold c = fold 0x2F → c = 0x2F)
    (safe : SafeNames other first' others)
    (same : SameFold fold (root.text ++ 0x2F :: relative)
      (if winDevice first' then other else root.text ++ 0x2F :: other)) :
    SameFold fold relative other := by
  obtain ⟨c, rest, spelled, apart⟩ := safe.head
  obtain ⟨mount, rooted⟩ := root.slash
  unfold SameFold at same ⊢
  by_cases device : winDevice first' = true
  · rw [if_pos device, rooted, spelled] at same
    exact absurd (slash c (List.cons.inj same).1.symm) apart
  · rw [if_neg device, List.map_append, List.map_append] at same
    exact (List.cons.inj (List.append_cancel_left same)).2

end

/-- Every path that `DocsSafeRelative` accepts stays below the root, but for
one whose first name is a device. -/
theorem staysInside_iff (root : ReferenceRoot) (fold : Nat → Nat) (slash : ∀ c, fold c = fold 0x2F → c = 0x2F)
    {relative : Chars}
    (accepted : docsSafeRelative relative = true) :
    StaysInside root fold relative ↔ leadsDevice relative = false := by
  obtain ⟨⟨first, names, safe⟩, -⟩ := docsSafeRelative_names accepted
  have joins := safe.joins accepted root
  obtain ⟨c, rest, spelled, other⟩ := safe.head
  obtain ⟨mount, rooted⟩ := root.slash
  rw [safe.leads]
  constructor
  · intro inside
    obtain ⟨path, joined, -, below⟩ := inside.joins
    rw [joins] at joined
    by_cases device : winDevice first = true
    · rw [if_pos device] at joined
      obtain rfl := Except.ok.inj joined
      rw [spelled, rooted, List.cons_append] at below
      exact absurd (List.cons.inj below).1 other
    · exact Bool.eq_false_iff.mpr device
  · intro plain
    rw [plain, if_neg Bool.false_ne_true] at joins
    refine ⟨⟨_, joins, ⟨first :: names, List.cons_ne_nil _ _, ?_, ?_⟩, rfl⟩, ?_⟩
    · intro name member
      refine ⟨safe.proper name member, safe.dots name member, ?_⟩
      rcases List.mem_cons.mp member with rfl | later
      · exact plain
      · exact safe.plain name later
    · rw [safe.spelled]
      rfl
    · intro other' path path' joined joined' same
      rw [joins] at joined
      obtain rfl := Except.ok.inj joined
      rw [docsJoin] at joined'
      split_ifs at joined' with accepted'
      obtain ⟨⟨first', names', safe'⟩, -⟩ := docsSafeRelative_names accepted'
      have joins' := safe'.joins accepted' root
      rw [docsJoin, if_pos accepted'] at joins'
      rw [← Except.ok.inj joined', Except.ok.inj joins'] at same
      exact safe'.own slash same

theorem appReference_open : OpenEnd (chars "//zipfs:/app/reference") := by
  intro c last
  obtain rfl := Option.some.inj last
  decide

theorem staysInside_iff_page :
    docsSafeRelative (chars "machteld/docs.md") = true ∧
    ∃ root : ReferenceRoot, root.text = chars "//zipfs:/app/reference" ∧
      (StaysInside root id (chars "machteld/docs.md") ↔ leadsDevice (chars "machteld/docs.md") = false) := by
  have accepted : docsSafeRelative (chars "machteld/docs.md") = true := by decide
  exact ⟨accepted, ⟨chars "//zipfs:/app/reference", by decide, by decide, appReference_open⟩, rfl,
    staysInside_iff _ id (fun c same => same) accepted⟩

/-- The names of a path that is accepted lead out of the reference. -/
theorem docsJoin_device :
    docsSafeRelative (chars "con/guide.md") = true ∧
    ∃ root : ReferenceRoot, root.text = chars "//zipfs:/app/reference" ∧
      docsJoin root.text (chars "con/guide.md") = .ok (chars "con/guide.md") ∧
      ¬ StrictlyBelow root.text (chars "con/guide.md") := by
  have accepted : docsSafeRelative (chars "con/guide.md") = true := by decide
  have joined : fileJoin (chars "//zipfs:/app/reference" :: fileSplit (chars "con/guide.md")) =
    chars "con/guide.md" := by decide
  refine ⟨accepted, ⟨chars "//zipfs:/app/reference", by decide, by decide, appReference_open⟩, rfl, ?_, ?_⟩
  · rw [docsJoin, if_pos accepted, joined]
  intro below
  obtain ⟨names, -, -, path⟩ := below
  cases path

end Machteld
