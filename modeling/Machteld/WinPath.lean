import Machteld.Chars
import Mathlib.Data.List.Induction

namespace Machteld

/-- `/` and `\`. -/
def isPathSep (c : Nat) : Bool := c == 0x2F || c == 0x5C

inductive PathType
  | relative
  | volumeRelative
  | absolute
deriving DecidableEq

def asciiLowerChar (c : Nat) : Nat := if 0x41 ≤ c ∧ c ≤ 0x5A then c + 32 else c

def isAlphaChar (c : Nat) : Bool := decide (0x61 ≤ asciiLowerChar c) && decide (asciiLowerChar c ≤ 0x7A)

/-- The names of devices that Tcl for Windows knows as paths: a path that is
one of them, in any letter case, is absolute. -/
def winDevice (path : Chars) : Bool :=
  let p := path.map asciiLowerChar
  [chars "con", chars "prn", chars "nul", chars "aux"].contains p ||
    [chars "com", chars "lpt"].contains (p.take 3) &&
      match p.drop 3 with
      | [n] => decide (0x31 ≤ n) && decide (n ≤ 0x39)
      | [n, colon] => decide (0x31 ≤ n) && decide (n ≤ 0x39) && colon == 0x3A
      | _ => false

/-- What `ExtractWinRoot` finds of a path behind its first two separators.
-/
def winShareRoot (path : Chars) : PathType × Chars × Chars :=
  let host := path.dropWhile isPathSep
  let behind := host.dropWhile fun c => !isPathSep c
  if behind.length ≤ 1 then (.volumeRelative, [0x2F], path)
  else
    let share := behind.dropWhile isPathSep
    (.absolute,
      [0x2F, 0x2F] ++ (host.takeWhile (fun c => !isPathSep c) ++ 0x2F :: share.takeWhile fun c => !isPathSep c),
      (share.dropWhile fun c => !isPathSep c).dropWhile isPathSep)

/-- `ExtractWinRoot`: the type of a path, its root and what follows the
root. -/
def winRoot (path : Chars) : PathType × Chars × Chars :=
  match path with
  | [] => (.relative, [], [])
  | a :: rest =>
    if isPathSep a then
      match rest with
      | b :: more => if isPathSep b then winShareRoot more else (.volumeRelative, [0x2F], rest)
      | [] => (.volumeRelative, [0x2F], [])
    else if rest.head? = some 0x3A then
      match rest.tail with
      | c :: more =>
        if isPathSep c then (.absolute, [a, 0x3A, 0x2F], more.dropWhile isPathSep) else
          (.volumeRelative, [a, 0x3A], c :: more)
      | [] => (.volumeRelative, [a, 0x3A], [])
    else if winDevice path then (.absolute, path, [])
    else (.relative, [], path)

/-- `file pathtype` -/
def filePathType (path : Chars) : PathType := (winRoot path).1

/-- The names between the separators, from the one being read on. -/
def pathPieces (piece : Chars) : Chars → List Chars
  | [] => if piece = [] then [] else [piece]
  | c :: s =>
    if isPathSep c then if piece = [] then pathPieces [] s else piece :: pathPieces [] s
    else pathPieces (piece ++ [c]) s

/-- An element that looks like one with a drive is marked as one without. -/
def splitElement (piece : Chars) : Chars :=
  match piece with
  | a :: 0x3A :: _ => if isAlphaChar a then 0x2E :: 0x2F :: piece else piece
  | _ => piece

/-- `file split` -/
def fileSplit (path : Chars) : List Chars :=
  match winRoot path with
  | (.relative, _, _) =>
    match pathPieces [] path with
    | [] => []
    | piece :: pieces => piece :: pieces.map splitElement
  | (_, root, rest) => root :: (pathPieces [] rest).map splitElement

/-- The loop of `TclpNativeJoinPath`: a separator stays where a name is
before it and another one follows. -/
def joinPieces (needsSep pending : Bool) : Chars → Chars
  | [] => []
  | c :: s =>
    if isPathSep c then joinPieces needsSep needsSep s
    else if pending then 0x2F :: c :: joinPieces true false s
    else c :: joinPieces true false s

/-- The mark of `file split` goes where something is before it. -/
def joinElement (start joining : Chars) : Chars :=
  match joining with
  | 0x2E :: 0x2F :: a :: 0x3A :: more => if start ≠ [] ∧ isAlphaChar a then a :: 0x3A :: more else joining
  | _ => joining

/-- `TclpNativeJoinPath` -/
def nativeJoin (start joining : Chars) : Chars :=
  let p := joinElement start joining
  if p = [] then start
  else if start.getLast?.all fun c => c == 0x2F || c == 0x3A then start ++ joinPieces false false p
  else start ++ 0x2F :: joinPieces false false p

/-- One turn of the loop of `file join`: an element that is not relative
starts anew. -/
def joinStep (joined element : Chars) : Chars :=
  match winRoot element with
  | (.relative, _, _) => nativeJoin joined element
  | (_, root, rest) => nativeJoin root rest

/-- `file join` -/
def fileJoin (elements : List Chars) : Chars := elements.foldl joinStep []

example : fileSplit (chars "a/b//c:d\\") = [chars "a", chars "b", chars "./c:d"] := by decide

example : fileJoin [chars "//zipfs:/app/reference", chars "a", chars "b"] = chars "//zipfs:/app/reference/a/b" := by
  decide

example : fileJoin [chars "//zipfs:/app/reference", chars "NUL", chars "b"] = chars "NUL/b" := by decide

/-- A name between separators, without a drive. -/
structure PathName (name : Chars) : Prop where
  some : name ≠ []
  plain : ∀ c ∈ name, isPathSep c = false ∧ c ≠ 0x3A

/-- Names behind separators. -/
def behindSeps (names : List Chars) : Chars := names.flatMap (0x2F :: ·)

/-- A path to which a name can be joined. -/
def OpenEnd (path : Chars) : Prop := ∀ c, path.getLast? = some c → c ≠ 0x2F ∧ c ≠ 0x3A

theorem PathName.openEnd {name : Chars} (proper : PathName name) (path : Chars) : OpenEnd (path ++ name) := by
  intro c last
  have member : c ∈ name := by
    rw [List.getLast?_append_of_ne_nil _ proper.some] at last
    exact List.mem_of_getLast? last
  obtain ⟨plain, other⟩ := proper.plain c member
  refine ⟨?_, other⟩
  rintro rfl
  cases plain

theorem joinPieces_plain {s : Chars} (plain : ∀ c ∈ s, isPathSep c = false) (needsSep : Bool) :
    joinPieces needsSep false s = s := by
  induction s generalizing needsSep with
  | nil => rfl
  | cons c s ih =>
    obtain ⟨first, later⟩ := List.forall_mem_cons.mp plain
    rw [joinPieces, first, if_neg Bool.false_ne_true, if_neg Bool.false_ne_true, ih later]

theorem winRoot_name {name : Chars} (proper : PathName name) :
    winRoot name = if winDevice name then (.absolute, name, []) else (.relative, [], name) := by
  cases name with
  | nil => exact absurd rfl proper.some
  | cons a rest =>
    obtain ⟨first, later⟩ := List.forall_mem_cons.mp proper.plain
    have other : rest.head? ≠ some 0x3A := fun bad => (later 0x3A (List.mem_of_head? bad)).2 rfl
    rw [winRoot.eq_def]
    dsimp only
    rw [first.1, if_neg Bool.false_ne_true, if_neg other]

theorem winShareRoot_type (path : Chars) : (winShareRoot path).1 ≠ .relative := by
  unfold winShareRoot
  dsimp only
  split_ifs <;> exact fun bad => PathType.noConfusion bad

theorem winRoot_relative {path : Chars} (relative : filePathType path = .relative) :
    winRoot path = (.relative, [], path) ∧ winDevice path = false := by
  unfold filePathType at relative
  cases path with
  | nil => exact ⟨rfl, rfl⟩
  | cons a rest =>
    rw [winRoot.eq_def] at relative ⊢
    dsimp only at relative ⊢
    by_cases sep : isPathSep a = true
    · rw [if_pos sep] at relative
      cases rest with
      | nil => cases relative
      | cons b more =>
        dsimp only at relative
        split_ifs at relative
        · exact absurd relative (winShareRoot_type more)
    · rw [if_neg sep] at relative ⊢
      by_cases drive : rest.head? = some 0x3A
      · rw [if_pos drive] at relative
        cases tail : rest.tail with
        | nil =>
          rw [tail] at relative
          cases relative
        | cons c more =>
          rw [tail] at relative
          dsimp only at relative
          split_ifs at relative
      · rw [if_neg drive] at relative ⊢
        by_cases device : winDevice (a :: rest) = true
        · rw [if_pos device] at relative
          cases relative
        · rw [if_neg device]
          exact ⟨rfl, Bool.eq_false_iff.mpr device⟩

theorem joinElement_name {name : Chars} (proper : PathName name) (start : Chars) :
    joinElement start name = name := by
  unfold joinElement
  split
  · rename_i a more
    have colon := (proper.plain 0x3A (by simp)).2
    exact absurd rfl colon
  · rfl

/-- What joining a name does: a device starts anew. -/
theorem joinStep_name {joined name : Chars} (proper : PathName name) (ends : OpenEnd joined) :
    joinStep joined name = if winDevice name ∨ joined = [] then name else joined ++ 0x2F :: name := by
  have pieces := joinPieces_plain (fun c member => (proper.plain c member).1) false
  unfold joinStep
  rw [winRoot_name proper]
  by_cases device : winDevice name = true
  · rw [if_pos device, if_pos (.inl device)]
    rfl
  · rw [if_neg device]
    dsimp only
    rw [nativeJoin, joinElement_name proper, if_neg proper.some, pieces]
    cases last : joined.getLast? with
    | none =>
      rw [List.getLast?_eq_none_iff] at last
      rw [Option.all_none, if_pos rfl, if_pos (.inr last), last, List.nil_append]
    | some c =>
      obtain ⟨slash, colon⟩ := ends c last
      have some' : joined ≠ [] := by
        rintro rfl
        cases last
      rw [if_neg, if_neg (not_or.mpr ⟨device, some'⟩)]
      rw [Option.all_some, Bool.or_eq_true, beq_iff_eq, beq_iff_eq, not_or]
      exact ⟨slash, colon⟩

/-- Names none of which is a device are appended. -/
theorem joinSteps_names {joined : Chars} (some' : joined ≠ []) {names : List Chars}
    (proper : ∀ name ∈ names, PathName name)
    (plain : ∀ name ∈ names, winDevice name = false) (ends : OpenEnd joined) :
    names.foldl joinStep joined = joined ++ behindSeps names := by
  induction names generalizing joined with
  | nil => exact (List.append_nil joined).symm
  | cons name names ih =>
    obtain ⟨first, later⟩ := List.forall_mem_cons.mp proper
    obtain ⟨other, others⟩ := List.forall_mem_cons.mp plain
    have step : joinStep joined name = joined ++ 0x2F :: name := by
      rw [joinStep_name first ends, if_neg (not_or.mpr ⟨Bool.not_eq_true _ ▸ other, some'⟩)]
    have ends' : OpenEnd (joined ++ 0x2F :: name) := by
      have whole := first.openEnd (joined ++ [0x2F])
      rwa [List.append_assoc] at whole
    rw [List.foldl_cons, step, ih (by simp) later others ends', List.append_assoc]
    rfl

/-- Names as a path. -/
def namesPath : List Chars → Chars
  | [] => []
  | name :: names => name ++ behindSeps names

theorem namesPath_openEnd {names : List Chars} (proper : ∀ name ∈ names, PathName name) :
    OpenEnd (namesPath names) := by
  induction names using List.reverseRecOn with
  | nil => exact fun c bad => absurd bad (by simp [namesPath])
  | append_singleton names name _ =>
    have last := proper name (by simp)
    cases names with
    | nil => simpa [namesPath, behindSeps] using last.openEnd []
    | cons first names =>
      have whole := last.openEnd (first ++ (behindSeps names ++ [0x2F]))
      simpa [namesPath, behindSeps] using whole

theorem mem_namesPath {names : List Chars} {c : Nat} (member : c ∈ namesPath names) :
    c = 0x2F ∨ ∃ name ∈ names, c ∈ name := by
  cases names with
  | nil => exact absurd member List.not_mem_nil
  | cons name names =>
    rcases List.mem_append.mp member with first | later
    · exact .inr ⟨name, List.mem_cons_self, first⟩
    · obtain ⟨other, known, inside⟩ := List.mem_flatMap.mp later
      rcases List.mem_cons.mp inside with rfl | inside
      · exact .inl rfl
      · exact .inr ⟨other, List.mem_cons_of_mem _ known, inside⟩

/-- What the names of a path join to: those from the last device on. -/
theorem fileJoin_names {names : List Chars} (proper : ∀ name ∈ names, PathName name) :
    ∃ front back, names = front ++ back ∧ fileJoin names = namesPath back ∧ ∀ name ∈ back.tail,
      winDevice name = false := by
  induction names using List.reverseRecOn with
  | nil => exact ⟨[], [], rfl, rfl, fun name bad => absurd bad List.not_mem_nil⟩
  | append_singleton names name ih =>
    obtain ⟨before, last⟩ := List.forall_mem_append.mp proper
    obtain ⟨front, back, split, joined, plain⟩ := ih before
    have last := List.forall_mem_singleton.mp last
    have inside : ∀ name ∈ back, PathName name := fun name member =>
      before name (split ▸ List.mem_append_right _ member)
    have step : fileJoin (names ++ [name]) = joinStep (namesPath back) name := by
      rw [fileJoin, List.foldl_append, ← joined]
      rfl
    rw [step, joinStep_name last (namesPath_openEnd inside)]
    by_cases anew : winDevice name = true ∨ namesPath back = []
    · rw [if_pos anew]
      exact ⟨names, [name], rfl, (List.append_nil name).symm, fun name bad => absurd bad List.not_mem_nil⟩
    · obtain ⟨other, more⟩ := not_or.mp anew
      rw [if_neg anew]
      refine ⟨front, back ++ [name], by rw [split, List.append_assoc], ?_, ?_⟩
      · cases back with
        | nil => exact absurd rfl more
        | cons first back => simp [namesPath, behindSeps]
      · cases back with
        | nil => exact absurd rfl more
        | cons first back =>
          refine List.forall_mem_append.mpr ⟨plain, List.forall_mem_singleton.mpr ?_⟩
          exact Bool.eq_false_iff.mpr other

theorem pathPieces_plain {piece s : Chars} (plain : ∀ c ∈ s, isPathSep c = false) (more : piece ++ s ≠ []) :
    pathPieces piece s = [piece ++ s] := by
  induction s generalizing piece with
  | nil =>
    rw [List.append_nil] at more ⊢
    exact if_neg more
  | cons c s ih =>
    obtain ⟨first, later⟩ := List.forall_mem_cons.mp plain
    rw [pathPieces, first, if_neg Bool.false_ne_true, ih later (by simp), List.append_assoc]
    rfl

theorem pathPieces_cut {piece s : Chars} (plain : ∀ c ∈ s, isPathSep c = false) (more : piece ++ s ≠ [])
    (rest : Chars) :
    pathPieces piece (s ++ 0x2F :: rest) = (piece ++ s) :: pathPieces [] rest := by
  induction s generalizing piece with
  | nil =>
    rw [List.append_nil] at more ⊢
    exact if_neg more
  | cons c s ih =>
    obtain ⟨first, later⟩ := List.forall_mem_cons.mp plain
    rw [List.cons_append, pathPieces, first, if_neg Bool.false_ne_true, ih later (by simp), List.append_assoc]
    rfl

/-- A path of names is split into these. -/
theorem pathPieces_namesPath {names : List Chars} (proper : ∀ name ∈ names, PathName name) :
    pathPieces [] (namesPath names) = names := by
  cases names with
  | nil => rfl
  | cons name names =>
    induction names generalizing name with
    | nil =>
      have only := List.forall_mem_singleton.mp proper
      simp only [namesPath, behindSeps, List.flatMap_nil, List.append_nil]
      exact pathPieces_plain (fun c member => (only.plain c member).1) only.some
    | cons next names ih =>
      obtain ⟨first, later⟩ := List.forall_mem_cons.mp proper
      have cut := @pathPieces_cut [] _ (fun c member => (first.plain c member).1) first.some
        (namesPath (next :: names))
      rw [ih next later] at cut
      exact cut

theorem pathPieces_mem {piece s : Chars} {name : Chars} (member : name ∈ pathPieces piece s)
    (clean : ∀ c ∈ piece, isPathSep c = false) :
    name ≠ [] ∧ ∀ c ∈ name, isPathSep c = false ∧ (c ∈ piece ∨ c ∈ s) := by
  induction s generalizing piece with
  | nil =>
    unfold pathPieces at member
    split_ifs at member with empty
    · exact absurd member List.not_mem_nil
    · obtain rfl := List.mem_singleton.mp member
      exact ⟨empty, fun c inside => ⟨clean c inside, .inl inside⟩⟩
  | cons d s ih =>
    have fresh : ∀ c ∈ ([] : Chars), isPathSep c = false := fun c bad => absurd bad List.not_mem_nil
    have behind : name ∈ pathPieces [] s → name ≠ [] ∧ ∀ c ∈ name, isPathSep c = false ∧
      (c ∈ piece ∨ c ∈ d :: s) := by
      intro later
      obtain ⟨some', all⟩ := ih later fresh
      refine ⟨some', fun c inside => ⟨(all c inside).1, .inr ?_⟩⟩
      exact List.mem_cons_of_mem _ ((all c inside).2.resolve_left List.not_mem_nil)
    unfold pathPieces at member
    split_ifs at member with sep empty
    · exact behind member
    · rcases List.mem_cons.mp member with rfl | later
      · exact ⟨empty, fun c inside => ⟨clean c inside, .inl inside⟩⟩
      · exact behind later
    · have clean' : ∀ c ∈ piece ++ [d], isPathSep c = false :=
        List.forall_mem_append.mpr ⟨clean, List.forall_mem_singleton.mpr (Bool.eq_false_iff.mpr sep)⟩
      obtain ⟨some', all⟩ := ih member clean'
      refine ⟨some', fun c inside => ⟨(all c inside).1, ?_⟩⟩
      rcases (all c inside).2 with early | late
      · rcases List.mem_append.mp early with old | new
        · exact .inl old
        · exact .inr (List.mem_singleton.mp new ▸ List.mem_cons_self)
      · exact .inr (List.mem_cons_of_mem _ late)

end Machteld
