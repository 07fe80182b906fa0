import Machteld.Dirs.Spelling

namespace Machteld

def slashCode (c : Nat) : Nat := if c = 0x5C then 0x2F else c

theorem slashCode_toNat (u : UInt16) : (if u = wideSlash then 0x2F else u : UInt16).toNat = slashCode u.toNat := by
  unfold slashCode
  by_cases isSlash : u = wideSlash
  · rw [if_pos isSlash, isSlash]
    rfl
  · have other : u.toNat ≠ 0x5C := fun same => isSlash (UInt16.toNat_inj.mp same)
    rw [if_neg isSlash, if_neg other]

/-- Turning backslashes into slashes commutes with decoding: no unit of a
surrogate pair is a backslash. -/
theorem decode_slashed (w : Wide) : Utf16.decode (wideSlashed w) = (Utf16.decode w).map (·.map slashCode) := by
  have kept : ∀ u : UInt16, Utf16.IsHigh u ∨ Utf16.IsLow u → (if u = wideSlash then 0x2F else u : UInt16) = u := by
    intro u surrogate
    refine if_neg fun isSlash => ?_
    subst isSlash
    revert surrogate
    decide
  have single : ∀ u : UInt16, ¬ (Utf16.IsHigh u ∨ Utf16.IsLow u) →
      ¬ (Utf16.IsHigh (if u = wideSlash then 0x2F else u) ∨ Utf16.IsLow (if u = wideSlash then 0x2F else u)) := by
    intro u alone
    by_cases isSlash : u = wideSlash
    · rw [if_pos isSlash]
      decide
    · rwa [if_neg isSlash]
  unfold wideSlashed
  induction w using Utf16.decode.induct with
  | case1 => rfl
  | case2 u alone =>
    rw [List.map_singleton, kept u alone, Utf16.decode, if_pos alone]
    rfl
  | case3 u alone =>
    rw [List.map_singleton, Utf16.decode, if_neg (single u alone), Utf16.decode, if_neg alone, slashCode_toNat]
    rfl
  | case4 u v rest high low ih =>
    rw [List.map_cons, List.map_cons, kept u (.inl high), kept v (.inr low), Utf16.decode,
      if_pos high, if_pos low, ih,
      Utf16.decode, if_pos high, if_pos low, Option.map_map, Option.map_map]
    have above : slashCode (0x10000 + (u.toNat - 0xD800) * 0x400 + (v.toNat - 0xDC00)) =
        0x10000 + (u.toNat - 0xD800) * 0x400 + (v.toNat - 0xDC00) := if_neg (by omega)
    refine congrFun (congrArg _ (funext fun cs => ?_)) _
    rw [Function.comp, Function.comp, List.map_cons, above]
  | case5 u v rest high low =>
    have notLow : ¬ Utf16.IsLow (if v = wideSlash then 0x2F else v) := by
      by_cases isSlash : v = wideSlash
      · rw [if_pos isSlash]
        decide
      · rwa [if_neg isSlash]
    rw [List.map_cons, List.map_cons, kept u (.inl high), Utf16.decode, if_pos high, if_neg notLow,
      Utf16.decode, if_pos high,
      if_neg low]
    rfl
  | case6 u v rest high low =>
    rw [List.map_cons, List.map_cons, kept u (.inr low), Utf16.decode, if_neg high, if_pos low,
      Utf16.decode, if_neg high,
      if_pos low]
    rfl
  | case7 u v rest high low ih =>
    have alone := not_or.mpr ⟨high, low⟩
    rw [List.map_cons, Utf16.decode_cons_single (single u alone), ih,
      Utf16.decode_cons_single alone, Option.map_map,
      Option.map_map, slashCode_toNat]
    rfl

/-- Turning backslashes into slashes commutes with encoding: no byte of a
longer sequence is a backslash. -/
theorem encode_slashed {cs : List Nat} (bound : ∀ c ∈ cs, c < 0x110000) :
    ((cs.flatMap Utf8.encode).map fun c => if c = backslash then 0x2F else c) =
      (cs.map slashCode).flatMap Utf8.encode := by
  induction cs with
  | nil => rfl
  | cons c cs ih =>
    obtain ⟨first, rest⟩ := List.forall_mem_cons.mp bound
    rw [List.flatMap_cons, List.map_append, ih rest, List.map_cons, List.flatMap_cons]
    refine congrArg (· ++ _) ?_
    unfold slashCode
    by_cases isSlash : c = 0x5C
    · rw [if_pos isSlash, isSlash]
      rfl
    · rw [if_neg isSlash]
      refine (List.map_congr_left fun b member => ?_).trans (List.map_id _)
      refine if_neg fun same => isSlash ?_
      subst same
      have inside := Utf8.slash_mem_flatMap_encode (List.forall_mem_singleton.mpr first)
        (by decide : backslash.toNat < 0x80)
        (by rw [List.flatMap_singleton]; exact member)
      exact (List.mem_singleton.mp inside).symm

/-- A path whose prefix comes off is shown with forward slashes. -/
theorem dirsStrip_rest {path rest : Wide} {unc : Bool} (shown : path.drop (if unc then 8 else 4) = rest)
    (nonempty : rest ≠ []) :
    dirsStrip unc path = mtWideToUtf8 true (wideSlashed
      ((if unc then [wideSlash, wideSlash] else []) ++ rest)) := by
  have some : wideSlashed ((if unc then [wideSlash, wideSlash] else []) ++ rest) ≠ [] := by
    unfold wideSlashed
    exact fun empty => nonempty (List.append_eq_nil_iff.mp (List.map_eq_nil_iff.mp empty)).2
  have front : Utf16.decode ((if unc then [wideSlash, wideSlash] else []) ++ rest) =
      (Utf16.decode rest).map ((if unc then [0x5C, 0x5C] else []) ++ ·) := by
    cases unc with
    | false => exact Option.map_id'.symm
    | true => exact Utf16.decode_append (a := [wideSlash, wideSlash]) rfl rest
  rw [mtWideToUtf8, if_neg (not_or.mpr ⟨some, Bool.noConfusion⟩), dirsStrip, shown, decode_slashed,
    front, Option.map_map,
    Option.map_map]
  cases read : Utf16.decode rest with
  | none => rfl
  | some cs =>
    have bound := (Utf16.decode_some read).1
    rw [Option.map_some, Option.map_some, Function.comp, Function.comp, List.map_append, encode_slashed bound,
      List.map_append,
      List.flatMap_append]
    cases unc <;> rfl

/-- The loop stops at the first length that it may not shorten. -/
theorem dirsTrim_eq {already : Bool} {full : Wide} {m fl : Nat} (above : 0 < m) (below : m ≤ fl)
    (stop : full[m - 1]? = some wideSlash → driveRoot already full m = true)
    (goes : ∀ k, m < k → k ≤ fl → full[k - 1]? = some wideSlash ∧ driveRoot already full k = false) :
    dirsTrim already full fl = m := by
  induction fl with
  | zero => omega
  | succ fl ih =>
    rw [dirsTrim]
    rcases Nat.lt_or_eq_of_le below with less | rfl
    · obtain ⟨isSlash, noRoot⟩ := goes (fl + 1) less (Nat.le_refl _)
      rw [if_pos ⟨by omega, isSlash, noRoot⟩]
      exact ih (by omega) fun k first last => goes k first (by omega)
    · refine if_neg fun ⟨_, isSlash, noRoot⟩ => ?_
      exact Bool.noConfusion (noRoot.symm.trans (stop isSlash))

/-- Separators behind a path that is no drive root are all removed. -/
theorem dirsTrim_plain {already : Bool} {base : Wide} (n : Nat) (nonempty : base ≠ [])
    (last : base.getLast? ≠ some wideSlash)
    (noRoot : ∀ k, base.length < k → driveRoot already (base ++ List.replicate n wideSlash) k = false) :
    dirsTrim already (base ++ List.replicate n wideSlash)
      (base ++ List.replicate n wideSlash).length = base.length := by
  have positive := List.length_pos_iff.mpr nonempty
  rw [List.length_append, List.length_replicate]
  refine dirsTrim_eq positive (Nat.le_add_right _ _) (fun isSlash => ?_) fun k first bound => ⟨?_, noRoot k first⟩
  · rw [List.getElem?_append_left (by omega)] at isSlash
    rw [List.getLast?_eq_getElem?] at last
    exact absurd isSlash last
  · rw [List.getElem?_append_right (by omega), List.getElem?_replicate, if_pos (by omega)]

/-- Behind a drive root one separator stays. -/
theorem dirsTrim_root {already : Bool} {base : Wide} {n : Nat} (some : 0 < n)
    (root : driveRoot already (base ++ List.replicate n wideSlash) (base.length + 1) = true)
    (noRoot : ∀ k, base.length + 1 < k → driveRoot already (base ++ List.replicate n wideSlash) k = false) :
    dirsTrim already (base ++ List.replicate n wideSlash)
      (base ++ List.replicate n wideSlash).length = base.length + 1 := by
  rw [List.length_append, List.length_replicate]
  refine dirsTrim_eq (Nat.succ_pos _) (by omega) (fun _ => root) fun k first bound => ⟨?_, noRoot k first⟩
  rw [List.getElem?_append_right (by omega), List.getElem?_replicate, if_pos (by omega)]

theorem take_trimmed (base : Wide) (n : Nat) : (base ++ List.replicate n wideSlash).take base.length = base :=
  List.take_left

theorem take_root {base : Wide} {n : Nat} (some : 0 < n) :
    (base ++ List.replicate n wideSlash).take (base.length + 1) = base ++ [wideSlash] := by
  obtain ⟨m, rfl⟩ := Nat.exists_eq_add_of_le' some
  rw [List.replicate_succ, ← List.singleton_append, ← List.append_assoc]
  exact List.take_left' (List.length_append.trans rfl)

/-- The root as it is handed to the walk. -/
structure DirsPrefixed.Normal (p : DirsPrefixed) (letters : Wide) (l : DirsLocation) : Prop where
  path : p.path = l.extended letters ++ l.kept
  fits : p.path.length < p.units
  unc : p.unc = l.isUnc

theorem driveRoot_far {already : Bool} {full : Wide} {k : Nat} (far : 7 < k) :
    driveRoot already full k = false := by
  have notThree : (k == 3) = false := beq_false_of_ne (by omega)
  have notSeven : (k == 7) = false := beq_false_of_ne (by omega)
  rw [driveRoot, notThree, notSeven, Bool.false_and, Bool.and_false, Bool.false_and]
  rfl

theorem driveRoot_plain {full : Wide} {k : Nat} (far : 3 < k) : driveRoot false full k = false := by
  have notThree : (k == 3) = false := beq_false_of_ne (by omega)
  rw [driveRoot, notThree]
  rfl

/-- Joined names do not end in a separator. -/
theorem wideJoined_last {names : List Wide} (nonempty : names ≠ []) (named : ∀ n ∈ names, DirsName n) :
    2 ≤ (wideJoined names).length ∧ ∀ front : Wide, (front ++ wideJoined names).getLast? ≠ some wideSlash := by
  obtain ⟨before, n, rfl⟩ := List.eq_nil_or_concat names |>.resolve_left nonempty
  have name := named n (by simp)
  have long := List.length_pos_iff.mpr name.nonempty
  have joined : wideJoined (before ++ [n]) = wideJoined before ++ (wideSlash :: n) := by
    rw [wideJoined, List.flatMap_append, List.flatMap_singleton]
    rfl
  rw [List.concat_eq_append, joined]
  refine ⟨by rw [List.length_append, List.length_cons]; omega, fun front last => ?_⟩
  rw [← List.append_assoc, ← List.singleton_append, ← List.append_assoc,
    List.getLast?_append_of_ne_nil _ name.nonempty] at last
  exact name.noBackslash (List.mem_of_getLast? last)

/-- A location with names of a file system. -/
def DirsLocation.Named : DirsLocation → Prop
  | .drive letter names => wideLetter letter ∧ ∀ n ∈ names, DirsName n
  | .unc server share names => ShareName server ∧ ShareName share ∧ ∀ n ∈ names, DirsName n

theorem wideLetter_ne {letter : UInt16} (isLetter : wideLetter letter) : letter ≠ wideSlash := by
  rintro rfl
  revert isLetter
  unfold wideLetter
  decide

theorem unc_joined {server share : Wide} {names : List Wide} (first : ShareName server) (second : ShareName share)
    (rest : ∀ n ∈ names, DirsName n) : ∀ n ∈ server :: share :: names, DirsName n :=
  List.forall_mem_cons.mpr ⟨first.name, List.forall_mem_cons.mpr ⟨second.name, rest⟩⟩

/-- The full path without the separators at its end. -/
structure DirsTrimmed (already : Bool) (full kept : Wide) : Prop where
  length : dirsTrim already full full.length = kept.length
  take : full.take kept.length = kept

theorem DirsTrimmed.plain {already : Bool} {base : Wide} (n : Nat) (nonempty : base ≠ [])
    (last : base.getLast? ≠ some wideSlash)
    (noRoot : ∀ k, base.length < k → driveRoot already (base ++ List.replicate n wideSlash) k = false) :
    DirsTrimmed already (base ++ List.replicate n wideSlash) (base ++ []) := by
  rw [List.append_nil]
  exact ⟨dirsTrim_plain n nonempty last noRoot, take_trimmed base n⟩

theorem DirsTrimmed.root {already : Bool} {base : Wide} {n : Nat} (some : 0 < n)
    (root : driveRoot already (base ++ List.replicate n wideSlash) (base.length + 1) = true)
    (noRoot : ∀ k, base.length + 1 < k → driveRoot already (base ++ List.replicate n wideSlash) k = false) :
    DirsTrimmed already (base ++ List.replicate n wideSlash) (base ++ [wideSlash]) where
  length := by rw [dirsTrim_root some root noRoot, List.length_append, List.length_singleton]
  take := by rw [List.length_append, List.length_singleton, take_root some]

/-- Trailing separators go, but for the one that makes a drive its root. -/
theorem DirsLocation.plain_trimmed {l : DirsLocation} (named : l.Named) {n : Nat}
    (root : l.isDriveRoot = true → 0 < n) :
    DirsTrimmed false (l.plain ++ List.replicate n wideSlash) (l.plain ++ l.kept) := by
  cases l with
  | drive letter names =>
    cases names with
    | nil =>
      exact @DirsTrimmed.root false [letter, wideColon] n (root rfl) rfl fun k far => driveRoot_plain far
    | cons name names =>
      obtain ⟨long, last⟩ := wideJoined_last (List.cons_ne_nil name names) named.2
      refine DirsTrimmed.plain n (List.cons_ne_nil _ _) (last [letter, wideColon]) fun k far => driveRoot_plain ?_
      rw [DirsLocation.plain, List.length_cons, List.length_cons] at far
      omega
  | unc server share names =>
    obtain ⟨long, last⟩ := wideJoined_last (List.cons_ne_nil server (share :: names))
      (unc_joined named.1 named.2.1 named.2.2)
    refine DirsTrimmed.plain n (List.cons_ne_nil _ _) (last [wideSlash]) fun k far => ?_
    have second : ((DirsLocation.unc server share names).plain ++ List.replicate n wideSlash)[1]? =
      some wideSlash := rfl
    rw [driveRoot, second, Bool.false_and, Bool.false_and, Bool.or_false]
    exact Bool.and_false _

/-- The same behind an extended prefix, whose own separators stay. -/
theorem DirsLocation.extended_trimmed {l : DirsLocation} (named : l.Named) {letters : Wide}
    (three : letters.length = 3)
    {n : Nat} (root : l.isDriveRoot = true → 0 < n) :
    DirsTrimmed true (l.extended letters ++ List.replicate n wideSlash) (l.extended letters ++ l.kept) := by
  cases l with
  | drive letter names =>
    cases names with
    | nil =>
      exact @DirsTrimmed.root true (extendedPrefix ++ [letter, wideColon]) n (root rfl) rfl fun k far =>
        driveRoot_far far
    | cons name names =>
      obtain ⟨long, last⟩ := wideJoined_last (List.cons_ne_nil name names) named.2
      refine DirsTrimmed.plain n (List.cons_ne_nil _ _) (last (extendedPrefix ++ [letter, wideColon])) fun k far =>
        driveRoot_far ?_
      rw [DirsLocation.extended, List.length_append, List.length_cons, List.length_cons] at far
      have four : extendedPrefix.length = 4 := rfl
      omega
  | unc server share names =>
    obtain ⟨long, last⟩ := wideJoined_last (List.cons_ne_nil server (share :: names))
      (unc_joined named.1 named.2.1 named.2.2)
    have ended := last (extendedPrefix ++ letters)
    rw [List.append_assoc] at ended
    refine DirsTrimmed.plain n (List.cons_ne_nil _ _) ended fun k far => driveRoot_far ?_
    rw [DirsLocation.extended, List.length_append, List.length_append] at far
    have four : extendedPrefix.length = 4 := rfl
    omega

/-- A full path without a prefix gets the one of its kind: that of a drive
or that of a share. -/
theorem dirsPrefixFull_plain {l : DirsLocation} (named : l.Named) {n : Nat} (root : l.isDriveRoot = true → 0 < n)
    (units : Nat) : (dirsPrefixFull false (l.plain ++ List.replicate n wideSlash) units).Normal wideUnc l := by
  obtain ⟨length, left⟩ := l.plain_trimmed named root
  unfold dirsPrefixFull
  dsimp only
  rw [length, left]
  cases l with
  | drive letter names =>
    have other : (wideSlash == letter) = false := beq_false_of_ne (wideLetter_ne named.1).symm
    have notUnc : (wideAscii "\\\\").isPrefixOf ((DirsLocation.drive letter names).plain ++
        (DirsLocation.drive letter names).kept) = false := by
      change (wideSlash == letter && _) = false
      rw [other, Bool.false_and]
    rw [notUnc]
    exact ⟨rfl, Nat.lt_succ_self _, rfl⟩
  | unc server share names =>
    have isUnc : (wideAscii "\\\\").isPrefixOf ((DirsLocation.unc server share names).plain ++
        (DirsLocation.unc server share names).kept) = true := rfl
    rw [if_neg Bool.false_ne_true, if_pos isUnc]
    refine ⟨rfl, ?_, rfl⟩
    have seven : uncPrefix.length = 7 := rfl
    dsimp only
    rw [List.length_append, List.length_drop, seven]
    omega

theorem dirsUnc_extended {l : DirsLocation} {letters : Wide}
    (isUnc : letters.map wideLower = wideAscii "unc") (rest : Wide) :
    dirsUnc (l.extended letters ++ rest) = l.isUnc := by
  cases l with
  | drive letter names =>
    refine beq_false_of_ne fun same => ?_
    have sixth : (some (wideLower wideColon) : Option UInt16) = some 0x6E := congrArg (·[5]?) same
    cases sixth
  | unc server share names =>
    have three := congrArg List.length isUnc
    rw [List.length_map] at three
    obtain ⟨x, y, z, rfl⟩ := List.length_eq_three.mp three
    have whole := congrArg (fun letters => extendedPrefix ++ (letters ++ [wideSlash])) isUnc
    exact beq_iff_eq.mpr whole

/-- A root that is extended already keeps its own letters of `UNC`. -/
theorem dirsPrefixFull_extended {l : DirsLocation} (named : l.Named) {letters : Wide}
    (isUnc : letters.map wideLower = wideAscii "unc") {n : Nat} (root : l.isDriveRoot = true → 0 < n) {units : Nat}
    (fits : (l.extended letters ++ List.replicate n wideSlash).length < units) :
    (dirsPrefixFull true (l.extended letters ++ List.replicate n wideSlash) units).Normal letters l := by
  have three : letters.length = 3 := by
    have same := congrArg List.length isUnc
    rwa [List.length_map] at same
  obtain ⟨length, left⟩ := l.extended_trimmed named three root
  unfold dirsPrefixFull
  dsimp only
  rw [length, left, if_pos rfl]
  refine ⟨rfl, ?_, ?_⟩
  · have bound := congrArg List.length left
    rw [List.length_take] at bound
    dsimp only
    omega
  · exact dirsUnc_extended isUnc l.kept

/-- Resolving dots drops names and invents none. -/
theorem resolveNames_subset (names : List Wide) : ∀ n ∈ resolveNames names, n ∈ names := by
  have folded : ∀ (names before : List Wide), ∀ n ∈ names.foldl (fun before n => if n = [0x2E] then before
      else if n = [0x2E, 0x2E] then before.dropLast else before ++ [n]) before, n ∈ before ∨ n ∈ names := by
    intro names
    induction names with
    | nil => exact fun before n member => .inl member
    | cons m names ih =>
      intro before n member
      rw [List.foldl_cons] at member
      rcases ih _ n member with earlier | later
      · split_ifs at earlier
        · exact .inl earlier
        · exact .inl (List.dropLast_subset before earlier)
        · rcases List.mem_append.mp earlier with old | new
          · exact .inl old
          · exact .inr (List.mem_cons.mpr (.inl (List.mem_singleton.mp new)))
      · exact .inr (List.mem_cons_of_mem m later)
  exact fun n member => (folded names [] n member).resolve_left List.not_mem_nil

theorem RootSpelling.resolved_from (s : RootSpelling) {names : List SpelledName} {holds : Wide → Prop}
    (each : ∀ p ∈ names, holds p.name) : ∀ n ∈ s.resolved names, holds n := by
  have mapped : ∀ n ∈ names.map SpelledName.name, holds n := List.forall_mem_map.mpr each
  unfold RootSpelling.resolved
  split
  · exact mapped
  · exact fun n member => mapped n (resolveNames_subset _ n member)

theorem RootSpelling.Valid.named {s : RootSpelling} (valid : s.Valid) : s.location.Named := by
  cases s with
  | drive letter names trailing => exact ⟨valid.1, RootSpelling.resolved_from _ valid.2.1⟩
  | unc a b server share names trailing => exact ⟨valid.1, valid.2.1, RootSpelling.resolved_from _ valid.2.2⟩
  | extendedDrive a b c letter names trailing => exact ⟨valid.1, RootSpelling.resolved_from _ valid.2.1⟩
  | extendedUnc a b c letters server share names trailing =>
    exact ⟨valid.2.1, valid.2.2.1, RootSpelling.resolved_from _ valid.2.2.2.1⟩

theorem RootSpelling.Valid.letters {s : RootSpelling} (valid : s.Valid) :
    s.letters.map wideLower = wideAscii "unc" := by
  cases s with
  | extendedUnc a b c letters server share names trailing => exact valid.1
  | _ => rfl

/-- A server is not taken for the extended prefix. -/
theorem dirsExtended_server {x y : UInt16} {server : Wide} (named : ShareName server) (rest : Wide) :
    dirsExtended (x :: y :: (server ++ rest)) = false := by
  refine Bool.eq_false_iff.mpr fun isPrefix => ?_
  obtain ⟨tail, same⟩ := List.isPrefixOf_iff_prefix.mp isPrefix
  have after : server ++ rest = 0x3F :: wideSlash :: tail :=
    (List.cons.inj (List.cons.inj same).2).2.symm
  cases server with
  | nil => exact named.name.nonempty rfl
  | cons u server =>
    obtain ⟨first, after⟩ := List.cons.inj after
    cases server with
    | nil => exact named.noPrefix (congrArg (fun u => [u]) first)
    | cons v server =>
      have second : v = wideSlash := (List.cons.inj after).1
      exact named.name.noBackslash (second ▸ List.mem_cons_of_mem _ List.mem_cons_self)

/-- A spelling counts as extended exactly where it is a verbatim one. -/
theorem RootSpelling.Valid.extended {s : RootSpelling} (valid : s.Valid) : dirsExtended s.text = s.verbatim := by
  cases s with
  | drive letter names trailing =>
    have other : (wideSlash == letter) = false := beq_false_of_ne (wideLetter_ne valid.1).symm
    change (wideSlash == letter && _) = false
    rw [other, Bool.false_and]
  | unc a b server share names trailing => exact dirsExtended_server valid.1 _
  | extendedDrive a b c letter names trailing => cases a <;> cases b <;> cases c <;> rfl
  | extendedUnc a b c letters server share names trailing => cases a <;> cases b <;> cases c <;> rfl

/-- The full path of a root that is not verbatim has the prefix where it has
been written. -/
theorem RootSpelling.full_extended {s : RootSpelling} (valid : s.Valid) (n : Nat) :
    (dirsExtended (s.full n) = false ∧ s.full n = s.location.plain ++ List.replicate n wideSlash ∧
      s.letters = wideUnc) ∨
      dirsExtended (s.full n) = true ∧ s.full n = s.location.extended s.letters ++ List.replicate n wideSlash := by
  cases s with
  | drive letter names trailing =>
    have other : (wideSlash == letter) = false := beq_false_of_ne (wideLetter_ne valid.1).symm
    refine .inl ⟨?_, rfl, rfl⟩
    change (wideSlash == letter && _) = false
    rw [other, Bool.false_and]
  | unc a b server share names trailing =>
    refine .inl ⟨?_, rfl, rfl⟩
    have front := dirsExtended_server (x := wideSlash) (y := wideSlash) valid.1
      (wideJoined (share.name :: RootSpelling.resolved (.unc a b server share names trailing) names) ++
        List.replicate n wideSlash)
    rw [← List.append_assoc] at front
    exact front
  | extendedDrive a b c letter names trailing => exact .inr ⟨rfl, rfl⟩
  | extendedUnc a b c letters server share names trailing => exact .inr ⟨rfl, rfl⟩

theorem spelledRest_verbatim {names : List SpelledName} {trailing : List Bool} (plain : ∀ p ∈ names, p.Plain)
    (ends : ∀ t ∈ trailing, t = false) :
    spelledRest names trailing = wideJoined (names.map SpelledName.name) ++
      List.replicate trailing.length wideSlash := by
  have joined : names.flatMap SpelledName.text = wideJoined (names.map SpelledName.name) := by
    rw [wideJoined, List.flatMap_map]
    refine List.flatMap_congr fun p member => ?_
    obtain ⟨slash, more⟩ := plain p member
    rw [SpelledName.text, slash, more]
    rfl
  have behind : trailing.map sepUnit = List.replicate trailing.length wideSlash := by
    refine List.eq_replicate_iff.mpr ⟨List.length_map _, fun u member => ?_⟩
    obtain ⟨t, inside, rfl⟩ := List.mem_map.mp member
    rw [ends t inside]
    rfl
  rw [spelledRest, joined, behind]

/-- A verbatim spelling is the extended path of its location, but for
separators at its end. -/
theorem RootSpelling.verbatim_text {s : RootSpelling} (valid : s.Valid) (verbatim : s.verbatim = true) :
    ∃ n, s.text = s.location.extended s.letters ++ List.replicate n wideSlash ∧
      (s.location.isDriveRoot = true → 0 < n) := by
  have literal : ∀ names, s.resolved names = names.map SpelledName.name := fun names => if_pos verbatim
  cases s with
  | drive letter names trailing => cases verbatim
  | unc a b server share names trailing => cases verbatim
  | extendedDrive a b c letter names trailing =>
    obtain ⟨-, -, absolute, rest⟩ := valid
    have backslashes : (!a && !b && !c) = true := verbatim
    rw [ExtendedRest, if_pos backslashes, List.nil_append] at rest
    obtain ⟨⟨rfl, rfl⟩, rfl⟩ : (a = false ∧ b = false) ∧ c = false := by simpa using backslashes
    refine ⟨trailing.length, ?_, fun isRoot => ?_⟩
    · rw [RootSpelling.text, spelledRest_verbatim rest.1 rest.2, RootSpelling.location, literal]
      exact (List.append_assoc extendedPrefix (_ :: _ :: _) _).symm
    · rw [RootSpelling.location, literal, DirsLocation.isDriveRoot, List.isEmpty_iff, List.map_eq_nil_iff] at isRoot
      exact List.length_pos_iff.mpr (absolute isRoot)
  | extendedUnc a b c letters server share names trailing =>
    obtain ⟨-, -, -, -, rest⟩ := valid
    have backslashes : (!a && !b && !c) = true := verbatim
    rw [ExtendedRest, if_pos backslashes] at rest
    obtain ⟨⟨rfl, rfl⟩, rfl⟩ : (a = false ∧ b = false) ∧ c = false := by simpa using backslashes
    refine ⟨trailing.length, ?_, fun isRoot => by cases isRoot⟩
    have read := @spelledRest_verbatim (server :: share :: names) trailing rest.1 rest.2
    rw [RootSpelling.text, read, RootSpelling.location, literal, DirsLocation.extended, List.append_assoc,
      List.append_assoc]
    rfl

def wideDecodes (w : Wide) : Prop := (Utf16.decode w).isSome = true

theorem sepUnit_single (t : Bool) : ¬ (Utf16.IsHigh (sepUnit t) ∨ Utf16.IsLow (sepUnit t)) := by
  cases t <;> decide

theorem wideDecodes_cons {u : UInt16} (single : ¬ (Utf16.IsHigh u ∨ Utf16.IsLow u)) {w : Wide} :
    wideDecodes (u :: w) ↔ wideDecodes w := by
  rw [wideDecodes, wideDecodes, Utf16.decode_cons_single single, Option.isSome_map]

theorem wideDecodes_seps {ts : List Bool} {w : Wide} : wideDecodes (ts.map sepUnit ++ w) ↔ wideDecodes w := by
  induction ts with
  | nil => exact Iff.rfl
  | cons t ts ih => exact (wideDecodes_cons (sepUnit_single t)).trans ih

theorem wideDecodes_append {a b : Wide} (first : wideDecodes a) : wideDecodes (a ++ b) ↔ wideDecodes b := by
  obtain ⟨cs, read⟩ := Option.isSome_iff_exists.mp first
  rw [wideDecodes, wideDecodes, Utf16.decode_append read, Option.isSome_map]

/-- The names of a text that is decoded are. -/
theorem spelledRest_decodes {front : Wide} {names : List SpelledName} {trailing : List Bool}
    (whole : wideDecodes (front ++ spelledRest names trailing)) :
    wideDecodes front ∧ ∀ p ∈ names, wideDecodes p.name := by
  induction names generalizing front with
  | nil =>
    refine ⟨?_, List.forall_mem_nil _⟩
    cases trailing with
    | nil => rwa [spelledRest, List.flatMap_nil, List.map_nil, List.append_nil, List.append_nil] at whole
    | cons t trailing => exact (Utf16.decode_sides (sepUnit_single t) whole).1
  | cons p names ih =>
    have split : front ++ spelledRest (p :: names) trailing =
        front ++ sepUnit p.slash :: (p.more.map sepUnit ++ (p.name ++ spelledRest names trailing)) := by
      simp only [spelledRest, List.flatMap_cons, SpelledName.text, List.append_assoc, List.cons_append]
    rw [split] at whole
    obtain ⟨before, behind⟩ := Utf16.decode_sides (sepUnit_single p.slash) whole
    obtain ⟨here, later⟩ := ih (wideDecodes_seps.mp behind)
    exact ⟨before, List.forall_mem_cons.mpr ⟨here, later⟩⟩

theorem wideLetter_single {letter : UInt16} (isLetter : wideLetter letter) :
    ¬ (Utf16.IsHigh letter ∨ Utf16.IsLow letter) := by
  unfold wideLetter at isLetter
  simp only [UInt16.le_iff_toNat_le] at isLetter
  have bounds : letter.toNat ≤ 0x7A := by
    rcases isLetter with ⟨-, upper⟩ | ⟨-, upper⟩
    · exact Nat.le_trans upper (by decide)
    · exact upper
  unfold Utf16.IsHigh Utf16.IsLow
  omega

/-- A path decodes where its names do. -/
theorem wideDecodes_joined {names : List Wide} (each : ∀ n ∈ names, wideDecodes n) (w : Wide) :
    wideDecodes (wideJoined names ++ w) ↔ wideDecodes w := by
  induction names with
  | nil => exact Iff.rfl
  | cons n names ih =>
    obtain ⟨first, rest⟩ := List.forall_mem_cons.mp each
    have split : wideJoined (n :: names) ++ w = wideSlash :: (n ++ (wideJoined names ++ w)) := by
      simp only [wideJoined, List.flatMap_cons, List.append_assoc, List.cons_append]
    rw [split]
    exact (wideDecodes_cons (sepUnit_single false)).trans ((wideDecodes_append first).trans (ih rest))

/-- A location is decoded where the text of the root is. -/
theorem RootSpelling.Valid.decodes {s : RootSpelling} (valid : s.Valid) (read : wideDecodes s.text) :
    wideDecodes (s.location.plain ++ s.location.kept) := by
  have kept : wideDecodes s.location.kept := by
    unfold DirsLocation.kept
    split
    · exact (wideDecodes_cons (sepUnit_single false)).mpr rfl
    · rfl
  have drive : ∀ {letter : UInt16} {names : List Wide}, wideLetter letter → (∀ n ∈ names, wideDecodes n) →
    ∀ w, wideDecodes w →
      wideDecodes ((DirsLocation.drive letter names).plain ++ w) := by
    intro letter names isLetter each w rest
    have colon : ¬ (Utf16.IsHigh wideColon ∨ Utf16.IsLow wideColon) := by decide
    exact (wideDecodes_cons (wideLetter_single isLetter)).mpr
      ((wideDecodes_cons colon).mpr ((wideDecodes_joined each w).mpr rest))
  have unc : ∀ {server share : Wide} {names : List Wide}, (∀ n ∈ server :: share :: names, wideDecodes n) →
      wideDecodes ((DirsLocation.unc server share names).plain ++ []) := by
    intro server share names each
    exact (wideDecodes_cons (sepUnit_single false)).mpr ((wideDecodes_joined each []).mpr rfl)
  have colon : ¬ (Utf16.IsHigh wideColon ∨ Utf16.IsLow wideColon) := by decide
  have mark : ¬ (Utf16.IsHigh 0x3F ∨ Utf16.IsLow 0x3F) := by decide
  have unprefixed : ∀ {a b c : Bool} {w : Wide}, wideDecodes (spelledPrefix a b c ++ w) → wideDecodes w := by
    intro a b c w whole
    have whole := (wideDecodes_cons (sepUnit_single b)).mp ((wideDecodes_cons (sepUnit_single a)).mp whole)
    exact (wideDecodes_cons (sepUnit_single c)).mp ((wideDecodes_cons mark).mp whole)
  cases s with
  | drive letter names trailing =>
    have rest := (wideDecodes_cons colon).mp ((wideDecodes_cons (wideLetter_single valid.1)).mp read)
    exact drive valid.1 (RootSpelling.resolved_from _ (@spelledRest_decodes [] names trailing rest).2) _ kept
  | unc a b server share names trailing =>
    have rest := (wideDecodes_cons (sepUnit_single b)).mp ((wideDecodes_cons (sepUnit_single a)).mp read)
    obtain ⟨first, others⟩ := spelledRest_decodes rest
    obtain ⟨second, names_ok⟩ := List.forall_mem_cons.mp others
    exact unc (List.forall_mem_cons.mpr ⟨first, List.forall_mem_cons.mpr
      ⟨second, RootSpelling.resolved_from _ names_ok⟩⟩)
  | extendedDrive a b c letter names trailing =>
    have rest := (wideDecodes_cons colon).mp ((wideDecodes_cons (wideLetter_single valid.1)).mp (unprefixed read))
    exact drive valid.1 (RootSpelling.resolved_from _ (@spelledRest_decodes [] names trailing rest).2) _ kept
  | extendedUnc a b c letters server share names trailing =>
    obtain ⟨-, others⟩ := spelledRest_decodes (unprefixed read)
    obtain ⟨first, others⟩ := List.forall_mem_cons.mp others
    obtain ⟨second, names_ok⟩ := List.forall_mem_cons.mp others
    exact unc (List.forall_mem_cons.mpr ⟨first, List.forall_mem_cons.mpr
      ⟨second, RootSpelling.resolved_from _ names_ok⟩⟩)

/-- What is accepted is prefixed, as it is written or as its full path. -/
theorem dirsPrefix_ok {g : FullPathName} {root : Bytes} {p : DirsPrefixed} (accepted : dirsPrefix g root = .ok p) :
    ∃ raw, mtUtf8ToWide true root = some raw ∧
      (dirsExtended raw = true ∧ p = dirsPrefixFull true raw (raw.length + 1) ∨
        dirsExtended raw = false ∧ (g.fill raw (g.need raw)).1 < g.need raw ∧
          p = dirsPrefixFull (dirsExtended (g.fill raw (g.need raw)).2)
            (g.fill raw (g.need raw)).2 (g.need raw)) := by
  unfold dirsPrefix at accepted
  dsimp only at accepted
  split_ifs at accepted
  cases read : mtUtf8ToWide true root with
  | none =>
    rw [read] at accepted
    cases accepted
  | some raw =>
    rw [read] at accepted
    dsimp only at accepted
    split_ifs at accepted with already rewritten unusable short
    · exact ⟨raw, rfl, .inl ⟨already, (Except.ok.inj accepted).symm⟩⟩
    · exact ⟨raw, rfl, .inr ⟨Bool.eq_false_iff.mpr already, Nat.not_le.mp (not_or.mp short).2,
        (Except.ok.inj accepted).symm⟩⟩

/-- Every accepted spelling of a root comes to the normal form of its
location, whether it is verbatim or goes through `GetFullPathNameW`. -/
theorem dirsPrefix_normal {g : FullPathName} {root : Bytes} {p : DirsPrefixed} {s : RootSpelling} (valid : s.Valid)
    (spelled : mtUtf8ToWide true root = some s.text) (tells : g.Tells s) (accepted : dirsPrefix g root = .ok p) :
    p.Normal s.letters s.location := by
  obtain ⟨raw, read, how⟩ := dirsPrefix_ok accepted
  obtain rfl := Option.some.inj (read.symm.trans spelled)
  rw [valid.extended] at how
  rcases how with ⟨verbatim, rfl⟩ | ⟨normalised, short, rfl⟩
  · obtain ⟨n, same, isRoot⟩ := s.verbatim_text valid verbatim
    rw [same]
    exact dirsPrefixFull_extended valid.named valid.letters isRoot (Nat.lt_succ_self _)
  · obtain ⟨n, isRoot, need, fill⟩ := tells normalised
    rw [fill]
    dsimp only
    rcases s.full_extended valid n with ⟨flag, same, letters⟩ | ⟨flag, same⟩
    · rw [flag, letters, same]
      exact dirsPrefixFull_plain valid.named isRoot _
    · rw [fill] at short
      rw [flag]
      rw [same] at short ⊢
      exact dirsPrefixFull_extended valid.named valid.letters isRoot short

/-- How a root is shown, whose prefix is there once. -/
structure DirsPrefixed.Shown (p : DirsPrefixed) (l : DirsLocation) : Prop where
  once : extendedPrefix <+: p.path ∧ ¬ extendedPrefix <+: p.path.drop 4
  shown : ∃ text, dirsStrip p.unc p.path = some text ∧ mtWideToUtf8 true l.shown = some text

theorem mtWideToUtf8_slashed {w : Wide} (nonempty : w ≠ []) (decodes : wideDecodes w) :
    ∃ text, mtWideToUtf8 true (wideSlashed w) = some text := by
  obtain ⟨cs, read⟩ := Option.isSome_iff_exists.mp decodes
  have some : wideSlashed w ≠ [] := fun empty => nonempty (List.map_eq_nil_iff.mp empty)
  refine ⟨(cs.map slashCode).flatMap Utf8.encode, ?_⟩
  rw [mtWideToUtf8, if_neg (not_or.mpr ⟨some, Bool.noConfusion⟩), decode_slashed, read]
  rfl

theorem extendedPrefix_not {u : UInt16} (other : u ≠ wideSlash) (w : Wide) : ¬ extendedPrefix <+: u :: w :=
  fun ⟨_, same⟩ => other (List.cons.inj same).1.symm

/-- What is shown of a normal form is its plain path. -/
theorem DirsPrefixed.Normal.isShown {p : DirsPrefixed} {letters : Wide} {l : DirsLocation}
    (normal : p.Normal letters l)
    (named : l.Named) (isUnc : letters.map wideLower = wideAscii "unc")
    (decodes : wideDecodes (l.plain ++ l.kept)) :
    p.Shown l := by
  obtain ⟨path, -, unc⟩ := normal
  cases l with
  | drive letter names =>
    obtain ⟨text, converted⟩ := mtWideToUtf8_slashed (List.cons_ne_nil _ _) decodes
    refine ⟨⟨path ▸ List.prefix_append _ _, path ▸ extendedPrefix_not (wideLetter_ne named.1) _⟩,
      text, ?_, converted⟩
    rw [unc, path]
    exact (@dirsStrip_rest (extendedPrefix ++ ((DirsLocation.drive letter names).plain ++
      (DirsLocation.drive letter names).kept)) _ false rfl (List.cons_ne_nil _ _)).trans converted
  | unc server share names =>
    have three := congrArg List.length isUnc
    rw [List.length_map] at three
    obtain ⟨x, y, z, rfl⟩ := List.length_eq_three.mp three
    have other : x ≠ wideSlash := by
      rintro rfl
      exact absurd (List.cons.inj isUnc).1 (by decide)
    obtain ⟨text, converted⟩ := mtWideToUtf8_slashed (List.cons_ne_nil _ _) decodes
    refine ⟨⟨path ▸ List.prefix_append _ _, path ▸ extendedPrefix_not other _⟩, text, ?_, converted⟩
    rw [unc, path]
    have nonempty : server ++ wideJoined (share :: names) ++ [] ≠ [] := by
      rw [List.append_nil]
      exact List.append_ne_nil_of_left_ne_nil named.1.name.nonempty _
    exact (@dirsStrip_rest (extendedPrefix ++ (([x, y, z] ++ wideJoined (server :: share :: names)) ++ []))
      (server ++ wideJoined (share :: names) ++ []) true rfl nonempty).trans converted

/-- Roots that are accepted and lead to the same location are prefixed alike
and shown as that location. Only the case of the letters UNC is kept. -/
theorem dirsPrefix_spelling {g g' : FullPathName} {root root' : Bytes} {p p' : DirsPrefixed} {s s' : RootSpelling}
    (valid : s.Valid) (spelled : mtUtf8ToWide true root = some s.text) (tells : g.Tells s)
    (accepted : dirsPrefix g root = .ok p) (valid' : s'.Valid) (spelled' : mtUtf8ToWide true root' = some s'.text)
    (tells' : g'.Tells s') (accepted' : dirsPrefix g' root' = .ok p') (same : s.location = s'.location) :
    p.Normal s.letters s.location ∧ p.Shown s.location ∧ p'.Normal s'.letters s.location ∧ p'.Shown s.location ∧
      p.unc = p'.unc ∧ dirsStrip p.unc p.path = dirsStrip p'.unc p'.path ∧
        (s.letters = s'.letters → p.path = p'.path) := by
  have normal := dirsPrefix_normal valid spelled tells accepted
  have normal' := dirsPrefix_normal valid' spelled' tells' accepted'
  have shown := normal.isShown valid.named valid.letters (valid.decodes (mtUtf8ToWide_decodes spelled))
  have shown' := normal'.isShown valid'.named valid'.letters (valid'.decodes (mtUtf8ToWide_decodes spelled'))
  rw [← same] at normal' shown'
  obtain ⟨text, strip, converted⟩ := shown.shown
  obtain ⟨text', strip', converted'⟩ := shown'.shown
  refine ⟨normal, shown, normal', shown', normal.unc.trans normal'.unc.symm, ?_, fun letters => ?_⟩
  · rw [strip, strip', ← converted, ← converted']
  · rw [normal.path, normal'.path, letters]

/-- `GetFullPathNameW` for the directory `r` of a drive. -/
def directoryFullPath (n : Nat) : FullPathName where
  need _ := 5 + n
  fill _ _ := (4 + n, wideAscii "C:\\r" ++ List.replicate n wideSlash)

def slashedDirectory : RootSpelling := .drive 0x43 [⟨true, [false], wideAscii "r"⟩] [true]

def plainDirectory : RootSpelling := .drive 0x43 [⟨false, [], wideAscii "r"⟩] []

theorem dirsName_r : DirsName (wideAscii "r") := ⟨by decide, by decide, by decide, by decide⟩

theorem dirsPrefix_spelling_sample :
    ∃ p p', dirsPrefix (directoryFullPath 1) (ascii "C:/\\r/") = .ok p ∧
      dirsPrefix (directoryFullPath 0) (ascii "C:\\r") = .ok p' ∧ p.Normal wideUnc (.drive 0x43 [wideAscii "r"]) ∧
      p.Shown (.drive 0x43 [wideAscii "r"]) ∧ dirsStrip p.unc p.path = dirsStrip p'.unc p'.path ∧
        p.path = p'.path := by
  have names : ∀ p ∈ [(⟨true, [false], wideAscii "r"⟩ : SpelledName)], DirsName p.name :=
    List.forall_mem_singleton.mpr dirsName_r
  have names' : ∀ p ∈ [(⟨false, [], wideAscii "r"⟩ : SpelledName)], DirsName p.name :=
    List.forall_mem_singleton.mpr dirsName_r
  have valid : slashedDirectory.Valid :=
    ⟨.inl ⟨by decide, by decide⟩, names, fun empty => absurd empty (List.cons_ne_nil _ _)⟩
  have valid' : plainDirectory.Valid :=
    ⟨.inl ⟨by decide, by decide⟩, names', fun empty => absurd empty (List.cons_ne_nil _ _)⟩
  have tells : (directoryFullPath 1).Tells slashedDirectory := fun _ => ⟨1, fun _ => Nat.one_pos, rfl, rfl⟩
  have tells' : (directoryFullPath 0).Tells plainDirectory :=
    fun _ => ⟨0, fun root => Bool.noConfusion root, rfl, rfl⟩
  have accepted : dirsPrefix (directoryFullPath 1) (ascii "C:/\\r/") = .ok ⟨wideAscii "\\\\?\\C:\\r", false, 9⟩ :=
    rfl
  have accepted' : dirsPrefix (directoryFullPath 0) (ascii "C:\\r") = .ok ⟨wideAscii "\\\\?\\C:\\r", false, 9⟩ :=
    rfl
  obtain ⟨normal, shown, -, -, -, same, alike⟩ :=
    dirsPrefix_spelling valid rfl tells accepted valid' rfl tells' accepted' rfl
  exact ⟨_, _, accepted, accepted', normal, shown, same, alike rfl⟩

/-- Behind the prefix with backslashes a forward slash stays at the end, and
two spellings with it have two results. -/
theorem dirsPrefix_literal :
    ∃ p p', dirsPrefix (directoryFullPath 0) (ascii "\\\\?\\C:/r/") = .ok p ∧
      dirsStrip p.unc p.path = some (ascii "C:/r/") ∧
      dirsPrefix (directoryFullPath 0) (ascii "\\\\?\\C:\\r") = .ok p' ∧
        dirsStrip p'.unc p'.path = some (ascii "C:/r") ∧
      p.path ≠ p'.path :=
  ⟨⟨wideAscii "\\\\?\\C:/r/", false, 10⟩, ⟨wideAscii "\\\\?\\C:\\r", false, 9⟩, rfl, rfl, rfl, rfl, by decide⟩

end Machteld
