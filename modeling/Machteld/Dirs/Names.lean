import Machteld.Dirs.Tree
import Machteld.Utf8Order

namespace Machteld

/-- A name that a file system can give to an entry. -/
structure DirsName (n : Wide) : Prop where
  nonempty : n ≠ []
  noNul : 0 ∉ n
  noBackslash : wideSlash ∉ n
  noSlash : 0x2F ∉ n

def codePoints (w : Wide) : List Nat := (Utf16.decode w).getD []

/-- The names of a path. -/
def wideNames (s : Wide) : List Wide := (s.splitOn wideSlash).filter fun n => !n.isEmpty

theorem wideNames_single {n : Wide} (name : DirsName n) : wideNames n = [n] := by
  rw [wideNames, List.splitOn_eq_singleton name.noBackslash]
  simp only [List.filter_cons, List.isEmpty_eq_false_iff.mpr name.nonempty, Bool.not_false, if_true,
    List.filter_nil]

theorem wideNames_separated {n : Wide} (name : DirsName n) (s : Wide) :
    wideNames (s ++ wideSlash :: n) = wideNames s ++ [n] := by
  rw [wideNames, List.splitOn_append_cons_self, List.filter_append]
  exact congrArg _ (wideNames_single name)

theorem wideNames_trailing (s : Wide) : wideNames (s ++ [wideSlash]) = wideNames s := by
  rw [wideNames, List.splitOn_append_cons_self, List.filter_append, List.splitOn_nil]
  exact List.append_nil _

/-- A name behind a path that ends in a separator or is none at all. -/
theorem wideNames_joined {n : Wide} (name : DirsName n) {s : Wide} (ended : s = [] ∨ s.getLast? = some wideSlash) :
    wideNames (s ++ n) = wideNames s ++ [n] := by
  rcases ended with rfl | last
  · exact wideNames_single name
  · obtain ⟨front, rfl⟩ := List.getLast?_eq_some_iff.mp last
    rw [List.append_assoc, wideNames_trailing]
    exact wideNames_separated name front

/-- A name is put behind what is below the root. -/
theorem dirsJoin_below {n : Wide} (name : DirsName n) (rootw s : Wide) :
    ∃ sep : Wide, dirsJoin (rootw ++ s) n = rootw ++ (s ++ (sep ++ n)) ∧ (sep = [] ∨ sep = [wideSlash]) ∧
      wideNames (s ++ (sep ++ n)) = wideNames s ++ [n] := by
  unfold dirsJoin
  by_cases separated : rootw ++ s ≠ [] ∧ (rootw ++ s).getLast? ≠ some wideSlash
  · rw [if_pos separated, List.append_assoc]
    exact ⟨[wideSlash], rfl, .inr rfl, wideNames_separated name s⟩
  · rw [if_neg separated, List.append_assoc]
    refine ⟨[], rfl, .inl rfl, wideNames_joined name ?_⟩
    by_cases empty : s = []
    · exact .inl empty
    · refine .inr ?_
      rw [not_and, Decidable.not_not, List.getLast?_append_of_ne_nil _ empty] at separated
      exact separated fun absurd => empty (List.append_eq_nil_iff.mp absurd).2

/-- A root as it is prefixed. -/
structure DirsRooted (unc : Bool) (rootw : Wide) : Prop where
  prefixed : (if unc then 8 else 4) ≤ rootw.length
  converts : (Utf16.decode (rootw.drop (if unc then 8 else 4))).isSome

/-- A path of the tree of a root, with names that are converted. -/
def Spelled (rootw path : Wide) : Prop := ∃ s, path = rootw ++ s ∧ (Utf16.decode s).isSome ∧ 0x2F ∉ s

theorem Spelled.root (rootw : Wide) : Spelled rootw rootw :=
  ⟨[], (List.append_nil _).symm, rfl, List.not_mem_nil⟩

/-- A name below a path that is spelled is spelled. -/
theorem Spelled.join {rootw path n : Wide} (spelled : Spelled rootw path) (name : DirsName n)
    (converts : (Utf16.decode n).isSome) : Spelled rootw (dirsJoin path n) := by
  obtain ⟨s, rfl, decodes, noSlash⟩ := spelled
  obtain ⟨sep, joined, separator, -⟩ := dirsJoin_below name rootw s
  refine ⟨_, joined, ?_, ?_⟩
  · obtain ⟨cs, read⟩ := Option.isSome_iff_exists.mp decodes
    rw [Utf16.decode_append read, Option.isSome_map]
    rcases separator with rfl | rfl
    · exact converts
    · have single : ¬ (Utf16.IsHigh wideSlash ∨ Utf16.IsLow wideSlash) := by decide
      rw [List.singleton_append, Utf16.decode_cons_single single, Option.isSome_map]
      exact converts
  · rw [List.mem_append, List.mem_append]
    rintro (inPath | inSep | inName)
    · exact noSlash inPath
    · rcases separator with rfl | rfl
      · exact List.not_mem_nil inSep
      · exact absurd (List.mem_singleton.mp inSep) (by decide)
    · exact name.noSlash inName

/-- The names of a path below the root. -/
def namesBelow (rootw path : Wide) : List Wide := wideNames (path.drop rootw.length)

theorem namesBelow_join {rootw path n : Wide} (spelled : Spelled rootw path) (name : DirsName n) :
    namesBelow rootw (dirsJoin path n) = namesBelow rootw path ++ [n] := by
  obtain ⟨s, rfl, -, -⟩ := spelled
  obtain ⟨sep, joined, -, names⟩ := dirsJoin_below name rootw s
  rw [joined, namesBelow, namesBelow, List.drop_left, List.drop_left, names]

/-- Names without slashes are told apart after backslashes have become
slashes. -/
theorem slashed_injective {s t : Bytes} (left : 0x2F ∉ s) (right : 0x2F ∉ t)
    (same : (s.map fun c => if c = backslash then 0x2F else c) = t.map fun c => if c = backslash then 0x2F else c) :
    s = t := by
  have back : ∀ s : Bytes, 0x2F ∉ s →
      ((s.map fun c => if c = backslash then 0x2F else c).map fun c => if c = 0x2F then backslash else c) = s := by
    intro s noSlash
    rw [List.map_map]
    refine (List.map_congr_left fun c member => ?_).trans s.map_id
    by_cases isBackslash : c = backslash
    · simp only [Function.comp, isBackslash, if_true, id]
    · have other : c ≠ 0x2F := fun absurd => noSlash (absurd ▸ member)
      simp only [Function.comp, isBackslash, if_false, other, id]
  rw [← back s left, same, back t right]

/-- A name without a slash has none in its UTF-8 form. -/
theorem noSlash_encoded {s : Wide} {cs : List Nat} (read : Utf16.decode s = some cs) (noSlash : 0x2F ∉ s) :
    (0x2F : UInt8) ∉ cs.flatMap Utf8.encode := by
  intro member
  obtain ⟨bound, spells⟩ := Utf16.decode_some read
  have inside := Utf8.slash_mem_flatMap_encode bound (by decide) member
  have unit : (0x2F : UInt16) ∈ cs.flatMap Utf16.units := List.mem_flatMap.mpr ⟨_, inside, by decide⟩
  rw [spells] at unit
  exact noSlash unit

/-- What is shown of a path of the tree. -/
theorem dirsStrip_spelled {unc : Bool} {rootw s : Wide} {cs : List Nat} (root : DirsRooted unc rootw)
    (read : Utf16.decode s = some cs) :
    ∃ front, dirsStrip unc (rootw ++ s) =
      some (front ++ (cs.flatMap Utf8.encode).map fun c => if c = backslash then 0x2F else c) ∧
      dirsStrip unc rootw = some front := by
  obtain ⟨rs, readRoot⟩ := Option.isSome_iff_exists.mp root.converts
  refine ⟨_, ?_, by rw [dirsStrip, readRoot]; rfl⟩
  rw [dirsStrip, List.drop_append_of_le_length root.prefixed, Utf16.decode_append readRoot, read]
  simp only [Option.map_some, List.flatMap_append, ← List.append_assoc, List.map_append]

theorem dirsStrip_isSome {unc : Bool} {rootw path : Wide} (root : DirsRooted unc rootw)
    (spelled : Spelled rootw path) :
    ∃ shown, dirsStrip unc path = some shown := by
  obtain ⟨s, rfl, decodes, -⟩ := spelled
  obtain ⟨cs, read⟩ := Option.isSome_iff_exists.mp decodes
  obtain ⟨front, shown, -⟩ := dirsStrip_spelled root read
  exact ⟨_, shown⟩

/-- Two paths of a tree that are shown alike are the same. -/
theorem dirsStrip_injective {unc : Bool} {rootw path path' : Wide} (root : DirsRooted unc rootw)
    (spelled : Spelled rootw path) (spelled' : Spelled rootw path')
    (same : dirsStrip unc path = dirsStrip unc path') :
    path = path' := by
  obtain ⟨s, rfl, decodes, noSlash⟩ := spelled
  obtain ⟨t, rfl, decodes', noSlash'⟩ := spelled'
  obtain ⟨cs, read⟩ := Option.isSome_iff_exists.mp decodes
  obtain ⟨ds, read'⟩ := Option.isSome_iff_exists.mp decodes'
  obtain ⟨front, shown, ofRoot⟩ := dirsStrip_spelled root read
  obtain ⟨front', shown', ofRoot'⟩ := dirsStrip_spelled root read'
  obtain rfl := Option.some.inj (ofRoot.symm.trans ofRoot')
  rw [shown, shown'] at same
  have bytes := slashed_injective (noSlash_encoded read noSlash) (noSlash_encoded read' noSlash')
    (List.append_cancel_left (Option.some.inj same))
  obtain rfl := Utf8.flatMap_encode_injective (Utf16.decode_some read).1 (Utf16.decode_some read').1 bytes
  rw [Utf16.decode_injective read read']

end Machteld
