import Machteld.Json.Plain

namespace Machteld

mutual

/-- A Tcl dict has each key once. -/
def Obj.Lawful : Obj → Prop
  | .list items => LawfulItems items
  | .dict entries => (entries.map Prod.fst).Nodup ∧ LawfulEntries entries
  | _ => True

def LawfulItems : List Obj → Prop
  | [] => True
  | item :: items => item.Lawful ∧ LawfulItems items

def LawfulEntries : List (Bytes × Obj) → Prop
  | [] => True
  | (_, value) :: entries => value.Lawful ∧ LawfulEntries entries

end

mutual

theorem Obj.Lawful.plain : ∀ {v : Obj}, v.Lawful → v.typedValues = [] → v.Plain fun _ => True
  | .str _, _, _ => trivial
  | .list _, lawful, untyped => LawfulItems.plain lawful untyped
  | .dict _, lawful, untyped => ⟨lawful.1, LawfulEntries.plain lawful.2 untyped⟩
  | .typed _, _, untyped => nomatch untyped

theorem LawfulItems.plain : ∀ {items : List Obj}, LawfulItems items → typedOfItems items = [] →
    PlainItems (fun _ => True) items
  | [], _, _ => trivial
  | _ :: _, lawful, untyped =>
    have parts := List.append_eq_nil_iff.mp untyped
    ⟨lawful.1.plain parts.1, LawfulItems.plain lawful.2 parts.2⟩

theorem LawfulEntries.plain : ∀ {entries : List (Bytes × Obj)}, LawfulEntries entries →
    typedOfEntries entries = [] →
    PlainEntries (fun _ => True) entries
  | [], _, _ => trivial
  | (_, _) :: _, lawful, untyped =>
    have parts := List.append_eq_nil_iff.mp untyped
    ⟨trivial, lawful.1.plain parts.1, LawfulEntries.plain lawful.2 parts.2⟩

end

/-- The documented behaviour of Tcl the scripts rely on. The text of a dict
is its words behind one another, the first one spelled on its own; `expr`
leaves a value alone or returns the formatted number it holds, and raises
only for a NaN, with a code of several words. -/
structure Tcl.Spec (tcl : Tcl) : Prop where
  dict_text : ∃ word : Bytes → Bytes, word (ascii "id") = ascii "id" ∧
    ∀ key value entries, ∃ text, tcl.stringOf (.dict ((key, value) :: entries)) = word key ++ space :: text
  text_wellFormed : ∀ v, v.Plain Utf8.WellFormed → Utf8.WellFormed (tcl.stringOf v)
  dict_lawful : ∀ v entries, v.Lawful → tcl.dictOf v = .ok entries → (Obj.dict entries).Lawful
  expr_value : ∀ v w, tcl.exprOf v = .ok w → w = v ∨ ∃ s, w = .str s ∧ ∀ c ∈ s, c.toNat < 0x80
  expr_again : ∀ v w, tcl.exprOf v = .ok w → tcl.exprOf w = .ok w
  expr_minus : tcl.exprOf (.str (ascii "-1")) = .ok (.str (ascii "-1"))
  expr_words : ∀ a b items, tcl.exprOf (.list (a :: b :: items)) = .ok (.list (a :: b :: items))
  expr_error : ∀ v e, tcl.exprOf v = .error e → Utf8.WellFormed e.message ∧
    ∃ a b words, e.errorcode = a :: b :: words ∧ ∀ word ∈ e.errorcode, Utf8.WellFormed word

/-- A word with a space in it is no option. -/
theorem option_no_space {s : Bytes} (option : IsOptionWord s) : space ∉ cString s := by
  simp only [IsOptionWord, optionWords, List.mem_cons, List.not_mem_nil, or_false] at option
  rcases option with same | same | same | same <;> rw [same] <;> decide

theorem cString_append {w t : Bytes} : cString (w ++ t) = if 0 ∈ w then cString w else w ++ cString t := by
  induction w with
  | nil => rfl
  | cons c w ih =>
    by_cases zero : c = 0
    · simp [cString, zero]
    · have other : ¬ (0 : UInt8) = c := fun same => zero same.symm
      unfold cString at ih
      simp only [cString, List.cons_append, List.takeWhile_cons, bne_iff_ne, ne_eq, zero,
        not_false_iff, if_true, ih,
        List.mem_cons, other, false_or]
      split_ifs <;> rfl

theorem space_mem_cString (w t : Bytes) : space ∈ w ++ cString (space :: t) := by
  have kept : cString (space :: t) = space :: cString t := List.takeWhile_cons_of_pos (by decide)
  rw [kept]
  exact List.mem_append_right _ (List.mem_cons_self ..)

/-- Whether a dict's text passes for an option depends on its first word. -/
theorem option_first_word {w t t' : Bytes} : IsOptionWord (w ++ space :: t) ↔ IsOptionWord (w ++ space :: t') := by
  have half : ∀ t t' : Bytes, IsOptionWord (w ++ space :: t) → IsOptionWord (w ++ space :: t') := by
    intro t t' option
    have noSpace := option_no_space option
    unfold IsOptionWord at option ⊢
    rw [cString_append] at option noSpace ⊢
    split_ifs at option noSpace ⊢ with nul
    · exact option
    · exact absurd (space_mem_cString w t) noSpace
  exact ⟨half t t', half t' t⟩

/-- A dict whose first key is `id` never passes for an option. -/
theorem Tcl.Spec.id_not_option {tcl : Tcl} (spec : tcl.Spec) (value : Obj) (entries : List (Bytes × Obj)) :
    ¬ IsOptionWord (tcl.stringOf (.dict ((ascii "id", value) :: entries))) := by
  obtain ⟨word, idWord, spelled⟩ := spec.dict_text
  obtain ⟨text, same⟩ := spelled (ascii "id") value entries
  rw [same, idWord]
  intro option
  have noSpace := option_no_space option
  rw [cString_append, if_neg (by decide)] at noSpace
  exact noSpace (space_mem_cString _ text)

/-- A list element as Tcl spells it where braces are all the quoting it
needs. -/
def tclWord (s : Bytes) : Bytes :=
  if s = [] ∨ s.any fun c => c ∈ ascii " \t\n\"$[];" then 0x7B :: (s ++ [0x7D]) else s

def tclWords : List Bytes → Bytes
  | [] => []
  | [s] => tclWord s
  | s :: s' :: words => tclWord s ++ space :: tclWords (s' :: words)

mutual

def wordText : Obj → Bytes
  | .str s => s
  | .typed _ => []
  | .list items => tclWords (wordTextOfItems items)
  | .dict entries => tclWords (wordTextOfEntries entries)

def wordTextOfItems : List Obj → List Bytes
  | [] => []
  | item :: items => wordText item :: wordTextOfItems items

def wordTextOfEntries : List (Bytes × Obj) → List Bytes
  | [] => []
  | (key, value) :: entries => key :: wordText value :: wordTextOfEntries entries

end

/-- A Tcl whose values are read only as what they are, and whose `expr`
finds no number that is not formatted already. -/
def wordTcl : Tcl where
  stringOf := wordText
  listOf _ := .error ⟨ascii "missing list", []⟩
  dictOf _ := .error ⟨ascii "missing value to go with key", [ascii "TCL", ascii "VALUE", ascii "DICTIONARY"]⟩
  exprOf v := .ok v
  wrongNumArgs usage := ⟨ascii "wrong # args: should be " ++ usage, [ascii "TCL", ascii "WRONGARGS"]⟩

theorem tclWord_wellFormed {s : Bytes} (whole : Utf8.WellFormed s) : Utf8.WellFormed (tclWord s) := by
  unfold tclWord
  split_ifs
  · exact Utf8.WellFormed.append (show Utf8.WellFormed [0x7B] by decide) (whole.append (by decide))
  · exact whole

theorem tclWords_wellFormed : ∀ {words : List Bytes}, (∀ s ∈ words, Utf8.WellFormed s) →
    Utf8.WellFormed (tclWords words)
  | [], _ => Utf8.wellFormed_nil
  | [s], whole => tclWord_wellFormed (whole s (List.mem_cons_self ..))
  | s :: s' :: words, whole => by
    obtain ⟨first, later⟩ := List.forall_mem_cons.mp whole
    have rest := Utf8.WellFormed.append (show Utf8.WellFormed [space] by decide) (tclWords_wellFormed later)
    exact (tclWord_wellFormed first).append rest

mutual

theorem wordText_wellFormed : ∀ {v : Obj}, v.Plain Utf8.WellFormed → Utf8.WellFormed (wordText v)
  | .str _, whole => whole
  | .list _, plain => tclWords_wellFormed (wordTextOfItems_wellFormed plain)
  | .dict _, plain => tclWords_wellFormed (wordTextOfEntries_wellFormed plain.2)
  | .typed _, plain => absurd plain not_false

theorem wordTextOfItems_wellFormed : ∀ {items : List Obj}, PlainItems Utf8.WellFormed items →
    ∀ s ∈ wordTextOfItems items, Utf8.WellFormed s
  | [], _ => List.forall_mem_nil _
  | _ :: _, plain => List.forall_mem_cons.mpr ⟨wordText_wellFormed plain.1, wordTextOfItems_wellFormed plain.2⟩

theorem wordTextOfEntries_wellFormed : ∀ {entries : List (Bytes × Obj)}, PlainEntries Utf8.WellFormed entries →
    ∀ s ∈ wordTextOfEntries entries, Utf8.WellFormed s
  | [], _ => List.forall_mem_nil _
  | (_, _) :: _, plain => List.forall_mem_cons.mpr ⟨plain.1, List.forall_mem_cons.mpr
      ⟨wordText_wellFormed plain.2.1, wordTextOfEntries_wellFormed plain.2.2⟩⟩

end

theorem wordTcl_spec : wordTcl.Spec where
  dict_text := by
    refine ⟨tclWord, by decide, fun key value entries => ?_⟩
    obtain ⟨s, words, more⟩ : ∃ s words, wordTextOfEntries ((key, value) :: entries) = key :: s :: words :=
      ⟨_, _, rfl⟩
    exact ⟨tclWords (s :: words), by simp only [wordTcl, wordText, more, tclWords]⟩
  text_wellFormed _ plain := wordText_wellFormed plain
  dict_lawful _ _ _ read := nomatch read
  expr_value _ _ value := Or.inl (Except.ok.inj value).symm
  expr_again _ _ _ := rfl
  expr_minus := rfl
  expr_words _ _ _ := rfl
  expr_error _ _ failed := nomatch failed

end Machteld
