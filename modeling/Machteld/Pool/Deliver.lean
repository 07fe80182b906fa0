import Machteld.Pool.State
import Machteld.Json.Line

namespace Machteld

open Rfc8259

section

variable (yy : Yyjson) (tcl : Tcl)

/-- The bytes of the line `PoolFeed` writes for an item, where the channel
takes it. -/
def requestLine (item : PoolItem) : Option Bytes :=
  match jsonEncode yy tcl [.str (ascii "-plain"), .dict item.request] with
  | .error _ => none
  | .ok encoded => channelWrite encoded

/-- The item goes out as one line, and `worker serve` reads it back: the
line decodes to the request, which passes for an object. -/
def Deliverable (item : PoolItem) : Prop :=
  ∃ written text, requestLine yy tcl item = some written ∧ lf ∉ written ∧ channelRead written = some text ∧
    jsonDecode yy tcl text = .ok (.dict (canonEntries item.request)) ∧
    ¬ IsOptionWord (tcl.stringOf (.dict (canonEntries item.request)))

end

/-- No string of the item but under `id` holds U+0000 or a surrogate. -/
def ItemClean (entries : List (Bytes × Obj)) : Prop :=
  ∀ s ∈ plainStringsOfEntries (dictRemove (ascii "id") entries), Utf8.WellFormed s

theorem forall_plainStringsOfEntries {p : Bytes → Prop} {entries : List (Bytes × Obj)} :
    (∀ s ∈ plainStringsOfEntries entries, p s) ↔ ∀ e ∈ entries, p e.1 ∧ ∀ s ∈ e.2.plainStrings, p s := by
  induction entries with
  | nil => exact iff_of_true (List.forall_mem_nil _) (List.forall_mem_nil _)
  | cons entry entries ih =>
    simp only [plainStringsOfEntries, List.cons_append, List.forall_mem_cons, List.forall_mem_append, ih, and_assoc]

theorem typedOfEntries_eq_nil {entries : List (Bytes × Obj)} :
    typedOfEntries entries = [] ↔ ∀ e ∈ entries, e.2.typedValues = [] := by
  induction entries with
  | nil => exact iff_of_true rfl (List.forall_mem_nil _)
  | cons entry entries ih => simp only [typedOfEntries, List.append_eq_nil_iff, List.forall_mem_cons, ih]

theorem depthOfEntries_le {entries : List (Bytes × Obj)} {bound : Nat} :
    depthOfEntries entries ≤ bound ↔ ∀ e ∈ entries, e.2.depth ≤ bound := by
  induction entries with
  | nil => exact iff_of_true (Nat.zero_le _) (List.forall_mem_nil _)
  | cons entry entries ih => simp only [depthOfEntries, Nat.max_le, List.forall_mem_cons, ih]

theorem lawfulEntries_iff {entries : List (Bytes × Obj)} : LawfulEntries entries ↔ ∀ e ∈ entries, e.2.Lawful := by
  induction entries with
  | nil => exact iff_of_true trivial (List.forall_mem_nil _)
  | cons entry entries ih => simp only [LawfulEntries, List.forall_mem_cons, ih]

/-- Whether a dict passes for an option is settled by its first key. -/
theorem Tcl.Spec.option_first_key {tcl : Tcl} (spec : tcl.Spec) (key : Bytes) (value value' : Obj)
    (rest rest' : List (Bytes × Obj)) :
    IsOptionWord (tcl.stringOf (.dict ((key, value) :: rest))) ↔
      IsOptionWord (tcl.stringOf (.dict ((key, value') :: rest'))) := by
  obtain ⟨word, _, spelled⟩ := spec.dict_text
  obtain ⟨text, before⟩ := spelled key value rest
  obtain ⟨text', after⟩ := spelled key value' rest'
  rw [before, after]
  exact option_first_word

theorem dictPut_cons {κ α : Type} [DecidableEq κ] (key k : κ) (value v : α) (rest : List (κ × α)) :
    ∃ v' rest', dictPut key value ((k, v) :: rest) = (k, v') :: rest' := by
  unfold dictPut
  split_ifs
  · exact ⟨_, _, rfl⟩
  · exact ⟨_, _, rfl⟩

section

variable {yy : Yyjson} {tcl : Tcl}

/-- What admission guarantees of an item. -/
structure Admitted (tcl : Tcl) (entries : List (Bytes × Obj)) : Prop where
  nonempty : entries ≠ []
  value : ¬ IsOptionWord (tcl.stringOf (.dict entries))
  room : 1 + depthOfEntries entries ≤ 512
  untyped : typedOfEntries entries = []

/-- What is accepted is a dict whose encoding one line of the wire can
carry. -/
theorem poolAdmit_ok (spec : yy.Spec) {it : Obj} {entries : List (Bytes × Obj)}
    (admitted : poolAdmit yy tcl it = .ok entries) : dictEntries tcl it = .ok entries ∧ Admitted tcl entries := by
  unfold poolAdmit at admitted
  cases read : dictEntries tcl it with
  | error e =>
    rw [read] at admitted
    cases admitted
  | ok entries' =>
    rw [read] at admitted
    dsimp only at admitted
    split_ifs at admitted with missing
    cases encoded : jsonEncode yy tcl [.str (ascii "-plain"), .dict entries'] with
    | error e =>
      rw [encoded] at admitted
      cases admitted
    | ok out =>
      rw [encoded] at admitted
      obtain rfl := Except.ok.inj admitted
      have plainCall := @jsonEncode_plain yy tcl (.dict entries')
      have value : ¬ IsOptionWord (tcl.stringOf (.dict entries')) := by
        intro option
        obtain ⟨e, refused⟩ := plainCall.1 option
        rw [encoded] at refused
        cases refused
      have able := (jsonEmit_ok_iff spec (.dict entries') 0).mp ⟨out, (plainCall.2 value).symm.trans encoded⟩
      refine ⟨rfl, ?_, value, ?_, able.plain rfl⟩
      · rintro rfl
        exact missing rfl
      · have room := able.room
        rw [Nat.zero_add] at room
        exact room

/-- The request keeps what was admitted of the item. -/
theorem Admitted.numbered (spec : tcl.Spec) {entries : List (Bytes × Obj)} (admitted : Admitted tcl entries)
    (distinct : (entries.map Prod.fst).Nodup) (id : Nat) : Admitted tcl (numberItem id entries).request := by
  have inside : ∀ e ∈ (numberItem id entries).request, e = (ascii "id", .str (decimal id)) ∨ e ∈ entries := by
    intro e member
    exact ((mem_dictPut distinct).mp member).imp_right fun kept => (mem_dictRemove.mp kept).1
  have deep := depthOfEntries_le.mp (Nat.le_refl (depthOfEntries entries))
  have first := List.exists_mem_of_ne_nil entries admitted.nonempty
  have low : 1 ≤ depthOfEntries entries := by
    obtain ⟨e, member⟩ := first
    have height : 1 ≤ e.2.depth := by
      cases e.2 with
      | str s => exact Nat.le_refl 1
      | typed x => exact Nat.le_refl 1
      | list items => exact Nat.le_add_right 1 _
      | dict entries => exact Nat.le_add_right 1 _
    exact height.trans (deep e member)
  obtain ⟨⟨key, value⟩, rest, rfl⟩ := List.exists_cons_of_ne_nil admitted.nonempty
  obtain ⟨value', rest', put⟩ := dictPut_cons (ascii "id") key (.str (decimal id)) value rest
  refine ⟨?_, ?_, ?_, typedOfEntries_eq_nil.mpr fun e member => ?_⟩
  · exact fun empty => List.cons_ne_nil _ _ (put.symm.trans empty)
  · show ¬ IsOptionWord (tcl.stringOf (.dict (dictPut (ascii "id") (.str (decimal id)) ((key, value) :: rest))))
    rw [put, spec.option_first_key key value' value rest' rest]
    exact admitted.value
  · have bound : depthOfEntries (numberItem id ((key, value) :: rest)).request ≤
      depthOfEntries ((key, value) :: rest) := by
      refine depthOfEntries_le.mpr fun e member => ?_
      obtain rfl | old := inside e member
      · exact low
      · exact deep e old
    have room := admitted.room
    omega
  · obtain rfl | old := inside e member
    · rfl
    · exact typedOfEntries_eq_nil.mp admitted.untyped e old

theorem numbered_lawful {entries : List (Bytes × Obj)} (lawful : (Obj.dict entries).Lawful) (id : Nat) :
    (Obj.dict (numberItem id entries).request).Lawful := by
  refine ⟨nodup_dictPut lawful.1, lawfulEntries_iff.mpr fun e member => ?_⟩
  obtain rfl | kept := (mem_dictPut lawful.1).mp member
  · trivial
  · exact lawfulEntries_iff.mp lawful.2 e (mem_dictRemove.mp kept).1

/-- The id the pool sets is clean, so the request is what the rest of the
item is. -/
theorem numbered_clean {entries : List (Bytes × Obj)} (distinct : (entries.map Prod.fst).Nodup) (id : Nat) :
    (∀ s ∈ plainStringsOfEntries (numberItem id entries).request, Utf8.WellFormed s) ↔ ItemClean entries := by
  have digits : Utf8.WellFormed (decimal id) := wellFormed_of_ascii (decimal_ascii id)
  have own : Utf8.WellFormed (ascii "id") := by decide
  unfold ItemClean
  rw [forall_plainStringsOfEntries, forall_plainStringsOfEntries]
  constructor
  · exact fun all e kept => all e ((mem_dictPut distinct).mpr (Or.inr kept))
  · intro all e member
    obtain rfl | kept := (mem_dictPut distinct).mp member
    · exact ⟨own, List.forall_mem_singleton.mpr digits⟩
    · exact all e kept

/-- An admitted item reaches its worker if and only if it is clean. -/
theorem deliverable_iff (spec : yy.Spec) (tclSpec : tcl.Spec) {entries : List (Bytes × Obj)}
    (admitted : Admitted tcl entries) (lawful : (Obj.dict entries).Lawful) (id : Nat) :
    Deliverable yy tcl (numberItem id entries) ↔ ItemClean entries := by
  have numbered := admitted.numbered tclSpec lawful.1 id
  have lawful' := numbered_lawful lawful id
  have clean := @numbered_clean entries lawful.1 id
  generalize numberItem id entries = item at numbered lawful' clean
  have plain := lawful'.plain numbered.untyped
  have able : Encodable true 0 (Obj.dict item.request).depth (Obj.dict item.request).typedValues := by
    refine ⟨?_, fun _ => numbered.untyped, ?_⟩
    · rw [Nat.zero_add]
      exact numbered.room
    · rw [show (Obj.dict item.request).typedValues = [] from numbered.untyped]
      exact List.forall_mem_nil _
  obtain ⟨encoded, emitted⟩ := (jsonEmit_ok_iff spec _ 0).mpr able
  have piece := jsonEmit_emitted spec emitted
  have sent : requestLine yy tcl item = channelWrite encoded := by
    simp only [requestLine, (@jsonEncode_plain yy tcl (.dict item.request)).2 numbered.value, emitted]
  have text : Text (Obj.dict item.request).tree encoded ↔ ItemClean entries := by
    rw [jsonEmit_text spec emitted, Obj.clean_iff, ← clean]
    exact ⟨And.right, fun strings => ⟨able.written, strings⟩⟩
  constructor
  · rintro ⟨written, received, line, _, read, decoded, _⟩
    obtain ⟨t, spelled, _⟩ := (jsonDecode_ok_iff spec tcl).mp decoded
    obtain ⟨whole, rfl⟩ | ⟨_, nul⟩ := channelWrite_some (sent.symm.trans line)
    · exact text.mp ⟨whole, piece.spelled⟩
    · exact absurd spelled.1 (channelRead_nul nul read)
  · intro fine
    have spelled := text.mpr fine
    have whole := spelled.1
    have room : 0 + (Obj.dict item.request).depth ≤ 512 := able.room
    refine ⟨encoded, encoded, sent.trans (channelWrite_wellFormed whole),
      one_line (jsonEmit_printable emitted) (channelWrite_wellFormed whole), channelRead_plain whole spelled.no_nul,
      (jsonDecode_ok_iff spec tcl).mpr ⟨_, spelled, plain.decoded room⟩, ?_⟩
    obtain ⟨⟨key, value⟩, rest, shape⟩ := List.exists_cons_of_ne_nil numbered.nonempty
    have accepted := numbered.value
    rw [shape] at accepted ⊢
    exact fun option => accepted ((tclSpec.option_first_key key _ _ _ _).mp option)

end

end Machteld
