import Mathlib.Data.List.Nodup
import Mathlib.Data.List.Perm.Basic
import Mathlib.Tactic.Common

namespace Machteld

section

variable {κ α : Type} [DecidableEq κ]

/-- `Tcl_DictObjPut`: a known key keeps its place. -/
def dictPut (key : κ) (value : α) : List (κ × α) → List (κ × α)
  | [] => [(key, value)]
  | (k, v) :: entries => if k = key then (k, value) :: entries else (k, v) :: dictPut key value entries

def dictGet (key : κ) : List (κ × α) → Option α
  | [] => none
  | (k, v) :: entries => if k = key then some v else dictGet key entries

/-- `dict remove` -/
def dictRemove (key : κ) : List (κ × α) → List (κ × α)
  | [] => []
  | (k, v) :: entries => if k = key then dictRemove key entries else (k, v) :: dictRemove key entries

/-- Some puts in their order. -/
def dictPuts (pairs : List (κ × α)) (d : List (κ × α)) : List (κ × α) :=
  pairs.foldl (fun d p => dictPut p.1 p.2 d) d

/-- The values that are put under a key. -/
def dictValues (key : κ) (pairs : List (κ × α)) : List α :=
  pairs.filterMap fun p => if p.1 = key then some p.2 else none

theorem map_dictPut {β : Type} (f : α → β) (key : κ) (value : α) (entries : List (κ × α)) :
    (dictPut key value entries).map (Prod.map id f) = dictPut key (f value) (entries.map (Prod.map id f)) := by
  induction entries with
  | nil => rfl
  | cons entry entries ih =>
    obtain ⟨k, v⟩ := entry
    by_cases same : k = key
    · simp [dictPut, same]
    · simp [dictPut, same, ih]

theorem dictGet_dictPut (key other : κ) (value : α) (entries : List (κ × α)) :
    dictGet other (dictPut key value entries) = if key = other then some value else dictGet other entries := by
  induction entries with
  | nil => rfl
  | cons entry entries ih =>
    obtain ⟨k, v⟩ := entry
    by_cases same : k = key
    · subst same
      by_cases found : k = other
      · simp [dictPut, dictGet, found]
      · simp [dictPut, dictGet, found]
    · by_cases found : k = other
      · subst found
        have other' : ¬ key = k := fun eq => same eq.symm
        simp [dictPut, dictGet, same, other']
      · simp [dictPut, dictGet, same, found, ih]

theorem dictValues_here {key : κ} {p : κ × α} {pairs : List (κ × α)} (same : p.1 = key) :
    dictValues key (p :: pairs) = p.2 :: dictValues key pairs := by
  simp [dictValues, same]

theorem dictValues_other {key : κ} {p : κ × α} {pairs : List (κ × α)} (other : ¬ p.1 = key) :
    dictValues key (p :: pairs) = dictValues key pairs := by
  simp [dictValues, other]

/-- The last put of a key decides. -/
theorem dictGet_dictPuts (key : κ) (pairs d : List (κ × α)) :
    dictGet key (dictPuts pairs d) = (dictValues key pairs).getLast?.or (dictGet key d) := by
  induction pairs generalizing d with
  | nil => rfl
  | cons p pairs ih =>
    change dictGet key (dictPuts pairs (dictPut p.1 p.2 d)) = _
    rw [ih, dictGet_dictPut]
    by_cases same : p.1 = key
    · rw [dictValues_here same, List.getLast?_cons, if_pos same]
      cases (dictValues key pairs).getLast? <;> rfl
    · rw [dictValues_other same, if_neg same]

theorem dictPuts_append (first later d : List (κ × α)) :
    dictPuts (first ++ later) d = dictPuts later (dictPuts first d) :=
  List.foldl_append ..

theorem dictValues_append (key : κ) (first later : List (κ × α)) :
    dictValues key (first ++ later) = dictValues key first ++ dictValues key later := List.filterMap_append ..

/-- A new key goes to the end. -/
theorem dictPut_new {key : κ} {entries : List (κ × α)} (fresh : key ∉ entries.map Prod.fst) (value : α) :
    dictPut key value entries = entries ++ [(key, value)] := by
  induction entries with
  | nil => rfl
  | cons entry entries ih =>
    simp only [List.map_cons, List.mem_cons, not_or] at fresh
    have other : entry.1 ≠ key := fun same => fresh.1 same.symm
    simp [dictPut, other, ih fresh.2]

theorem forall_mem_dictPut {p : κ × α → Prop} {key : κ} {value : α} (new : p (key, value))
    {entries : List (κ × α)} (all : ∀ e ∈ entries, p e) : ∀ e ∈ dictPut key value entries, p e := by
  induction entries with
  | nil => exact List.forall_mem_singleton.mpr new
  | cons entry entries ih =>
    obtain ⟨here, later⟩ := List.forall_mem_cons.mp all
    unfold dictPut
    split_ifs with same
    · exact List.forall_mem_cons.mpr ⟨same ▸ new, later⟩
    · exact List.forall_mem_cons.mpr ⟨here, ih later⟩

theorem dictPut_keys (key : κ) (value : α) (entries : List (κ × α)) :
    (dictPut key value entries).map Prod.fst =
      if key ∈ entries.map Prod.fst then entries.map Prod.fst else entries.map Prod.fst ++ [key] := by
  induction entries with
  | nil => rfl
  | cons entry entries ih =>
    by_cases same : entry.1 = key
    · simp [dictPut, same]
    · have other : key ≠ entry.1 := fun eq => same eq.symm
      simp only [dictPut, if_neg same, List.map_cons, ih, List.mem_cons, other, false_or]
      split_ifs <;> simp

theorem nodup_dictPut {key : κ} {value : α} {entries : List (κ × α)} (distinct : (entries.map Prod.fst).Nodup) :
    ((dictPut key value entries).map Prod.fst).Nodup := by
  rw [dictPut_keys]
  split_ifs with known
  · exact distinct
  · refine List.nodup_append.mpr ⟨distinct, by simp, fun k member k' last => ?_⟩
    obtain rfl := List.mem_singleton.mp last
    rintro rfl
    exact known member

theorem nodup_dictPuts {pairs d : List (κ × α)} (distinct : (d.map Prod.fst).Nodup) :
    ((dictPuts pairs d).map Prod.fst).Nodup := by
  induction pairs generalizing d with
  | nil => exact distinct
  | cons p pairs ih => exact ih (nodup_dictPut distinct)

theorem mem_dictPuts_keys {key : κ} {pairs d : List (κ × α)} :
    key ∈ (dictPuts pairs d).map Prod.fst ↔ key ∈ pairs.map Prod.fst ∨ key ∈ d.map Prod.fst := by
  induction pairs generalizing d with
  | nil => exact (or_iff_right (List.not_mem_nil)).symm
  | cons p pairs ih =>
    refine ih.trans ?_
    rw [dictPut_keys, List.map_cons, List.mem_cons]
    split_ifs with known
    · constructor
      · exact Or.imp_left Or.inr
      · rintro ((rfl | inside) | inside)
        · exact .inr known
        · exact .inl inside
        · exact .inr inside
    · rw [List.mem_append, List.mem_singleton]
      tauto

theorem dictGet_eq_none_iff {key : κ} {entries : List (κ × α)} :
    dictGet key entries = none ↔ key ∉ entries.map Prod.fst := by
  induction entries with
  | nil => simp [dictGet]
  | cons entry entries ih =>
    obtain ⟨k, v⟩ := entry
    by_cases same : k = key
    · simp [dictGet, same]
    · have other : ¬ key = k := fun eq => same eq.symm
      simp [dictGet, same, other, ih]

theorem mem_of_dictGet {key : κ} {value : α} {entries : List (κ × α)} (found : dictGet key entries = some value) :
    (key, value) ∈ entries := by
  induction entries with
  | nil => cases found
  | cons entry entries ih =>
    obtain ⟨k, v⟩ := entry
    simp only [dictGet] at found
    split_ifs at found with same
    · obtain rfl := Option.some.inj found
      exact same ▸ List.mem_cons_self ..
    · exact List.mem_cons_of_mem _ (ih found)

theorem dictValues_absent {key : κ} {pairs : List (κ × α)} (absent : key ∉ pairs.map Prod.fst) :
    dictValues key pairs = [] := by
  refine List.filterMap_eq_nil_iff.mpr fun p member => if_neg ?_
  rintro rfl
  exact absent (List.mem_map_of_mem member)

theorem dictValues_of_mem {key : κ} {value : α} {pairs : List (κ × α)} (distinct : (pairs.map Prod.fst).Nodup)
    (member : (key, value) ∈ pairs) : dictValues key pairs = [value] := by
  induction pairs with
  | nil => cases member
  | cons p pairs ih =>
    obtain ⟨fresh, later⟩ := List.nodup_cons.mp distinct
    rcases List.mem_cons.mp member with rfl | inside
    · rw [@dictValues_here _ _ _ key (key, value) _ rfl, dictValues_absent fresh]
    · have other : ¬ p.1 = key := by
        rintro same
        exact fresh (same ▸ List.mem_map_of_mem inside)
      rw [dictValues_other other, ih later inside]

theorem dictRemove_absent {key : κ} {entries : List (κ × α)} (absent : key ∉ entries.map Prod.fst) :
    dictRemove key entries = entries := by
  induction entries with
  | nil => rfl
  | cons entry entries ih =>
    simp only [List.map_cons, List.mem_cons, not_or] at absent
    have other : entry.1 ≠ key := fun same => absent.1 same.symm
    simp [dictRemove, other, ih absent.2]

theorem dictGet_dictRemove (key other : κ) (entries : List (κ × α)) :
    dictGet other (dictRemove key entries) = if key = other then none else dictGet other entries := by
  induction entries with
  | nil => simp [dictRemove, dictGet]
  | cons entry entries ih =>
    obtain ⟨k, v⟩ := entry
    by_cases gone : k = key
    · subst gone
      simp only [dictRemove, if_true, ih]
      by_cases found : k = other
      · simp [found]
      · simp [found, dictGet]
    · by_cases found : k = other
      · subst found
        have other' : ¬ key = k := fun eq => gone eq.symm
        simp [dictRemove, dictGet, gone, other']
      · simp [dictRemove, dictGet, gone, found, ih]

/-- What `dict remove` takes away is one entry. -/
theorem perm_dictRemove {key : κ} {value : α} {entries : List (κ × α)} (distinct : (entries.map Prod.fst).Nodup)
    (found : dictGet key entries = some value) : entries.Perm ((key, value) :: dictRemove key entries) := by
  induction entries with
  | nil => cases found
  | cons entry entries ih =>
    obtain ⟨k, v⟩ := entry
    obtain ⟨fresh, later⟩ := List.nodup_cons.mp distinct
    simp only [dictGet] at found
    split_ifs at found with same
    · subst same
      obtain rfl := Option.some.inj found
      simp only [dictRemove, if_true, dictRemove_absent fresh]
      exact List.Perm.refl _
    · simp only [dictRemove, if_neg same]
      exact ((ih later found).cons _).trans (List.Perm.swap ..)

theorem mem_dictRemove {key : κ} {e : κ × α} {entries : List (κ × α)} :
    e ∈ dictRemove key entries ↔ e ∈ entries ∧ e.1 ≠ key := by
  induction entries with
  | nil => simp [dictRemove]
  | cons entry entries ih =>
    obtain ⟨k, v⟩ := entry
    by_cases same : k = key
    · subst same
      simp only [dictRemove, if_true, ih, List.mem_cons]
      refine and_congr_left fun kept => ⟨Or.inr, fun either => either.resolve_left ?_⟩
      rintro rfl
      exact kept rfl
    · simp only [dictRemove, if_neg same, List.mem_cons, ih]
      constructor
      · rintro (rfl | ⟨member, kept⟩)
        · exact ⟨Or.inl rfl, same⟩
        · exact ⟨Or.inr member, kept⟩
      · rintro ⟨rfl | member, kept⟩
        · exact Or.inl rfl
        · exact Or.inr ⟨member, kept⟩

/-- A dict after a put: the new entry and all of other keys. -/
theorem mem_dictPut {key : κ} {value : α} {e : κ × α} {entries : List (κ × α)}
    (distinct : (entries.map Prod.fst).Nodup) :
    e ∈ dictPut key value entries ↔ e = (key, value) ∨ e ∈ dictRemove key entries := by
  induction entries with
  | nil => simp [dictPut, dictRemove]
  | cons entry entries ih =>
    obtain ⟨k, v⟩ := entry
    obtain ⟨fresh, later⟩ := List.nodup_cons.mp distinct
    by_cases same : k = key
    · subst same
      simp only [dictPut, dictRemove, if_true, dictRemove_absent fresh, List.mem_cons]
    · simp only [dictPut, dictRemove, if_neg same, List.mem_cons, ih later]
      exact or_left_comm

theorem nodup_dictRemove {key : κ} {entries : List (κ × α)} (distinct : (entries.map Prod.fst).Nodup) :
    ((dictRemove key entries).map Prod.fst).Nodup := by
  induction entries with
  | nil => exact List.nodup_nil
  | cons entry entries ih =>
    obtain ⟨k, v⟩ := entry
    obtain ⟨fresh, later⟩ := List.nodup_cons.mp distinct
    simp only [dictRemove]
    split_ifs with same
    · exact ih later
    · refine List.nodup_cons.mpr ⟨fun member => fresh ?_, ih later⟩
      obtain ⟨e, inside, named⟩ := List.mem_map.mp member
      exact List.mem_map.mpr ⟨e, (mem_dictRemove.mp inside).1, named⟩

end

end Machteld
