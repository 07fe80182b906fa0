import Machteld.Json.Decode
import Machteld.Json.EmitText
import Machteld.TclText

namespace Machteld

open Rfc8259

mutual

/-- A value of dicts, lists and strings; `p` is asked of every key and leaf.
-/
def Obj.Plain (p : Bytes → Prop) : Obj → Prop
  | .str s => p s
  | .list items => PlainItems p items
  | .dict entries => (entries.map Prod.fst).Nodup ∧ PlainEntries p entries
  | .typed _ => False

def PlainItems (p : Bytes → Prop) : List Obj → Prop
  | [] => True
  | item :: items => item.Plain p ∧ PlainItems p items

def PlainEntries (p : Bytes → Prop) : List (Bytes × Obj) → Prop
  | [] => True
  | (key, value) :: entries => p key ∧ value.Plain p ∧ PlainEntries p entries

end

mutual

/-- The value with every empty list as the empty string, which Tcl does not
tell from it. -/
def Obj.canon : Obj → Obj
  | .str s => .str s
  | .list items => newListObj (canonItems items)
  | .dict entries => .dict (canonEntries entries)
  | .typed x => .typed x

def canonItems : List Obj → List Obj
  | [] => []
  | item :: items => item.canon :: canonItems items

def canonEntries : List (Bytes × Obj) → List (Bytes × Obj)
  | [] => []
  | (key, value) :: entries => (key, value.canon) :: canonEntries entries

end

mutual

def Obj.NoEmptyList : Obj → Prop
  | .list items => items ≠ [] ∧ NoEmptyListIn items
  | .dict entries => NoEmptyListAmong entries
  | _ => True

def NoEmptyListIn : List Obj → Prop
  | [] => True
  | item :: items => item.NoEmptyList ∧ NoEmptyListIn items

def NoEmptyListAmong : List (Bytes × Obj) → Prop
  | [] => True
  | (_, value) :: entries => value.NoEmptyList ∧ NoEmptyListAmong entries

end

mutual

theorem Obj.canon_same : ∀ {v : Obj}, v.NoEmptyList → v.canon = v
  | .str _, _ => rfl
  | .typed _, _ => rfl
  | .list (item :: items), full => by
    have inside := canonItems_same full.2
    simp only [Obj.canon, inside, newListObj]
  | .dict entries, full => by
    have inside : canonEntries entries = entries := canonEntries_same full
    simp only [Obj.canon, inside]

theorem canonItems_same : ∀ {items : List Obj}, NoEmptyListIn items → canonItems items = items
  | [], _ => rfl
  | item :: items, full => by
    simp only [canonItems, Obj.canon_same full.1, canonItems_same full.2]

theorem canonEntries_same : ∀ {entries : List (Bytes × Obj)}, NoEmptyListAmong entries →
    canonEntries entries = entries
  | [], _ => rfl
  | (key, value) :: entries, full => by
    simp only [canonEntries, Obj.canon_same full.1, canonEntries_same full.2]

end

section

variable {p : Bytes → Prop}

mutual

theorem Obj.Plain.typedValues : ∀ {v : Obj}, v.Plain p → v.typedValues = []
  | .str _, _ => rfl
  | .list _, plain => PlainItems.typed plain
  | .dict _, plain => PlainEntries.typed plain.2

theorem PlainItems.typed : ∀ {items : List Obj}, PlainItems p items → typedOfItems items = []
  | [], _ => rfl
  | item :: items, plain => by
    simp only [typedOfItems, Obj.Plain.typedValues plain.1, PlainItems.typed plain.2, List.append_nil]

theorem PlainEntries.typed : ∀ {entries : List (Bytes × Obj)}, PlainEntries p entries → typedOfEntries entries = []
  | [], _ => rfl
  | (key, value) :: entries, plain => by
    simp only [typedOfEntries, Obj.Plain.typedValues plain.2.1, PlainEntries.typed plain.2.2, List.append_nil]

end

mutual

theorem Obj.Plain.strings : ∀ {v : Obj}, v.Plain p → ∀ s ∈ v.plainStrings, p s
  | .str _, plain => List.forall_mem_singleton.mpr plain
  | .list _, plain => PlainItems.strings plain
  | .dict _, plain => PlainEntries.strings plain.2

theorem PlainItems.strings : ∀ {items : List Obj}, PlainItems p items → ∀ s ∈ plainStringsOfItems items, p s
  | [], _ => List.forall_mem_nil _
  | _ :: _, plain => List.forall_mem_append.mpr ⟨Obj.Plain.strings plain.1, PlainItems.strings plain.2⟩

theorem PlainEntries.strings : ∀ {entries : List (Bytes × Obj)}, PlainEntries p entries →
    ∀ s ∈ plainStringsOfEntries entries, p s
  | [], _ => List.forall_mem_nil _
  | (_, _) :: _, plain =>
    List.forall_mem_cons.mpr ⟨plain.1,
      List.forall_mem_append.mpr ⟨Obj.Plain.strings plain.2.1, PlainEntries.strings plain.2.2⟩⟩

end

theorem below_cap {depth : Nat} (room : depth < 512) : ¬ jsonMaxDepth ≤ depth := Nat.not_le.mpr room

theorem yyToTcl_leaf (depth : Nat) (room : depth < 512) (s : Bytes) :
    yyToTcl depth (Obj.str s).tree = some (.str s) := by
  have below := below_cap room
  unfold Obj.tree
  split_ifs
  · simp only [yyToTcl, if_neg below]
  · simp only [yyToTcl, if_neg below]

mutual

/-- The decoder rebuilds a plain value from its tree. -/
theorem Obj.Plain.decoded : ∀ {v : Obj} {depth : Nat}, v.Plain p → depth + v.depth ≤ 512 →
    yyToTcl depth v.tree = some v.canon
  | .str s, depth, _, room => yyToTcl_leaf depth room s
  | .list items, depth, plain, room => by
    have inside : depth + (1 + depthOfItems items) ≤ 512 := room
    have below := below_cap (show depth < 512 by omega)
    have decoded : yyItemsToTcl (depth + 1) (treeOfItems items) = some (canonItems items) :=
      PlainItems.decoded plain (by omega)
    simp only [Obj.tree, Obj.canon, yyToTcl, if_neg below, decoded, Option.map_some]
  | .dict entries, depth, plain, room => by
    have inside : depth + (1 + depthOfEntries entries) ≤ 512 := room
    have below := below_cap (show depth < 512 by omega)
    have decoded : yyMembersToTcl (depth + 1) [] (treeOfEntries entries) = some ([] ++ canonEntries entries) :=
      PlainEntries.decoded plain.2 plain.1 (by omega)
    simp only [Obj.tree, Obj.canon, yyToTcl, if_neg below, decoded, Option.map_some, List.nil_append]

theorem PlainItems.decoded : ∀ {items : List Obj} {depth : Nat}, PlainItems p items →
    depth + depthOfItems items ≤ 512 → yyItemsToTcl depth (treeOfItems items) = some (canonItems items)
  | [], _, _, _ => rfl
  | item :: items, depth, plain, room => by
    have inside : depth + max item.depth (depthOfItems items) ≤ 512 := room
    have head : yyToTcl depth item.tree = some item.canon := Obj.Plain.decoded plain.1 (by omega)
    have tail : yyItemsToTcl depth (treeOfItems items) = some (canonItems items) :=
      PlainItems.decoded plain.2 (by omega)
    simp only [treeOfItems, canonItems, yyItemsToTcl, head, tail, Option.bind_some, Option.map_some]

theorem PlainEntries.decoded : ∀ {entries before : List (Bytes × Obj)} {depth : Nat}, PlainEntries p entries →
    ((before ++ entries).map Prod.fst).Nodup → depth + depthOfEntries entries ≤ 512 →
      yyMembersToTcl depth before (treeOfEntries entries) = some (before ++ canonEntries entries)
  | [], before, _, _, _, _ => by simp only [treeOfEntries, canonEntries, yyMembersToTcl, List.append_nil]
  | (key, value) :: entries, before, depth, plain, distinct, room => by
    have inside : depth + max value.depth (depthOfEntries entries) ≤ 512 := room
    have head : yyToTcl depth value.tree = some value.canon := Obj.Plain.decoded plain.2.1 (by omega)
    simp only [List.map_append, List.map_cons] at distinct
    have fresh : key ∉ before.map Prod.fst := fun member =>
      (List.nodup_append.mp distinct).2.2 key member key (List.mem_cons_self ..) rfl
    have later : ((before ++ [(key, value.canon)] ++ entries).map Prod.fst).Nodup := by simpa using distinct
    have tail : yyMembersToTcl depth (before ++ [(key, value.canon)]) (treeOfEntries entries) =
        some (before ++ [(key, value.canon)] ++ canonEntries entries) :=
      PlainEntries.decoded plain.2.2 later (by omega)
    simp only [treeOfEntries, canonEntries, yyMembersToTcl, head, Option.bind_some, dictPut_new fresh, tail,
      List.append_assoc, List.cons_append, List.nil_append]

end

end

/-- A value below `depth` levels that comes from a JSON text: it stays under
the cap, is plain with UTF-8 strings, and has no typed empty list. -/
structure Fits (depth : Nat) (v : Obj) : Prop where
  room : depth + v.depth ≤ 512
  plain : v.Plain Utf8.WellFormed
  full : v.NoEmptyList

theorem Fits.leaf {depth : Nat} {s : Bytes} (room : depth < 512) (whole : Utf8.WellFormed s) :
    Fits depth (.str s) :=
  ⟨room, whole, trivial⟩

theorem fits_items {depth : Nat} (room : depth + 1 ≤ 512) {items : List Obj}
    (all : ∀ o ∈ items, Fits (depth + 1) o) :
    depth + (Obj.list items).depth ≤ 512 ∧ PlainItems Utf8.WellFormed items ∧ NoEmptyListIn items := by
  induction items with
  | nil => exact ⟨room, trivial, trivial⟩
  | cons item items ih =>
    obtain ⟨here, later⟩ := List.forall_mem_cons.mp all
    obtain ⟨low, plain, full⟩ := ih later
    have first := here.room
    refine ⟨?_, ⟨here.plain, plain⟩, here.full, full⟩
    simp only [Obj.depth, depthOfItems] at low ⊢
    omega

theorem fits_entries {depth : Nat} (room : depth + 1 ≤ 512) {entries : List (Bytes × Obj)}
    (all : ∀ e ∈ entries, Utf8.WellFormed e.1 ∧ Fits (depth + 1) e.2) :
    depth + (Obj.dict entries).depth ≤ 512 ∧ PlainEntries Utf8.WellFormed entries ∧ NoEmptyListAmong entries := by
  induction entries with
  | nil => exact ⟨room, trivial, trivial⟩
  | cons entry entries ih =>
    obtain ⟨⟨name, here⟩, later⟩ := List.forall_mem_cons.mp all
    obtain ⟨low, plain, full⟩ := ih later
    have first := here.room
    refine ⟨?_, ⟨name, here.plain, plain⟩, here.full, full⟩
    simp only [Obj.depth, depthOfEntries] at low ⊢
    omega

mutual

/-- Whatever plain decode makes of a text fits. -/
theorem yyToTcl_fits : ∀ {t : Json} {depth : Nat} {v : Obj}, (∀ literal ∈ t.numbers, Number literal) → Clean t →
    yyToTcl depth t = some v → Fits depth v
  | .null, depth, v, _, _, decoded => by
    simp only [yyToTcl, Option.ite_none_left_eq_some, Option.some.injEq] at decoded
    obtain ⟨room, rfl⟩ := decoded
    exact .leaf (Nat.lt_of_not_le room) Utf8.wellFormed_nil
  | .bool b, depth, v, _, _, decoded => by
    simp only [yyToTcl, Option.ite_none_left_eq_some, Option.some.injEq] at decoded
    obtain ⟨room, rfl⟩ := decoded
    cases b
    · exact .leaf (Nat.lt_of_not_le room) (by decide)
    · exact .leaf (Nat.lt_of_not_le room) (by decide)
  | .number literal, depth, v, numbers, _, decoded => by
    simp only [yyToTcl, Option.ite_none_left_eq_some, Option.some.injEq] at decoded
    obtain ⟨room, rfl⟩ := decoded
    exact .leaf (Nat.lt_of_not_le room) (numbers literal (List.mem_singleton.mpr rfl)).wellFormed
  | .string text, depth, v, _, clean, decoded => by
    simp only [yyToTcl, Option.ite_none_left_eq_some, Option.some.injEq] at decoded
    obtain ⟨room, rfl⟩ := decoded
    exact .leaf (Nat.lt_of_not_le room) (clean text (List.mem_singleton.mpr rfl))
  | .array items, depth, v, numbers, clean, decoded => by
    simp only [yyToTcl, Option.ite_none_left_eq_some, Option.map_eq_some_iff] at decoded
    obtain ⟨room, os, inside, rfl⟩ := decoded
    have low : depth + 1 ≤ 512 := Nat.lt_of_not_le room
    obtain ⟨fitting, plain, full⟩ := fits_items low (yyItemsToTcl_fits numbers clean inside)
    cases os with
    | nil => exact .leaf low Utf8.wellFormed_nil
    | cons o os => exact ⟨fitting, plain, List.cons_ne_nil o os, full⟩
  | .object members, depth, v, numbers, clean, decoded => by
    simp only [yyToTcl, Option.ite_none_left_eq_some, Option.map_eq_some_iff] at decoded
    obtain ⟨room, entries, inside, rfl⟩ := decoded
    have low : depth + 1 ≤ 512 := Nat.lt_of_not_le room
    have start : (List.map Prod.fst ([] : List (Bytes × Obj))).Nodup := List.nodup_nil
    obtain ⟨distinct, all⟩ := yyMembersToTcl_fits numbers clean inside start (List.forall_mem_nil _)
    obtain ⟨fitting, plain, full⟩ := fits_entries low all
    exact ⟨fitting, ⟨distinct, plain⟩, full⟩

theorem yyItemsToTcl_fits : ∀ {items : List Json} {depth : Nat} {os : List Obj},
    (∀ literal ∈ numbersOfItems items, Number literal) → (∀ s ∈ stringsOfItems items, Utf8.WellFormed s) →
      yyItemsToTcl depth items = some os → ∀ o ∈ os, Fits depth o
  | [], depth, os, _, _, decoded => by
    obtain rfl := Option.some.inj decoded
    exact List.forall_mem_nil _
  | item :: items, depth, os, numbers, clean, decoded => by
    obtain ⟨o, first, later⟩ := Option.bind_eq_some_iff.mp decoded
    obtain ⟨rest, others, rfl⟩ := Option.map_eq_some_iff.mp later
    have fine := List.forall_mem_append.mp numbers
    have strings := List.forall_mem_append.mp clean
    exact List.forall_mem_cons.mpr ⟨yyToTcl_fits fine.1 strings.1 first, yyItemsToTcl_fits fine.2 strings.2 others⟩

theorem yyMembersToTcl_fits : ∀ {members : List (Bytes × Json)} {depth : Nat} {before entries : List (Bytes × Obj)},
    (∀ literal ∈ numbersOfMembers members, Number literal) → (∀ s ∈ stringsOfMembers members, Utf8.WellFormed s) →
      yyMembersToTcl depth before members = some entries → (before.map Prod.fst).Nodup →
        (∀ e ∈ before, Utf8.WellFormed e.1 ∧ Fits depth e.2) →
          (entries.map Prod.fst).Nodup ∧ ∀ e ∈ entries, Utf8.WellFormed e.1 ∧ Fits depth e.2
  | [], depth, before, entries, _, _, decoded, distinct, fits => by
    obtain rfl := Option.some.inj decoded
    exact ⟨distinct, fits⟩
  | (key, item) :: members, depth, before, entries, numbers, clean, decoded, distinct, fits => by
    obtain ⟨o, first, later⟩ := Option.bind_eq_some_iff.mp decoded
    have fine := List.forall_mem_append.mp numbers
    obtain ⟨name, rest⟩ := List.forall_mem_cons.mp clean
    have strings := List.forall_mem_append.mp rest
    have here := yyToTcl_fits fine.1 strings.1 first
    have put := forall_mem_dictPut (p := fun e => Utf8.WellFormed e.1 ∧ Fits depth e.2) ⟨name, here⟩ fits
    exact yyMembersToTcl_fits fine.2 strings.2 later (nodup_dictPut distinct) put

end

theorem Fits.typedValues {depth : Nat} {v : Obj} (fits : Fits depth v) : v.typedValues = [] :=
  fits.plain.typedValues

theorem Fits.decoded {depth : Nat} {v : Obj} (fits : Fits depth v) : yyToTcl depth v.tree = some v := by
  have decoded := fits.plain.decoded fits.room
  rwa [Obj.canon_same fits.full] at decoded

/-- A plain value under the cap is written as a text of its own tree. -/
theorem Obj.Plain.emitted {yy : Yyjson} (spec : yy.Spec) {p : Bytes → Prop} {v : Obj} {depth : Nat}
    {plainOnly : Bool} (plain : v.Plain p) (whole : ∀ s, p s → Utf8.WellFormed s) (room : depth + v.depth ≤ 512) :
    ∃ out, jsonEmit yy plainOnly depth v = .ok out ∧ Text v.tree out := by
  have able : Encodable plainOnly depth v.depth v.typedValues := by
    rw [plain.typedValues]
    exact ⟨room, fun _ => rfl, List.forall_mem_nil _⟩
  obtain ⟨out, emitted⟩ := (jsonEmit_ok_iff spec v depth).mpr able
  have strings : ∀ s ∈ v.plainStrings, Utf8.WellFormed s := fun s member => whole s (plain.strings s member)
  exact ⟨out, emitted, (jsonEmit_text spec emitted).mpr (v.clean_iff.mpr ⟨able.written, strings⟩)⟩

theorem Fits.emitted {yy : Yyjson} (spec : yy.Spec) {depth : Nat} {v : Obj} {plainOnly : Bool}
    (fits : Fits depth v) :
    ∃ out, jsonEmit yy plainOnly depth v = .ok out ∧ Text v.tree out :=
  fits.plain.emitted spec (fun _ whole => whole) fits.room

/-- The values of a dict that fits, fit one level down. -/
theorem Fits.values {depth : Nat} : ∀ {entries : List (Bytes × Obj)}, Fits depth (.dict entries) →
    ∀ {key : Bytes} {v : Obj}, dictGet key entries = some v → Fits (depth + 1) v
  | (k, value) :: entries, fits, key, v, found => by
    obtain ⟨room, ⟨distinct, _, plain, plainRest⟩, full, fullRest⟩ := fits
    have low : depth + (1 + max value.depth (depthOfEntries entries)) ≤ 512 := room
    simp only [dictGet] at found
    split_ifs at found with same
    · obtain rfl := Option.some.inj found
      exact ⟨by omega, plain, full⟩
    · have rest : Fits depth (.dict entries) :=
        ⟨show depth + (1 + depthOfEntries entries) ≤ 512
          by omega, ⟨(List.nodup_cons.mp distinct).2, plainRest⟩, fullRest⟩
      exact rest.values found

end Machteld
