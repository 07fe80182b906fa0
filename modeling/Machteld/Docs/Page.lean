import Mathlib.Data.List.Basic

namespace Machteld

/-- The characters or items at some indices, the last included: `lrange` and
`string range`. -/
def tclRange {α : Type} (items : List α) (first : Nat) (last : Int) : List α :=
  (items.take (last + 1).toNat).drop first

/-- What a paged command returns of its items. -/
structure DocsPage (α : Type) where
  items : List α
  total : Nat
  offset : Nat
  limit : Nat
  returned : Nat
  truncated : Bool
  next : Option Nat

/-- `DocsPage` -/
def docsPage {α : Type} (items : List α) (offset limit : Nat) : DocsPage α :=
  let total := items.length
  let selected := tclRange items offset (offset + limit - 1)
  let returned := selected.length
  let next := if offset + returned < total then some (offset + returned) else none
  ⟨selected, total, offset, limit, returned, next.isSome, next⟩

/-- Calls from an offset on, each with the `next` of the one before; none
where one fails or the fuel runs out. -/
def pagesFrom {ε α : Type} (call : Nat → Except ε (DocsPage α)) : Nat → Nat → Option (List (DocsPage α))
  | 0, _ => none
  | fuel + 1, offset =>
    match call offset with
    | .error _ => none
    | .ok page =>
      match page.next with
      | none => some [page]
      | some next => (pagesFrom call fuel next).map (page :: ·)

/-- The pages are the items, each once and in their order. -/
structure PagesCover {α : Type} (items : List α) (limit : Nat) (pages : List (DocsPage α)) : Prop where
  whole : pages.flatMap DocsPage.items = items
  total : ∀ page ∈ pages, page.total = items.length
  returned : ∀ page ∈ pages, page.returned = page.items.length ∧ page.returned ≤ limit
  truncated : ∃ front last, pages = front ++ [last] ∧ last.truncated = false ∧ ∀ page ∈ front, page.truncated = true

/-- Calls for pages, from the first on, end and cover some items. -/
def PagesThrough {ε α : Type} (call : Nat → Except ε (DocsPage α)) (limit : Nat) (items : List α) : Prop :=
  ∃ pages, (∀ fuel, items.length < fuel → pagesFrom call fuel 0 = some pages) ∧ PagesCover items limit pages

variable {ε α : Type} {items : List α} {offset limit : Nat}

theorem tclRange_window (positive : 0 < limit) :
    tclRange items offset (offset + limit - 1) = (items.drop offset).take limit := by
  have last : ((offset : Int) + limit - 1 + 1).toNat = offset + limit := by omega
  rw [tclRange, last, List.drop_take, Nat.add_sub_cancel_left]

/-- A page by its items. -/
theorem docsPage_items (positive : 0 < limit) :
    (docsPage items offset limit).items = (items.drop offset).take limit :=
  tclRange_window positive

theorem docsPage_returned (items : List α) (offset : Nat) (positive : 0 < limit) :
    (docsPage items offset limit).returned = min limit (items.length - offset) := by
  have window : (docsPage items offset limit).returned = ((items.drop offset).take limit).length :=
    congrArg List.length (tclRange_window positive)
  rw [window, List.length_take, List.length_drop]

theorem docsPage_next (items : List α) (offset : Nat) (positive : 0 < limit) : (docsPage items offset limit).next =
    if offset + limit < items.length then some (offset + limit) else none := by
  have returned := docsPage_returned items offset positive
  have own : (docsPage items offset limit).next =
    if offset + (docsPage items offset limit).returned < items.length then some
      (offset + (docsPage items offset limit).returned)
    else none := rfl
  rw [own, returned]
  by_cases more : offset + limit < items.length
  · rw [if_pos more, if_pos (by omega), Nat.min_eq_left (by omega)]
  · rw [if_neg more, if_neg (by omega)]

theorem docsPage_truncated (items : List α) (offset limit : Nat) :
    (docsPage items offset limit).truncated = (docsPage items offset limit).next.isSome := rfl

/-- From an offset on, the pages are what follows it. -/
theorem pagesFrom_cover {call : Nat → Except ε (DocsPage α)} (positive : 0 < limit)
    (paged : ∀ offset ≤ items.length, call offset = .ok (docsPage items offset limit))
    (inside : offset ≤ items.length) :
    ∃ pages, (∀ fuel, items.length < offset + fuel → pagesFrom call fuel offset = some pages) ∧
      pages.flatMap DocsPage.items = items.drop offset ∧
      (∀ page ∈ pages, page.total = items.length) ∧
      (∀ page ∈ pages, page.returned = page.items.length ∧ page.returned ≤ limit) ∧
      ∃ front last, pages = front ++ [last] ∧ last.truncated = false ∧ ∀ page ∈ front, page.truncated = true := by
  have own : ∀ offset, (docsPage items offset limit).returned = (docsPage items offset limit).items.length ∧
      (docsPage items offset limit).returned ≤ limit := by
    intro offset
    refine ⟨rfl, ?_⟩
    rw [docsPage_returned items offset positive]
    exact Nat.min_le_left ..
  have next := docsPage_next items offset positive
  have truncated := docsPage_truncated items offset limit
  induction h : items.length - offset using Nat.strongRecOn generalizing offset with
  | ind k ih =>
    subst h
    by_cases more : offset + limit < items.length
    · rw [if_pos more] at next
      obtain ⟨pages, runs, whole, total, returned, front, last, split, final, before⟩ :=
        ih (items.length - (offset + limit)) (by omega)
        (by omega) (docsPage_next items (offset + limit) positive)
          (docsPage_truncated items (offset + limit) limit) rfl
      refine ⟨docsPage items offset limit :: pages, fun fuel enough => ?_, ?_, ?_, ?_,
        docsPage items offset limit :: front, last, ?_,
        final, ?_⟩
      · obtain ⟨fuel, rfl⟩ : ∃ k, fuel = k + 1 := ⟨fuel - 1, by omega⟩
        rw [pagesFrom, paged offset inside]
        simp only [next]
        rw [runs fuel (by omega), Option.map_some]
      · rw [List.flatMap_cons, whole, docsPage_items positive, ← List.drop_drop, List.take_append_drop]
      · exact List.forall_mem_cons.mpr ⟨rfl, total⟩
      · exact List.forall_mem_cons.mpr ⟨own offset, returned⟩
      · rw [split, List.cons_append]
      · exact List.forall_mem_cons.mpr ⟨by rw [truncated, next]; rfl, before⟩
    · rw [if_neg more] at next
      refine ⟨[docsPage items offset limit], fun fuel enough => ?_, ?_, ?_, ?_, [],
        docsPage items offset limit, rfl, ?_, ?_⟩
      · obtain ⟨fuel, rfl⟩ : ∃ k, fuel = k + 1 := ⟨fuel - 1, by omega⟩
        rw [pagesFrom, paged offset inside]
        simp only [next]
      · rw [List.flatMap_singleton, docsPage_items positive, List.take_of_length_le]
        rw [List.length_drop]
        omega
      · exact List.forall_mem_singleton.mpr rfl
      · exact List.forall_mem_singleton.mpr (own offset)
      · rw [truncated, next]
        rfl
      · intro page bad
        exact absurd bad List.not_mem_nil

theorem PagesThrough.of_calls {call : Nat → Except ε (DocsPage α)} (positive : 0 < limit)
    (paged : ∀ offset ≤ items.length, call offset = .ok (docsPage items offset limit)) :
    PagesThrough call limit items := by
  obtain ⟨pages, runs, whole, total, returned, last⟩ := pagesFrom_cover positive paged (Nat.zero_le _)
  exact ⟨pages, fun fuel enough => runs fuel (by omega), whole, total, returned, last⟩

end Machteld
