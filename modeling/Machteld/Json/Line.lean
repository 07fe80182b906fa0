import Machteld.Channel
import Machteld.TclSpec

namespace Machteld

open Rfc8259

section

variable {yy : Yyjson}

mutual

/-- Every value without a typed part is decoded to something. -/
theorem yyToTcl_total : ∀ {v : Obj} {depth : Nat}, v.typedValues = [] → depth + v.depth ≤ 512 →
    ∃ w, yyToTcl depth v.tree = some w
  | .str s, depth, _, room => ⟨_, yyToTcl_leaf depth room s⟩
  | .list items, depth, plain, room => by
    have inside : depth + (1 + depthOfItems items) ≤ 512 := room
    have room : depth + 1 + depthOfItems items ≤ 512 := by omega
    obtain ⟨os, decoded⟩ := yyItemsToTcl_total plain room
    exact ⟨newListObj os, by simp only [Obj.tree, yyToTcl, if_neg (below_cap (show depth < 512 by omega)), decoded,
      Option.map_some]⟩
  | .dict entries, depth, plain, room => by
    have inside : depth + (1 + depthOfEntries entries) ≤ 512 := room
    have room : depth + 1 + depthOfEntries entries ≤ 512 := by omega
    obtain ⟨os, decoded⟩ := yyMembersToTcl_total plain room []
    exact ⟨.dict os, by simp only [Obj.tree, yyToTcl, if_neg (below_cap (show depth < 512 by omega)), decoded,
      Option.map_some]⟩

theorem yyItemsToTcl_total : ∀ {items : List Obj} {depth : Nat}, typedOfItems items = [] →
    depth + depthOfItems items ≤ 512 → ∃ os, yyItemsToTcl depth (treeOfItems items) = some os
  | [], _, _, _ => ⟨[], rfl⟩
  | item :: items, depth, plain, room => by
    have inside : depth + max item.depth (depthOfItems items) ≤ 512 := room
    obtain ⟨first, rest⟩ := List.append_eq_nil_iff.mp plain
    obtain ⟨o, head⟩ := yyToTcl_total first (show depth + item.depth ≤ 512 by omega)
    obtain ⟨os, tail⟩ := yyItemsToTcl_total rest (show depth + depthOfItems items ≤ 512 by omega)
    exact ⟨o :: os, by simp only [treeOfItems, yyItemsToTcl, head, tail, Option.bind_some, Option.map_some]⟩

theorem yyMembersToTcl_total : ∀ {entries : List (Bytes × Obj)} {depth : Nat}, typedOfEntries entries = [] →
    depth + depthOfEntries entries ≤ 512 → ∀ before, ∃ os,
      yyMembersToTcl depth before (treeOfEntries entries) = some os
  | [], _, _, _, before => ⟨before, rfl⟩
  | (key, value) :: entries, depth, plain, room, before => by
    have inside : depth + max value.depth (depthOfEntries entries) ≤ 512 := room
    obtain ⟨first, rest⟩ := List.append_eq_nil_iff.mp plain
    obtain ⟨o, head⟩ := yyToTcl_total first (show depth + value.depth ≤ 512 by omega)
    obtain ⟨os, tail⟩ :=
      yyMembersToTcl_total rest (show depth + depthOfEntries entries ≤ 512 by omega) (dictPut key o before)
    exact ⟨os, by simp only [treeOfEntries, yyMembersToTcl, head, Option.bind_some, tail]⟩

end

theorem treeOfEntries_keys (entries : List (Bytes × Obj)) :
    (treeOfEntries entries).map Prod.fst = entries.map Prod.fst := by
  induction entries with
  | nil => rfl
  | cons entry entries ih => simp only [treeOfEntries, List.map_cons, ih]

/-- Members of other names leave a key as it was. -/
theorem yyMembersToTcl_get {key : Bytes} : ∀ {members : List (Bytes × Json)} {depth : Nat}
    {before entries : List (Bytes × Obj)}, yyMembersToTcl depth before members = some entries →
      key ∉ members.map Prod.fst → dictGet key entries = dictGet key before
  | [], _, _, _, decoded, _ => by
    obtain rfl := Option.some.inj decoded
    rfl
  | (k, item) :: members, depth, before, entries, decoded, fresh => by
    obtain ⟨o, _, later⟩ := Option.bind_eq_some_iff.mp decoded
    simp only [List.map_cons, List.mem_cons, not_or] at fresh
    rw [yyMembersToTcl_get later fresh.2, dictGet_dictPut, if_neg fun same => fresh.1 same.symm]

theorem jsonQuote_printable (s : Bytes) : Printable (jsonQuote s) :=
  .cons (by decide) ((jsonEscape_spelling.chars s).printable.append (.single (by decide)))

mutual

/-- Without typed parts the emitter writes no control character. -/
theorem jsonEmit_printable :
    ∀ {v : Obj} {depth : Nat} {out : Bytes}, jsonEmit yy true depth v = .ok out → Printable out
  | .str s, depth, out, emitted => by
    obtain ⟨_, same⟩ := jsonCapped_ok.mp emitted
    obtain rfl := Except.ok.inj same
    split_ifs with number
    · exact fun c member => (((jsonIsNumberLiteral_iff s).mp number).chars.2 c member).ascii.1
    · exact jsonQuote_printable s
  | .typed x, depth, out, emitted => by
    obtain ⟨_, typed⟩ := jsonCapped_ok.mp emitted
    cases (jsonEmitTyped_ok.mp typed).1
  | .list items, depth, out, emitted => by
    obtain ⟨_, inside⟩ := jsonCapped_ok.mp emitted
    obtain ⟨body, emittedBody, rfl⟩ := Except.map_ok.mp inside
    have all := jsonEmitItems_printable emittedBody
    exact .cons (by decide) (all.append (.single (by decide)))
  | .dict entries, depth, out, emitted => by
    obtain ⟨_, inside⟩ := jsonCapped_ok.mp emitted
    obtain ⟨body, emittedBody, rfl⟩ := Except.map_ok.mp inside
    have all := jsonEmitEntries_printable emittedBody
    exact .cons (by decide) (all.append (.single (by decide)))

theorem jsonEmitItems_printable : ∀ {items : List Obj} {first : Bool} {depth : Nat} {out : Bytes},
    jsonEmitItems yy true first depth items = .ok out → Printable out
  | [], _, _, out, emitted => by
    obtain rfl : [] = out := Except.ok.inj emitted
    exact List.forall_mem_nil _
  | item :: items, first, depth, out, emitted => by
    obtain ⟨head, emittedHead, later⟩ := Except.bind_ok.mp emitted
    obtain ⟨tail, emittedTail, rfl⟩ := Except.map_ok.mp later
    have both := (jsonEmit_printable emittedHead).append (jsonEmitItems_printable emittedTail)
    cases first
    · exact .cons (by decide) both
    · exact both

theorem jsonEmitEntries_printable : ∀ {entries : List (Bytes × Obj)} {first : Bool} {depth : Nat} {out : Bytes},
    jsonEmitEntries yy true first depth entries = .ok out → Printable out
  | [], _, _, out, emitted => by
    obtain rfl : [] = out := Except.ok.inj emitted
    exact List.forall_mem_nil _
  | (key, value) :: entries, first, depth, out, emitted => by
    obtain ⟨head, emittedHead, later⟩ := Except.bind_ok.mp emitted
    obtain ⟨tail, emittedTail, rfl⟩ := Except.map_ok.mp later
    have values := (jsonEmit_printable emittedHead).append (jsonEmitEntries_printable emittedTail)
    have both := (jsonQuote_printable key).append (.cons (show 0x20 ≤ (0x3A : UInt8).toNat by decide) values)
    cases first
    · exact .cons (by decide) both
    · exact both

end

end

theorem jsonCapped_error {depth : Nat} {emit : Except TclError Bytes} {e : TclError}
    (failed : jsonCapped depth emit = .error e) : e = jsonTooDeep ∨ emit = .error e := by
  unfold jsonCapped at failed
  split_ifs at failed
  · exact Or.inl (Except.error.inj failed).symm
  · exact Or.inr failed

mutual

/-- Plain encoding has two ways to refuse a value. -/
theorem jsonEmit_error {yy : Yyjson} : ∀ {v : Obj} {depth : Nat} {e : TclError},
    jsonEmit yy true depth v = .error e → e = jsonTooDeep ∨ e = jsonTypedRefused
  | .str s, depth, e, failed => by
    rcases jsonCapped_error failed with deep | inside
    · exact Or.inl deep
    · cases inside
  | .typed x, depth, e, failed => by
    rcases jsonCapped_error failed with deep | inside
    · exact Or.inl deep
    · exact Or.inr (Except.error.inj inside).symm
  | .list items, depth, e, failed => by
    rcases jsonCapped_error failed with deep | inside
    · exact Or.inl deep
    · exact jsonEmitItems_error (Except.map_error inside)
  | .dict entries, depth, e, failed => by
    rcases jsonCapped_error failed with deep | inside
    · exact Or.inl deep
    · exact jsonEmitEntries_error (Except.map_error inside)

theorem jsonEmitItems_error {yy : Yyjson} : ∀ {items : List Obj} {first : Bool} {depth : Nat} {e : TclError},
    jsonEmitItems yy true first depth items = .error e → e = jsonTooDeep ∨ e = jsonTypedRefused
  | [], _, _, _, failed => by cases failed
  | item :: items, first, depth, e, failed => by
    rcases Except.bind_error failed with here | ⟨head, _, later⟩
    · exact jsonEmit_error here
    · exact jsonEmitItems_error (Except.map_error later)

theorem jsonEmitEntries_error {yy : Yyjson} :
    ∀ {entries : List (Bytes × Obj)} {first : Bool} {depth : Nat} {e : TclError},
      jsonEmitEntries yy true first depth entries = .error e → e = jsonTooDeep ∨ e = jsonTypedRefused
  | [], _, _, _, failed => by cases failed
  | (key, value) :: entries, first, depth, e, failed => by
    rcases Except.bind_error failed with here | ⟨head, _, later⟩
    · exact jsonEmit_error here
    · exact jsonEmitEntries_error (Except.map_error later)

end

/-- A line without control characters is one line also once it is written.
-/
theorem one_line {encoded written : Bytes} (printable : Printable encoded)
    (sent : channelWrite encoded = some written) :
    lf ∉ written := by
  intro member
  rcases channelWrite_subset sent lf member with zero | inside
  · exact absurd zero (by decide)
  · exact absurd (printable lf inside) (by decide)

section

variable {yy : Yyjson} {tcl : Tcl}

/-- `json encode -plain`, as the protocol calls it. -/
theorem jsonEncode_plain (v : Obj) :
    (IsOptionWord (getString yy tcl v) → ∃ e, jsonEncode yy tcl [.str (ascii "-plain"), v] = .error e) ∧
      (¬ IsOptionWord (getString yy tcl v) → jsonEncode yy tcl [.str (ascii "-plain"), v] =
        jsonEmit yy true 0 v) := by
  have flag : encodeArgs yy tcl true .none none [.str (ascii "-plain"), v] =
      encodeArgs yy tcl true ⟨false, false, true⟩ none [v] := rfl
  constructor
  · intro option
    obtain ⟨flags, read⟩ := @encodeArgs_option yy tcl ⟨false, false, true⟩ v option
    exact ⟨_, by simp only [jsonEncode, encodeCall, flag, read, Except.bind]; rfl⟩
  · intro value
    have read := @encodeArgs_value yy tcl ⟨false, false, true⟩ v value
    exact jsonEncode_of_args (flag.trans read) (by decide)

/-- What encodes decodes to what it was. -/
theorem Fits.jsonDecode_emitted (spec : yy.Spec) (tcl : Tcl) {v : Obj} {out : Bytes} (fits : Fits 0 v)
    (emitted : jsonEmit yy true 0 v = .ok out) : jsonDecode yy tcl out = .ok v := by
  obtain ⟨out', emitted', text⟩ := (fits.emitted spec : ∃ out, jsonEmit yy true 0 v = .ok out ∧ Text v.tree out)
  obtain rfl := Except.ok.inj (emitted'.symm.trans emitted)
  exact (jsonDecode_ok_iff spec tcl).mpr ⟨_, text, fits.decoded⟩

end

end Machteld
