import Machteld.Json.FailClosed
import Machteld.Json.Line
import Machteld.Json.Typed

namespace Machteld

/-- The value of a call once `json encode` is done with it: a forced
container is read in place, so a value of another type becomes one. -/
def encodedLeft (tcl : Tcl) (flags : EncodeFlags) (v : Obj) : Obj :=
  if flags.asDict ∧ flags.asList then v
  else
    match forced tcl flags v with
    | .ok w => w
    | .error _ => v

def jsonExclusive : TclError := jsonErr "usage" (ascii "-dict and -list are exclusive")

section

variable {yy : Yyjson}

mutual

theorem jsonEmit_plain_untyped : ∀ {v : Obj} {depth : Nat} {out : Bytes},
    jsonEmit yy true depth v = .ok out → v.typedValues = []
  | .str _, _, _, _ => rfl
  | .typed x, depth, out, emitted => by
    obtain ⟨_, typed⟩ := jsonCapped_ok.mp emitted
    cases (jsonEmitTyped_ok.mp typed).1
  | .list items, depth, out, emitted => by
    obtain ⟨_, inside⟩ := jsonCapped_ok.mp emitted
    obtain ⟨body, emittedBody, _⟩ := Except.map_ok.mp inside
    exact jsonEmitItems_plain_untyped emittedBody
  | .dict entries, depth, out, emitted => by
    obtain ⟨_, inside⟩ := jsonCapped_ok.mp emitted
    obtain ⟨body, emittedBody, _⟩ := Except.map_ok.mp inside
    exact jsonEmitEntries_plain_untyped emittedBody

theorem jsonEmitItems_plain_untyped : ∀ {items : List Obj} {first : Bool} {depth : Nat} {out : Bytes},
    jsonEmitItems yy true first depth items = .ok out → typedOfItems items = []
  | [], _, _, _, _ => rfl
  | item :: items, first, depth, out, emitted => by
    obtain ⟨head, emittedHead, later⟩ := Except.bind_ok.mp emitted
    obtain ⟨tail, emittedTail, _⟩ := Except.map_ok.mp later
    rw [typedOfItems, jsonEmit_plain_untyped emittedHead, jsonEmitItems_plain_untyped emittedTail]
    rfl

theorem jsonEmitEntries_plain_untyped : ∀ {entries : List (Bytes × Obj)} {first : Bool} {depth : Nat} {out : Bytes},
    jsonEmitEntries yy true first depth entries = .ok out → typedOfEntries entries = []
  | [], _, _, _, _ => rfl
  | (key, value) :: entries, first, depth, out, emitted => by
    obtain ⟨head, emittedHead, later⟩ := Except.bind_ok.mp emitted
    obtain ⟨tail, emittedTail, _⟩ := Except.map_ok.mp later
    rw [typedOfEntries, jsonEmit_plain_untyped emittedHead, jsonEmitEntries_plain_untyped emittedTail]
    rfl

end

mutual

/-- Without typed values the guard changes nothing. -/
theorem jsonEmit_plain_same : ∀ {v : Obj} {depth : Nat}, v.typedValues = [] →
    jsonEmit yy true depth v = jsonEmit yy false depth v
  | .str _, _, _ => rfl
  | .typed _, _, untyped => nomatch untyped
  | .list items, depth, untyped => by
    rw [jsonEmit, jsonEmit, jsonEmitItems_plain_same untyped]
  | .dict entries, depth, untyped => by
    rw [jsonEmit, jsonEmit, jsonEmitEntries_plain_same untyped]

theorem jsonEmitItems_plain_same : ∀ {items : List Obj} {first : Bool} {depth : Nat}, typedOfItems items = [] →
    jsonEmitItems yy true first depth items = jsonEmitItems yy false first depth items
  | [], _, _, _ => rfl
  | item :: items, first, depth, untyped => by
    obtain ⟨here, later⟩ := List.append_eq_nil_iff.mp untyped
    rw [jsonEmitItems, jsonEmitItems, jsonEmit_plain_same here, jsonEmitItems_plain_same later]

theorem jsonEmitEntries_plain_same : ∀ {entries : List (Bytes × Obj)} {first : Bool} {depth : Nat},
    typedOfEntries entries = [] → jsonEmitEntries yy true first depth entries =
      jsonEmitEntries yy false first depth entries
  | [], _, _, _ => rfl
  | (key, value) :: entries, first, depth, untyped => by
    obtain ⟨here, later⟩ := List.append_eq_nil_iff.mp untyped
    rw [jsonEmitEntries, jsonEmitEntries, jsonEmit_plain_same here, jsonEmitEntries_plain_same later]

end

theorem jsonCapped_shallow {depth : Nat} {emit : Except TclError Bytes} {e : TclError} (below : depth < 512)
    (failed : jsonCapped depth emit = .error e) : emit = .error e := by
  rwa [jsonCapped, if_neg (show ¬ jsonMaxDepth ≤ depth from Nat.not_le.mpr below)] at failed

mutual

/-- Within the cap the guard is all that plain encoding refuses by. -/
theorem jsonEmit_shallow : ∀ {v : Obj} {depth : Nat} {e : TclError}, depth + v.depth ≤ 512 →
    jsonEmit yy true depth v = .error e → e = jsonTypedRefused
  | .str s, depth, e, room, failed => by
    have below : depth + 1 ≤ 512 := room
    cases jsonCapped_shallow (by omega) failed
  | .typed x, depth, e, room, failed => by
    have below : depth + 1 ≤ 512 := room
    exact (Except.error.inj (jsonCapped_shallow (by omega) failed)).symm
  | .list items, depth, e, room, failed => by
    have inside : depth + (1 + depthOfItems items) ≤ 512 := room
    exact jsonEmitItems_shallow (by omega) (Except.map_error (jsonCapped_shallow (by omega) failed))
  | .dict entries, depth, e, room, failed => by
    have inside : depth + (1 + depthOfEntries entries) ≤ 512 := room
    exact jsonEmitEntries_shallow (by omega) (Except.map_error (jsonCapped_shallow (by omega) failed))

theorem jsonEmitItems_shallow : ∀ {items : List Obj} {first : Bool} {depth : Nat} {e : TclError},
    depth + 1 + depthOfItems items ≤ 512 → jsonEmitItems yy true first depth items = .error e → e = jsonTypedRefused
  | [], _, _, _, _, failed => by cases failed
  | item :: items, first, depth, e, room, failed => by
    have inside : depth + 1 + max item.depth (depthOfItems items) ≤ 512 := room
    rcases Except.bind_error failed with here | ⟨head, _, later⟩
    · exact jsonEmit_shallow (by omega) here
    · exact jsonEmitItems_shallow (by omega) (Except.map_error later)

theorem jsonEmitEntries_shallow : ∀ {entries : List (Bytes × Obj)} {first : Bool} {depth : Nat} {e : TclError},
    depth + 1 + depthOfEntries entries ≤ 512 → jsonEmitEntries yy true first depth entries = .error e →
      e = jsonTypedRefused
  | [], _, _, _, _, failed => by cases failed
  | (key, value) :: entries, first, depth, e, room, failed => by
    have inside : depth + 1 + max value.depth (depthOfEntries entries) ≤ 512 := room
    rcases Except.bind_error failed with here | ⟨head, _, later⟩
    · exact jsonEmit_shallow (by omega) here
    · exact jsonEmitEntries_shallow (by omega) (Except.map_error later)

end

theorem jsonEmit_guard {w : Obj} (typed : w.typedValues ≠ []) :
    (w.depth ≤ 512 → jsonEmit yy true 0 w = .error jsonTypedRefused) ∧
      (jsonEmit yy true 0 w = .error jsonTypedRefused ∨ jsonEmit yy true 0 w = .error jsonTooDeep) := by
  have refused : ¬ ∃ out, jsonEmit yy true 0 w = .ok out :=
    fun ⟨_, emitted⟩ => typed (jsonEmit_plain_untyped emitted)
  obtain ⟨e, failed⟩ := Except.not_ok refused
  constructor
  · intro room
    have same := jsonEmit_shallow (by omega) failed
    rw [failed, same]
  · rcases jsonEmit_error failed with deep | refused
    · exact Or.inr (by rw [failed, deep])
    · exact Or.inl (by rw [failed, refused])

end

/-- A call whose words are `flags` and the value `v`. -/
def EncodeWords (yy : Yyjson) (tcl : Tcl) (args : List Obj) (flags : EncodeFlags) (v : Obj) : Prop :=
  encodeArgs yy tcl true .none none args = .ok (flags, some v)

theorem EncodeWords.exclusive {yy : Yyjson} {tcl : Tcl} {args : List Obj} {flags : EncodeFlags} {v : Obj}
    (call : EncodeWords yy tcl args flags v) (both : flags.asDict ∧ flags.asList) :
    jsonEncode yy tcl args = .error jsonExclusive := by
  have read : encodeArgs yy tcl true .none none args = .ok (flags, some v) := call
  simp only [jsonEncode, encodeCall, read, Except.bind, if_pos both]
  rfl

theorem EncodeWords.encode {yy : Yyjson} {tcl : Tcl} {args : List Obj} {flags : EncodeFlags} {v : Obj}
    (call : EncodeWords yy tcl args flags v) (single : ¬ (flags.asDict ∧ flags.asList)) :
    jsonEncode yy tcl args = (forced tcl flags v).bind (jsonEmit yy flags.plainOnly 0) := by
  rw [jsonEncode_of_args call single, jsonEncodeValue_forced]

/-- What `-plain` changes, for a value that is not a typed handle read as a
list: nothing where no typed value is walked, a refusal where one is. -/
theorem jsonEncode_plain_guard (yy : Yyjson) (tcl : Tcl) (asDict asList : Bool) (v : Obj)
    (unread : asList = true → ∀ x, v ≠ .typed x) :
    (∀ args args', EncodeWords yy tcl args ⟨asDict, asList, true⟩ v →
      EncodeWords yy tcl args' ⟨asDict, asList, false⟩ v →
      (asDict ∧ asList → jsonEncode yy tcl args = .error jsonExclusive ∧
        jsonEncode yy tcl args' = .error jsonExclusive) ∧
      (¬ (asDict ∧ asList) →
        (∀ e, forced tcl ⟨asDict, asList, true⟩ v = .error e →
          jsonEncode yy tcl args = .error e ∧ jsonEncode yy tcl args' = .error e) ∧
        ∀ w, forced tcl ⟨asDict, asList, true⟩ v = .ok w →
          (w.typedValues = [] → jsonEncode yy tcl args = jsonEncode yy tcl args') ∧
          (w.typedValues ≠ [] →
            (w.depth ≤ 512 → jsonEncode yy tcl args = .error jsonTypedRefused) ∧
            (jsonEncode yy tcl args = .error jsonTypedRefused ∨ jsonEncode yy tcl args = .error jsonTooDeep)))) ∧
    ∀ plainOnly x, v = .typed x →
      jsonType (encodedLeft tcl ⟨asDict, asList, plainOnly⟩ v) = jsonType v ∧
        ∀ before after, jsonEncode yy tcl (before ++ encodedLeft tcl ⟨asDict, asList, plainOnly⟩ v :: after) =
          jsonEncode yy tcl (before ++ v :: after) := by
  constructor
  · intro args args' call call'
    refine ⟨fun both => ⟨call.exclusive both, call'.exclusive both⟩,
      fun single => ⟨fun e failed => ?_, fun w read => ?_⟩⟩
    · have same : forced tcl ⟨asDict, asList, false⟩ v = .error e := failed
      rw [call.encode single, call'.encode single, failed, same]
      exact ⟨rfl, rfl⟩
    · have same : forced tcl ⟨asDict, asList, false⟩ v = .ok w := read
      rw [call.encode single, call'.encode single, read, same]
      exact ⟨fun untyped => jsonEmit_plain_same untyped, fun typed => jsonEmit_guard typed⟩
  · rintro plainOnly x rfl
    have noList : asList = false := by
      by_contra list
      exact unread (by simpa using list) x rfl
    have kept : encodedLeft tcl ⟨asDict, asList, plainOnly⟩ (.typed x) = .typed x := by
      subst noList
      cases asDict <;> rfl
    rw [kept]
    exact ⟨rfl, fun _ _ => rfl⟩

/-- `json value number 7` -/
def sevenTyped : TypedJson := (MutNode.number (ascii "7") ((jsonIsNumberLiteral_iff _).mp rfl)).wrap

/-- A Tcl in which a typed value's text is a list of one word. -/
def oneWordTcl : Tcl :=
  ⟨strictTcl.stringOf, fun
    | .typed x => .ok [.str (jsonTypeString referenceYyjson x)]
    | v => strictTcl.listOf v, strictTcl.dictOf, strictTcl.exprOf, strictTcl.wrongNumArgs⟩

theorem jsonEncode_plain_guard_sample :
    jsonEncode referenceYyjson oneWordTcl [.str (ascii "-plain"), .str (ascii "--"), .typed sevenTyped] =
      .error jsonTypedRefused :=
  ((((jsonEncode_plain_guard referenceYyjson oneWordTcl false false (.typed sevenTyped) nofun).1
    [.str (ascii "-plain"), .str (ascii "--"), .typed sevenTyped] [.str (ascii "--"), .typed sevenTyped] rfl rfl).2
    (by decide)).2 _ rfl).2 (by simp [Obj.typedValues]) |>.1 (by decide)

/-- With both force options the call is refused as such; with `-list` a
typed handle is read as a list before it is looked at, and is none
afterwards. -/
theorem jsonEncode_plain_guard_list :
    jsonEncode referenceYyjson oneWordTcl
        [.str (ascii "-dict"), .str (ascii "-list"), .str (ascii "-plain"), .str (ascii "--"), .typed sevenTyped] =
      .error jsonExclusive ∧
    jsonExclusive.errorcode ≠ jsonTypedRefused.errorcode ∧
    jsonEncode referenceYyjson oneWordTcl [.str (ascii "-list"), .str (ascii "-plain"), .typed sevenTyped] =
      .ok (ascii "[7]") ∧
    jsonType (.typed sevenTyped) = .ok (ascii "number") ∧
    jsonType (encodedLeft oneWordTcl ⟨false, true, true⟩ (.typed sevenTyped)) = .error jsonNotTyped := by
  exact ⟨rfl, by decide, rfl, rfl, rfl⟩

end Machteld
