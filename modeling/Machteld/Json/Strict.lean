import Machteld.Except
import Machteld.Json.RoundTrip
import Machteld.Json.Typed

namespace Machteld

open Rfc8259

namespace Rfc8259

mutual

/-- The levels of a document; a scalar is one. -/
def Json.depth : Json → Nat
  | .array items => 1 + depthOfJsonItems items
  | .object members => 1 + depthOfJsonMembers members
  | _ => 1

def depthOfJsonItems : List Json → Nat
  | [] => 0
  | item :: items => max item.depth (depthOfJsonItems items)

def depthOfJsonMembers : List (Bytes × Json) → Nat
  | [] => 0
  | (_, item) :: members => max item.depth (depthOfJsonMembers members)

end

mutual

/-- No object of a document has two members of one name. -/
def Json.NoDuplicates : Json → Prop
  | .array items => NoDuplicatesIn items
  | .object members => (members.map Prod.fst).Nodup ∧ NoDuplicatesAmong members
  | _ => True

def NoDuplicatesIn : List Json → Prop
  | [] => True
  | item :: items => item.NoDuplicates ∧ NoDuplicatesIn items

def NoDuplicatesAmong : List (Bytes × Json) → Prop
  | [] => True
  | (_, item) :: members => item.NoDuplicates ∧ NoDuplicatesAmong members

end

end Rfc8259

/-- `JsonKeyCompare`: by length, then by `memcmp`. -/
def jsonKeyCompare (x y : Bytes) : Ordering :=
  if x.length ≠ y.length then if x.length < y.length then .lt else .gt else List.compareLex compare x y

/-- The pairwise loops of `JsonObjHasDuplicate`. -/
def pairwiseDuplicate : List Bytes → Option Bytes
  | [] => none
  | k :: rest => if rest.any fun k2 => decide (k2 = k) then some k else pairwiseDuplicate rest

/-- The scan for a key that equals the one before it. -/
def adjacentDuplicate : List Bytes → Option Bytes
  | [] => none
  | [_] => none
  | k :: k2 :: rest => if k2 = k then some k2 else adjacentDuplicate (k2 :: rest)

/-- `qsort` of the keys and the scan. -/
def sortedDuplicate (keys : List Bytes) : Option Bytes :=
  adjacentDuplicate (keys.mergeSort fun x y => (jsonKeyCompare x y).isLE)

/-- `JsonObjHasDuplicate`, where memory is not short. -/
def jsonObjHasDuplicate (keys : List Bytes) : Option Bytes :=
  if keys.length < 2 then none
  else if keys.length ≤ 16 then pairwiseDuplicate keys
  else sortedDuplicate keys

inductive StrictFault
  | duplicate (badKey : Bytes)
  | tooDeep

def strictCapped (depth : Nat) (check : Except StrictFault Unit) : Except StrictFault Unit :=
  if jsonMaxDepth ≤ depth then .error .tooDeep else check

def checkDuplicate (keys : List Bytes) : Except StrictFault Unit :=
  match jsonObjHasDuplicate keys with
  | some badKey => .error (.duplicate badKey)
  | none => .ok ()

mutual

/-- `JsonCheckStrict` -/
def jsonCheckStrict (depth : Nat) : Json → Except StrictFault Unit
  | .array items => strictCapped depth (jsonCheckItems (depth + 1) items)
  | .object members =>
    strictCapped depth ((checkDuplicate (members.map Prod.fst)).bind fun _ => jsonCheckMembers (depth + 1) members)
  | _ => strictCapped depth (.ok ())

def jsonCheckItems (depth : Nat) : List Json → Except StrictFault Unit
  | [] => .ok ()
  | item :: items => (jsonCheckStrict depth item).bind fun _ => jsonCheckItems depth items

def jsonCheckMembers (depth : Nat) : List (Bytes × Json) → Except StrictFault Unit
  | [] => .ok ()
  | (_, item) :: members => (jsonCheckStrict depth item).bind fun _ => jsonCheckMembers depth members

end

def jsonTypedDefaultMaxbytes : Int := 16 * 1024 * 1024

def jsonTypedHardMaxbytes : Int := 64 * 1024 * 1024

structure DecodeFlags where
  typed : Bool
  maxBytesSet : Bool
  maxBytes : Int

def DecodeFlags.default : DecodeFlags := ⟨false, false, jsonTypedDefaultMaxbytes⟩

def jsonMaxbytesUsage : TclError := jsonErr "usage" (ascii "-maxbytes needs a positive byte count")

/-- How a failed strict check is reported. -/
def jsonStrictError : StrictFault → TclError
  | .duplicate badKey =>
    jsonErr "strict" (ascii "duplicate object key \"" ++ ((cString badKey).take 80 ++ ascii "\""))
  | .tooDeep => jsonDepthError

section

variable (yy : Yyjson) (tcl : Tcl) (words : TclWords)

/-- The argument loop of `json decode`. -/
def decodeArgs :
    DecodeFlags → Option Obj → List Obj → Except TclError (DecodeFlags × Option Obj)
  | flags, text, [] => .ok (flags, text)
  | flags, text, arg :: args =>
    let a := cString (getString yy tcl arg)
    if text.isNone ∧ a = ascii "-typed" then decodeArgs ⟨true, flags.maxBytesSet, flags.maxBytes⟩ text args
    else if text.isNone ∧ a = ascii "-maxbytes" then
      match args with
      | [] => .error jsonMaxbytesUsage
      | n :: args =>
        match words.wideInt n with
        | none => .error jsonMaxbytesUsage
        | some maxBytes =>
          if maxBytes < 1 then .error jsonMaxbytesUsage
          else decodeArgs ⟨flags.typed, true, maxBytes⟩ text args
    else if text.isSome then .error (jsonErr "usage" (ascii "unknown option"))
    else decodeArgs flags (some arg) args

end

section

variable {yy : Yyjson} (spec : yy.Spec) (tcl : Tcl) (words : TclWords)

include spec in
theorem decoded_numbers {s : Bytes} {t : Json} (read : yy.readOpts s = .ok t) :
    ∀ literal ∈ t.numbers, Number literal := ((spec.read_iff s t).mp read).sane.numbers

include spec in
theorem decoded_strings {s : Bytes} {t : Json} (read : yy.readOpts s = .ok t) :
    ∀ text ∈ t.strings, Utf8.WellFormed text := ((spec.read_iff s t).mp read).strings

/-- `json decode -typed` of a text. -/
def jsonDecodeTyped (maxBytes : Int) (s : Bytes) : Except TclError TypedJson :=
  if jsonTypedHardMaxbytes < maxBytes then
    .error (jsonErr "limit" (ascii "-maxbytes is above the documented hard cap (64 MiB)"))
  else if maxBytes < s.length then .error (jsonErr "limit" (ascii "document exceeds -maxbytes"))
  else
    match read : yy.readOpts s with
    | .error err => .error (jsonErr "parse" (jsonParseMessage err))
    | .ok t =>
      match jsonCheckStrict 0 t with
      | .error fault => .error (jsonStrictError fault)
      | .ok () => .ok ⟨.idoc, t, decoded_numbers spec read, fun _ => decoded_strings spec read⟩

/-- `json decode` with the words behind the subcommand. -/
def jsonDecodeCmd (args : List Obj) : Except TclError Obj :=
  (decodeArgs yy tcl words .default none args).bind fun (flags, text) =>
    match text with
    | none => .error (tcl.wrongNumArgs (ascii "?-typed? ?-maxbytes N? text"))
    | some v =>
      if flags.typed = false ∧ flags.maxBytesSet = true then
        .error (jsonErr "usage" (ascii "-maxbytes applies to -typed decode"))
      else if flags.typed then (jsonDecodeTyped spec flags.maxBytes (getString yy tcl v)).map .typed
      else jsonDecodeText yy (getString yy tcl v)

/-- With one word it is the plain decode of that word. -/
theorem jsonDecodeCmd_plain (s : Bytes) : jsonDecodeCmd spec tcl words [.str s] = jsonDecode yy tcl s := by
  have word : getString yy tcl (.str s) = s := rfl
  by_cases typed : cString s = ascii "-typed"
  · simp [jsonDecodeCmd, decodeArgs, word, jsonDecode, typed, Except.bind]
  · by_cases limit : cString s = ascii "-maxbytes"
    · simp [jsonDecodeCmd, decodeArgs, word, jsonDecode, limit, Except.bind, jsonMaxbytesUsage, show
        ascii "-maxbytes" ≠ ascii "-typed" by decide]
    · simp [jsonDecodeCmd, decodeArgs, word, jsonDecode, typed, limit, Except.bind, DecodeFlags.default]

end

/-- Keys are compared by their length first and by their bytes then, which
is a total order. -/
theorem jsonKeyCompare_lex (x y : Bytes) :
    jsonKeyCompare x y = compareLex (compareOn List.length) (compare : Bytes → Bytes → Ordering) x y := by
  have lex : List.compareLex compare x y = compare x y := rfl
  unfold jsonKeyCompare compareLex compareOn
  rw [lex]
  rcases Nat.lt_trichotomy x.length y.length with less | same | more
  · rw [if_pos (by omega), if_pos less, Nat.compare_eq_lt.mpr less]
    rfl
  · rw [if_neg (by omega), Nat.compare_eq_eq.mpr same]
    rfl
  · rw [if_pos (by omega), if_neg (by omega), Nat.compare_eq_gt.mpr more]
    rfl

theorem jsonKeyCompare_eq {x y : Bytes} : jsonKeyCompare x y = .eq ↔ x = y := by
  rw [jsonKeyCompare_lex, compareLex_eq_eq, Std.LawfulEqOrd.compare_eq_iff_eq (α := Bytes)]
  constructor
  · exact fun both => both.2
  · rintro rfl
    exact ⟨Nat.compare_eq_eq.mpr rfl, rfl⟩

/-- Comparing all pairs finds a duplicate where there is one. -/
theorem pairwiseDuplicate_none {keys : List Bytes} : pairwiseDuplicate keys = none ↔ keys.Nodup := by
  induction keys with
  | nil => simp [pairwiseDuplicate]
  | cons k rest ih =>
    have test : (rest.any fun k2 => decide (k2 = k)) = true ↔ k ∈ rest := by simp
    rw [pairwiseDuplicate, List.nodup_cons]
    by_cases known : k ∈ rest
    · rw [if_pos (test.mpr known)]
      simp [known]
    · rw [if_neg (mt test.mp known), ih]
      simp [known]

/-- In a sorted list equal keys are neighbours. -/
theorem adjacentDuplicate_none {keys : List Bytes} (sorted : keys.Pairwise fun x y => (jsonKeyCompare x y).isLE) :
    adjacentDuplicate keys = none ↔ keys.Nodup := by
  induction keys with
  | nil => simp [adjacentDuplicate]
  | cons k rest ih =>
    obtain ⟨first, later⟩ := List.pairwise_cons.mp sorted
    cases rest with
    | nil => simp [adjacentDuplicate]
    | cons k2 rest =>
      rw [adjacentDuplicate, List.nodup_cons]
      by_cases same : k2 = k
      · simp [same]
      · have between : k ∉ k2 :: rest := by
          intro member
          have lower := (List.pairwise_cons.mp later).1
          rcases List.mem_cons.mp member with here | inRest
          · exact same here.symm
          · have up := first k2 (List.mem_cons_self ..)
            have down := lower k inRest
            rw [jsonKeyCompare_lex] at up down
            have equal := Std.OrientedCmp.isLE_antisymm up down
            rw [← jsonKeyCompare_lex] at equal
            exact same (jsonKeyCompare_eq.mp equal).symm
        simp [same, between, ih later]

/-- In a sorted array equal keys stand beside each other, so that comparing
neighbours is enough, and both detectors find the same. -/
theorem sortedDuplicate_none {keys : List Bytes} : sortedDuplicate keys = none ↔ keys.Nodup := by
  have sorted : (keys.mergeSort fun x y => (jsonKeyCompare x y).isLE).Pairwise fun x y =>
    (jsonKeyCompare x y).isLE := by
    refine List.pairwise_mergeSort (fun a b c => ?_) (fun a b => ?_) keys
    · simp only [jsonKeyCompare_lex]
      exact Std.TransCmp.isLE_trans
    · simp only [jsonKeyCompare_lex]
      have swapped : compareLex (compareOn List.length) (compare : Bytes → Bytes → Ordering) b a =
          (compareLex (compareOn List.length) compare a b).swap := Std.OrientedCmp.eq_swap
      rw [swapped]
      cases compareLex (compareOn List.length) (compare : Bytes → Bytes → Ordering) a b <;> rfl
  rw [sortedDuplicate, adjacentDuplicate_none sorted]
  exact (List.mergeSort_perm keys _).nodup_iff

/-- Both detectors, whatever the number of members. -/
theorem jsonObjHasDuplicate_none {keys : List Bytes} : jsonObjHasDuplicate keys = none ↔ keys.Nodup := by
  unfold jsonObjHasDuplicate
  split_ifs with few small
  · match keys, few with
    | [], _ => simp
    | [_], _ => simp
  · exact pairwiseDuplicate_none
  · exact sortedDuplicate_none

theorem checkDuplicate_ok {keys : List Bytes} : checkDuplicate keys = .ok () ↔ keys.Nodup := by
  rw [← jsonObjHasDuplicate_none, checkDuplicate]
  cases jsonObjHasDuplicate keys <;> simp

/-- The strict walk goes on only where the depth is below the limit. -/
theorem strictCapped_ok {depth : Nat} {check : Except StrictFault Unit} :
    strictCapped depth check = .ok () ↔ depth < 512 ∧ check = .ok () := by
  unfold strictCapped
  by_cases deep : jsonMaxDepth ≤ depth
  · rw [if_pos deep]
    exact ⟨nofun, fun both => absurd both.1 (Nat.not_lt.mpr deep)⟩
  · rw [if_neg deep]
    exact ⟨fun fine => ⟨Nat.not_le.mp deep, fine⟩, fun both => both.2⟩

theorem strictCapped_leaf {depth : Nat} : strictCapped depth (.ok ()) = .ok () ↔ depth + 1 ≤ 512 ∧ True := by
  rw [strictCapped_ok]
  exact and_congr Iff.rfl (iff_true_intro rfl)

mutual

/-- The check accepts the documents within the cap that have no duplicates.
-/
theorem jsonCheckStrict_ok : ∀ {t : Json} {depth : Nat},
    jsonCheckStrict depth t = .ok () ↔ depth + t.depth ≤ 512 ∧ t.NoDuplicates
  | .array items, depth => by
    rw [jsonCheckStrict, strictCapped_ok, jsonCheckItems_ok, Json.depth, Json.NoDuplicates]
    constructor
    · rintro ⟨below, room, fine⟩
      refine ⟨?_, fine⟩
      rcases room with rfl | room
      · rw [depthOfJsonItems]
        omega
      · omega
    · exact fun ⟨room, fine⟩ => ⟨by omega, Or.inr (by omega), fine⟩
  | .object members, depth => by
    rw [jsonCheckStrict, strictCapped_ok, Except.bind_ok, Json.depth, Json.NoDuplicates]
    constructor
    · rintro ⟨below, _, distinct, rest⟩
      obtain ⟨room, fine⟩ := jsonCheckMembers_ok.mp rest
      refine ⟨?_, checkDuplicate_ok.mp distinct, fine⟩
      rcases room with rfl | room
      · rw [depthOfJsonMembers]
        omega
      · omega
    · exact fun ⟨room, distinct, fine⟩ =>
        ⟨by omega, (), checkDuplicate_ok.mpr distinct, jsonCheckMembers_ok.mpr ⟨Or.inr (by omega), fine⟩⟩
  | .null, depth => strictCapped_leaf
  | .bool _, depth => strictCapped_leaf
  | .number _, depth => strictCapped_leaf
  | .string _, depth => strictCapped_leaf

/-- The strict walk accepts an array where it is not too deep and no object
below it has a key twice. -/
theorem jsonCheckItems_ok : ∀ {items : List Json} {depth : Nat},
    jsonCheckItems depth items = .ok () ↔ (items = [] ∨ depth + depthOfJsonItems items ≤ 512) ∧ NoDuplicatesIn items
  | [], _ => by simp [jsonCheckItems, NoDuplicatesIn]
  | item :: items, depth => by
    rw [jsonCheckItems, Except.bind_ok, depthOfJsonItems, NoDuplicatesIn]
    constructor
    · rintro ⟨_, here, rest⟩
      obtain ⟨room, fine⟩ := jsonCheckStrict_ok.mp here
      obtain ⟨rooms, fines⟩ := jsonCheckItems_ok.mp rest
      refine ⟨Or.inr ?_, fine, fines⟩
      rcases rooms with rfl | rooms
      · rw [depthOfJsonItems]
        omega
      · omega
    · rintro ⟨room, fine, fines⟩
      have room := room.resolve_left (List.cons_ne_nil _ _)
      exact ⟨(), jsonCheckStrict_ok.mpr ⟨by omega, fine⟩, jsonCheckItems_ok.mpr ⟨Or.inr (by omega), fines⟩⟩

/-- The same for the members of an object, its own keys apart. -/
theorem jsonCheckMembers_ok : ∀ {members : List (Bytes × Json)} {depth : Nat},
    jsonCheckMembers depth members = .ok () ↔
      (members = [] ∨ depth + depthOfJsonMembers members ≤ 512) ∧ NoDuplicatesAmong members
  | [], _ => by simp [jsonCheckMembers, NoDuplicatesAmong]
  | (key, item) :: members, depth => by
    rw [jsonCheckMembers, Except.bind_ok, depthOfJsonMembers, NoDuplicatesAmong]
    constructor
    · rintro ⟨_, here, rest⟩
      obtain ⟨room, fine⟩ := jsonCheckStrict_ok.mp here
      obtain ⟨rooms, fines⟩ := jsonCheckMembers_ok.mp rest
      refine ⟨Or.inr ?_, fine, fines⟩
      rcases rooms with rfl | rooms
      · rw [depthOfJsonMembers]
        omega
      · omega
    · rintro ⟨room, fine, fines⟩
      have room := room.resolve_left (List.cons_ne_nil _ _)
      exact ⟨(), jsonCheckStrict_ok.mpr ⟨by omega, fine⟩, jsonCheckMembers_ok.mpr ⟨Or.inr (by omega), fines⟩⟩

end

/-- A text that the parser takes is refused for what the strict walk finds,
or becomes a typed value of the tree that was read. -/
theorem jsonDecodeTyped_checked {yy : Yyjson} (spec : yy.Spec) {maxBytes : Int} {s : Bytes} {t : Json}
    (cap : maxBytes ≤ jsonTypedHardMaxbytes) (within : (s.length : Int) ≤ maxBytes)
    (parsed : yy.readOpts s = .ok t) :
    (∀ fault, jsonCheckStrict 0 t = .error fault → jsonDecodeTyped spec maxBytes s =
      .error (jsonStrictError fault)) ∧
      (jsonCheckStrict 0 t = .ok () →
        jsonDecodeTyped spec maxBytes s =
          .ok ⟨.idoc, t, decoded_numbers spec parsed, fun _ => decoded_strings spec parsed⟩) := by
  rw [jsonDecodeTyped, if_neg (by omega), if_neg (by omega)]
  split
  · rename_i err refused
    rw [parsed] at refused
    cases refused
  · rename_i t' again
    obtain rfl : t = t' := Except.ok.inj (parsed.symm.trans again)
    constructor
    · intro fault failed
      rw [failed]
    · intro passed
      rw [passed]

theorem jsonDecodeCmd_typed {yy : Yyjson} (spec : yy.Spec) (tcl : Tcl) (words : TclWords) {args : List Obj}
    {flags : DecodeFlags} {v : Obj} (call : decodeArgs yy tcl words .default none args = .ok (flags, some v))
    (typed : flags.typed = true) :
    jsonDecodeCmd spec tcl words args = (jsonDecodeTyped spec flags.maxBytes (getString yy tcl v)).map .typed := by
  simp only [jsonDecodeCmd, call, Except.bind, typed]
  rfl

/-- Strict decode takes a document the library parses exactly when it is
within the cap and has no duplicates, whichever of the two detectors looks.
-/
theorem jsonDecodeCmd_strict_iff {yy : Yyjson} (spec : yy.Spec) (tcl : Tcl) (words : TclWords) {args : List Obj}
    {flags : DecodeFlags} {v : Obj} {t : Json}
    (call : decodeArgs yy tcl words .default none args = .ok (flags, some v))
    (typed : flags.typed = true) (cap : flags.maxBytes ≤ jsonTypedHardMaxbytes)
    (within : ((getString yy tcl v).length : Int) ≤ flags.maxBytes)
    (parsed : yy.readOpts (getString yy tcl v) = .ok t) :
    ((∃ r, jsonDecodeCmd spec tcl words args = .ok r) ↔ t.depth ≤ 512 ∧ t.NoDuplicates) ∧
      (∀ r, jsonDecodeCmd spec tcl words args = .ok r → ∃ x, r = .typed x ∧ x.wrap = .idoc ∧ x.node = t) ∧
      (∀ e, jsonDecodeCmd spec tcl words args = .error e → ∃ fault, e = jsonStrictError fault) ∧
      (∀ keys, (pairwiseDuplicate keys = none ↔ sortedDuplicate keys = none) ∧
        (jsonObjHasDuplicate keys = none ↔ keys.Nodup)) ∧
      ∀ name rest, jsonObjHasDuplicate [name, name ++ 0 :: rest] = none := by
  obtain ⟨refused, accepted⟩ := jsonDecodeTyped_checked spec cap within parsed
  have verdict := @jsonCheckStrict_ok t 0
  rw [Nat.zero_add] at verdict
  rw [jsonDecodeCmd_typed spec tcl words call typed]
  have both : ∀ keys, (pairwiseDuplicate keys = none ↔ sortedDuplicate keys = none) ∧
      (jsonObjHasDuplicate keys = none ↔ keys.Nodup) :=
    fun keys => ⟨pairwiseDuplicate_none.trans sortedDuplicate_none.symm, jsonObjHasDuplicate_none⟩
  have nul : ∀ name rest, jsonObjHasDuplicate [name, name ++ 0 :: rest] = none :=
    fun name rest => jsonObjHasDuplicate_none.mpr (by simp)
  cases check : jsonCheckStrict 0 t with
  | error fault =>
    rw [refused fault check]
    refine ⟨⟨nofun, fun fine => ?_⟩, nofun, fun e failed => ⟨fault, (Except.error.inj failed).symm⟩, both, nul⟩
    rw [verdict.mpr fine] at check
    cases check
  | ok =>
    rw [accepted check]
    refine ⟨⟨fun _ => verdict.mp check, fun _ => ⟨_, rfl⟩⟩, fun r same => ?_, nofun, both, nul⟩
    exact ⟨_, (Except.ok.inj same).symm, rfl, rfl⟩

/-- A Tcl whose integers are its decimal digits. -/
def plainWords : TclWords where
  wideInt
    | .str s =>
      if s ≠ [] ∧ s.all (fun c => decide (IsDigit c)) then some
        (s.foldl (fun n c => 10 * n + (c.toNat - 0x30)) 0) else none
    | _ => none
  boolean
    | .str s =>
      if s = ascii "1" then .ok true else if s = ascii "0" then .ok false else .error ⟨ascii "expected boolean", []⟩
    | _ => .error ⟨ascii "expected boolean", []⟩
  badIndex what word :=
    ⟨ascii "bad " ++ (what ++ (space :: word)), [ascii "TCL", ascii "LOOKUP", ascii "INDEX", what, word]⟩

/-- Objects in an array and in an object, and names that begin alike. -/
def strictTree (name : Bytes) : Json :=
  .object [(ascii "a", .array [.object [(ascii "b", .number (ascii "1")), (name, .array [])],
    .object [(ascii "b", .null)]]),
    (ascii "ab", .object [(ascii "a", .bool true)]), (ascii "a" ++ [0], .string (ascii "x"))]

theorem strictTree_text {name : Bytes} (whole : Utf8.WellFormed name) :
    Text (strictTree name) (compact jsonEscape (strictTree name)) := by
  refine jsonEscape_spelling.text (List.forall_mem_singleton.mpr ((jsonIsNumberLiteral_iff _).mp (by decide)))
    fun text member => ?_
  have others : ∀ text ∈ [ascii "a", ascii "b", ascii "b", ascii "ab", ascii "a", ascii "a" ++ [0], ascii "x"],
    Utf8.WellFormed text := by
    decide
  by_cases same : text = name
  · exact same ▸ whole
  · refine others text ?_
    simp [strictTree, Json.strings, stringsOfMembers, stringsOfItems, same] at member ⊢
    tauto

/-- A name that a member of the innermost object has already is refused. -/
theorem jsonDecodeCmd_strict_sample :
    (∃ r, jsonDecodeCmd referenceYyjson_spec strictTcl plainWords
      [.str (ascii "-typed"), .str (compact jsonEscape (strictTree (ascii "a")))] = .ok r) ∧
    ¬ ∃ r, jsonDecodeCmd referenceYyjson_spec strictTcl plainWords
      [.str (ascii "-typed"), .str (compact jsonEscape (strictTree (ascii "b")))] = .ok r := by
  have call : ∀ s, decodeArgs referenceYyjson strictTcl plainWords .default none [.str (ascii "-typed"),
    .str (0x7B :: s)] =
      .ok (⟨true, false, jsonTypedDefaultMaxbytes⟩, some (.str (0x7B :: s))) := fun _ => rfl
  have accepted :=
    (jsonDecodeCmd_strict_iff referenceYyjson_spec strictTcl plainWords (call _) rfl (by decide) (by decide)
    ((referenceYyjson_spec.read_iff _ _).mpr (@strictTree_text (ascii "a") (by decide)))).1
  have refused := (jsonDecodeCmd_strict_iff referenceYyjson_spec strictTcl plainWords (call _) rfl
    (by decide) (by decide)
    ((referenceYyjson_spec.read_iff _ _).mpr (@strictTree_text (ascii "b") (by decide)))).1
  refine ⟨accepted.mpr ⟨by decide, ?_⟩, fun taken => ?_⟩
  · exact ⟨by decide, ⟨⟨by decide, trivial, trivial, trivial⟩, ⟨by decide, trivial, trivial⟩, trivial⟩,
      ⟨by decide, trivial, trivial⟩, trivial, trivial⟩
  · obtain ⟨-, -, ⟨⟨twice, -⟩, -⟩, -⟩ := refused.mp taken
    exact absurd twice (by decide)

end Machteld
