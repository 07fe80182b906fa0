import Machteld.Json.Number
import Machteld.Json.Value
import Machteld.Rfc8259.Writer

namespace Machteld

open Rfc8259

/-- A digit of `%x`. -/
def hexLower (n : Nat) : UInt8 := if n < 10 then UInt8.ofNat (0x30 + n) else UInt8.ofNat (0x57 + n)

/-- One byte of `json_quote`'s loop. -/
def jsonEscape (c : UInt8) : Bytes :=
  if c = 0x22 then [backslash, 0x22]
  else if c = 0x5C then [backslash, 0x5C]
  else if c = 0x08 then [backslash, 0x62]
  else if c = 0x0C then [backslash, 0x66]
  else if c = 0x0A then [backslash, 0x6E]
  else if c = 0x0D then [backslash, 0x72]
  else if c = 0x09 then [backslash, 0x74]
  else if c.toNat < 0x20 then
    [backslash, 0x75, 0x30, 0x30, hexLower (c.toNat / 16), hexLower (c.toNat % 16)]
  else [c]

def jsonQuote (s : Bytes) : Bytes := dquote :: (s.flatMap jsonEscape ++ [dquote])

def jsonTooDeep : TclError := jsonErr "depth" (ascii "value is too deeply nested")

/-- The depth check every call of `json_emit` starts with. -/
def jsonCapped (depth : Nat) (emit : Except TclError Bytes) : Except TclError Bytes :=
  if jsonMaxDepth ≤ depth then .error jsonTooDeep else emit

def jsonTypedRefused : TclError := jsonErr "type" (ascii "typed json value refused on a plain-only path")

def jsonEmitTyped (yy : Yyjson) (plainOnly : Bool) (x : TypedJson) : Except TclError Bytes :=
  if plainOnly then .error jsonTypedRefused
  else
    match jsonNodeWrite yy x with
    | none => .error (jsonErr "type" (ascii "typed value write failed"))
    | some s => .ok s

section

variable (yy : Yyjson) (plainOnly : Bool)

mutual

/-- `json_emit` with `as_dict` off, as every nested call has it. -/
def jsonEmit : Nat → Obj → Except TclError Bytes
  | depth, .typed x => jsonCapped depth (jsonEmitTyped yy plainOnly x)
  | depth, .dict entries =>
    jsonCapped depth ((jsonEmitEntries true depth entries).map fun body => 0x7B :: (body ++ [0x7D]))
  | depth, .list items =>
    jsonCapped depth ((jsonEmitItems true depth items).map fun body => 0x5B :: (body ++ [0x5D]))
  | depth, .str s => jsonCapped depth (.ok (if jsonIsNumberLiteral s then s else jsonQuote s))

/-- The loop of `json_emit_list`. -/
def jsonEmitItems : Bool → Nat → List Obj → Except TclError Bytes
  | _, _, [] => .ok []
  | first, depth, item :: items =>
    (jsonEmit (depth + 1) item).bind fun head =>
      (jsonEmitItems false depth items).map fun tail => (if first then [] else [0x2C]) ++ (head ++ tail)

/-- The loop of `json_emit_dict`. -/
def jsonEmitEntries : Bool → Nat → List (Bytes × Obj) → Except TclError Bytes
  | _, _, [] => .ok []
  | first, depth, (key, value) :: entries =>
    (jsonEmit (depth + 1) value).bind fun head =>
      (jsonEmitEntries false depth entries).map fun tail =>
        (if first then [] else [0x2C]) ++ (jsonQuote key ++ 0x3A :: (head ++ tail))

end

end

def jsonEmitList (yy : Yyjson) (tcl : Tcl) (plainOnly : Bool) (v : Obj) : Except TclError Bytes :=
  (listElements tcl v).bind fun items =>
    (jsonEmitItems yy plainOnly true 0 items).map fun body => 0x5B :: (body ++ [0x5D])

/-- `json_emit` at the root with `as_dict` on. -/
def jsonEmitAsDict (yy : Yyjson) (tcl : Tcl) (plainOnly : Bool) (v : Obj) : Except TclError Bytes :=
  match v with
  | .typed x => jsonEmitTyped yy plainOnly x
  | v =>
    (dictEntries tcl v).bind fun entries =>
      (jsonEmitEntries yy plainOnly true 0 entries).map fun body => 0x7B :: (body ++ [0x7D])

structure EncodeFlags where
  asDict : Bool
  asList : Bool
  plainOnly : Bool

def EncodeFlags.none : EncodeFlags := ⟨false, false, false⟩

def optionWords : List Bytes := [ascii "--", ascii "-dict", ascii "-list", ascii "-plain"]

/-- A word the argument loop of `json encode` takes for an option. -/
def IsOptionWord (s : Bytes) : Prop := cString s ∈ optionWords

instance (s : Bytes) : Decidable (IsOptionWord s) := inferInstanceAs (Decidable (_ ∈ _))

/-- The argument loop of `json encode`. -/
def encodeArgs (yy : Yyjson) (tcl : Tcl) :
    Bool → EncodeFlags → Option Obj → List Obj → Except TclError (EncodeFlags × Option Obj)
  | _, flags, val, [] => .ok (flags, val)
  | options, flags, val, arg :: args =>
    let a := cString (getString yy tcl arg)
    if options = true ∧ a = ascii "--" then encodeArgs yy tcl false flags val args
    else if options = true ∧ a = ascii "-dict" then encodeArgs yy tcl options
      ⟨true, flags.asList, flags.plainOnly⟩ val args
    else if options = true ∧ a = ascii "-list" then encodeArgs yy tcl options
      ⟨flags.asDict, true, flags.plainOnly⟩ val args
    else if options = true ∧ a = ascii "-plain" then encodeArgs yy tcl options
      ⟨flags.asDict, flags.asList, true⟩ val args
    else
      match val with
      | some _ => .error (jsonErr "usage" (ascii "unknown option"))
      | none => encodeArgs yy tcl options flags (some arg) args

/-- The flags and the value of a well-formed call. -/
def encodeCall (yy : Yyjson) (tcl : Tcl) (args : List Obj) : Except TclError (EncodeFlags × Obj) :=
  (encodeArgs yy tcl true .none none args).bind fun (flags, val) =>
    match val with
    | none => .error (tcl.wrongNumArgs (ascii "?-dict|-list? ?-plain? value"))
    | some v =>
      if flags.asDict ∧ flags.asList then .error (jsonErr "usage" (ascii "-dict and -list are exclusive"))
      else .ok (flags, v)

def jsonEncodeValue (yy : Yyjson) (tcl : Tcl) (flags : EncodeFlags) (v : Obj) : Except TclError Bytes :=
  if flags.asList then jsonEmitList yy tcl flags.plainOnly v
  else if flags.asDict then jsonEmitAsDict yy tcl flags.plainOnly v
  else jsonEmit yy flags.plainOnly 0 v

/-- `json encode` with the words behind the subcommand. -/
def jsonEncode (yy : Yyjson) (tcl : Tcl) (args : List Obj) : Except TclError Bytes :=
  (encodeCall yy tcl args).bind fun (flags, v) => jsonEncodeValue yy tcl flags v

section

variable {yy : Yyjson} {tcl : Tcl}

/-- The last word of a call, where it is the value. -/
theorem encodeArgs_value {flags : EncodeFlags} {v : Obj} (value : ¬ IsOptionWord (getString yy tcl v)) :
    encodeArgs yy tcl true flags none [v] = .ok (flags, some v) := by
  simp only [IsOptionWord, optionWords, List.mem_cons, List.not_mem_nil, or_false, not_or] at value
  obtain ⟨notEnd, notDict, notList, notPlain⟩ := value
  simp only [encodeArgs, notEnd, notDict, notList, notPlain, and_false, if_false]

/-- The last word of a call, where it passes for an option. -/
theorem encodeArgs_option {flags : EncodeFlags} {v : Obj} (option : IsOptionWord (getString yy tcl v)) :
    ∃ flags', encodeArgs yy tcl true flags none [v] = .ok (flags', none) := by
  simp only [IsOptionWord, optionWords, List.mem_cons, List.not_mem_nil, or_false] at option
  rcases option with same | same | same | same <;> simp only [encodeArgs, same] <;> exact ⟨_, rfl⟩

theorem jsonEncode_of_args {args : List Obj} {flags : EncodeFlags} {v : Obj}
    (read : encodeArgs yy tcl true .none none args = .ok (flags, some v))
    (exclusive : ¬ (flags.asDict ∧ flags.asList)) :
    jsonEncode yy tcl args = jsonEncodeValue yy tcl flags v := by
  simp only [jsonEncode, encodeCall, read, Except.bind, if_neg exclusive]

end

mutual

/-- The tree a value is emitted as. -/
def Obj.tree : Obj → Json
  | .str s => if jsonIsNumberLiteral s then .number s else .string s
  | .list items => .array (treeOfItems items)
  | .dict entries => .object (treeOfEntries entries)
  | .typed x => x.node

def treeOfItems : List Obj → List Json
  | [] => []
  | item :: items => item.tree :: treeOfItems items

def treeOfEntries : List (Bytes × Obj) → List (Bytes × Json)
  | [] => []
  | (key, value) :: entries => (key, value.tree) :: treeOfEntries entries

end

mutual

/-- The levels of a value; a scalar or a typed value is one. -/
def Obj.depth : Obj → Nat
  | .list items => 1 + depthOfItems items
  | .dict entries => 1 + depthOfEntries entries
  | _ => 1

def depthOfItems : List Obj → Nat
  | [] => 0
  | item :: items => max item.depth (depthOfItems items)

def depthOfEntries : List (Bytes × Obj) → Nat
  | [] => 0
  | (_, value) :: entries => max value.depth (depthOfEntries entries)

end

mutual

/-- The typed values inside a value. -/
def Obj.typedValues : Obj → List TypedJson
  | .str _ => []
  | .list items => typedOfItems items
  | .dict entries => typedOfEntries entries
  | .typed x => [x]

def typedOfItems : List Obj → List TypedJson
  | [] => []
  | item :: items => item.typedValues ++ typedOfItems items

def typedOfEntries : List (Bytes × Obj) → List TypedJson
  | [] => []
  | (_, value) :: entries => value.typedValues ++ typedOfEntries entries

end

mutual

/-- The keys of the plain dicts and the string leaves inside a value. -/
def Obj.plainStrings : Obj → List Bytes
  | .str s => [s]
  | .list items => plainStringsOfItems items
  | .dict entries => plainStringsOfEntries entries
  | .typed _ => []

def plainStringsOfItems : List Obj → List Bytes
  | [] => []
  | item :: items => item.plainStrings ++ plainStringsOfItems items

def plainStringsOfEntries : List (Bytes × Obj) → List Bytes
  | [] => []
  | (key, value) :: entries => key :: value.plainStrings ++ plainStringsOfEntries entries

end

theorem hex4_hexLower : ∀ n < 0x20, hex4 0x30 0x30 (hexLower (n / 16)) (hexLower (n % 16)) = some n := by decide

theorem hexLower_small : ∀ n < 16, (hexLower n).toNat < 0x80 := by decide

/-- A byte is written with a short escape, with its code or as itself. -/
theorem jsonEscape_cases (c : UInt8) :
    (∃ e, shortEscape e = some c ∧ c.toNat < 0x80 ∧ e.toNat < 0x80 ∧ jsonEscape c = [backslash, e]) ∨
      (c.toNat < 0x20 ∧ jsonEscape c = [backslash, 0x75, 0x30, 0x30, hexLower (c.toNat / 16),
        hexLower (c.toNat % 16)]) ∨
      (0x20 ≤ c.toNat ∧ c ≠ dquote ∧ c ≠ backslash ∧ jsonEscape c = [c]) := by
  by_cases quote : c = 0x22
  · exact .inl ⟨0x22, by subst quote; decide⟩
  by_cases slash : c = 0x5C
  · exact .inl ⟨0x5C, by subst slash; decide⟩
  by_cases b : c = 0x08
  · exact .inl ⟨0x62, by subst b; decide⟩
  by_cases f : c = 0x0C
  · exact .inl ⟨0x66, by subst f; decide⟩
  by_cases n : c = 0x0A
  · exact .inl ⟨0x6E, by subst n; decide⟩
  by_cases r : c = 0x0D
  · exact .inl ⟨0x72, by subst r; decide⟩
  by_cases t : c = 0x09
  · exact .inl ⟨0x74, by subst t; decide⟩
  rw [jsonEscape, if_neg quote, if_neg slash, if_neg b, if_neg f, if_neg n, if_neg r, if_neg t]
  by_cases control : c.toNat < 0x20
  · rw [if_pos control]
    exact .inr (.inl ⟨control, rfl⟩)
  · rw [if_neg control]
    exact .inr (.inr ⟨Nat.le_of_not_lt control, quote, slash, rfl⟩)

theorem jsonEscape_ne_nil (c : UInt8) : jsonEscape c ≠ [] := by
  rcases jsonEscape_cases c with ⟨e, -, -, -, same⟩ | ⟨-, same⟩ | ⟨-, -, -, same⟩
  all_goals
    rw [same]
    exact List.cons_ne_nil _ _

/-- The escape table of `json_quote` is read back byte for byte. -/
theorem jsonEscape_spelling : Spelling jsonEscape where
  reads c raw text chars := by
    rcases jsonEscape_cases c with ⟨e, known, -, -, same⟩ | ⟨control, same⟩ | ⟨high, quote, slash, same⟩
    · rw [same]
      exact Chars.short known chars
    · have scalar : ¬ Utf8.IsSurrogate c.toNat := fun bad => absurd bad.1 (by omega)
      have itself : Utf8.encode c.toNat = [c] := by
        rw [Utf8.encode_ascii (by omega), UInt8.ofNat_toNat]
      have escaped := Chars.unicode (hex4_hexLower c.toNat control) scalar chars
      rw [itself] at escaped
      rw [same]
      exact escaped
    · rw [same]
      exact Chars.plain high quote slash chars
  keeps c := by
    rcases jsonEscape_cases c with ⟨e, -, small, short, same⟩ | ⟨control, same⟩ | ⟨-, -, -, same⟩
    · refine Or.inr ⟨small, ?_⟩
      rw [same]
      exact List.forall_mem_cons.mpr ⟨by decide, List.forall_mem_singleton.mpr short⟩
    · have digits := hexLower_small (c.toNat / 16) (by omega)
      have digits' := hexLower_small (c.toNat % 16) (by omega)
      refine Or.inr ⟨by omega, ?_⟩
      rw [same]
      simp only [List.forall_mem_cons]
      exact ⟨by decide, by decide, by decide, by decide, digits, digits', nofun⟩
    · exact Or.inl same

theorem jsonQuote_quoted (s : Bytes) : Quoted s (jsonQuote s) := jsonEscape_spelling.quoted s

theorem jsonQuote_wellFormed {s : Bytes} (whole : Utf8.WellFormed s) : Utf8.WellFormed (jsonQuote s) :=
  jsonEscape_spelling.quote_wellFormed whole

end Machteld
