import Machteld.Json.Decode

namespace Machteld

open Rfc8259

namespace Rfc8259

/-- The values directly inside a container. -/
def Json.children : Json → List Json
  | .array items => items
  | .object members => members.map Prod.snd
  | _ => []

theorem numbersOfItems_eq (items : List Json) : numbersOfItems items = items.flatMap Json.numbers := by
  induction items with
  | nil => rfl
  | cons item items ih => rw [numbersOfItems, ih, List.flatMap_cons]

theorem numbersOfMembers_eq (members : List (Bytes × Json)) :
    numbersOfMembers members = members.flatMap fun member => member.2.numbers := by
  induction members with
  | nil => rfl
  | cons member members ih => rw [numbersOfMembers, ih, List.flatMap_cons]

theorem stringsOfItems_eq (items : List Json) : stringsOfItems items = items.flatMap Json.strings := by
  induction items with
  | nil => rfl
  | cons item items ih => rw [stringsOfItems, ih, List.flatMap_cons]

theorem stringsOfMembers_eq (members : List (Bytes × Json)) :
    stringsOfMembers members = members.flatMap fun member => member.1 :: member.2.strings := by
  induction members with
  | nil => rfl
  | cons member members ih => rw [stringsOfMembers, ih, List.flatMap_cons]

/-- The numbers of a child are numbers of its parent. -/
theorem Json.numbers_child {t c : Json} (inside : c ∈ t.children) : c.numbers ⊆ t.numbers := by
  intro literal member
  cases t with
  | array items =>
    rw [Json.numbers, numbersOfItems_eq]
    exact List.mem_flatMap.mpr ⟨c, inside, member⟩
  | object members =>
    obtain ⟨pair, known, rfl⟩ := List.mem_map.mp inside
    rw [Json.numbers, numbersOfMembers_eq]
    exact List.mem_flatMap.mpr ⟨pair, known, member⟩
  | _ => cases inside

/-- The strings of a child are strings of its parent. -/
theorem Json.strings_child {t c : Json} (inside : c ∈ t.children) : c.strings ⊆ t.strings := by
  intro text member
  cases t with
  | array items =>
    rw [Json.strings, stringsOfItems_eq]
    exact List.mem_flatMap.mpr ⟨c, inside, member⟩
  | object members =>
    obtain ⟨pair, known, rfl⟩ := List.mem_map.mp inside
    rw [Json.strings, stringsOfMembers_eq]
    exact List.mem_flatMap.mpr ⟨pair, known, List.mem_cons_of_mem _ member⟩
  | _ => cases inside

end Rfc8259

/-- What Tcl makes of a word that is read as an integer, a boolean or a name
from a table. -/
structure TclWords where
  wideInt : Obj → Option Int
  boolean : Obj → Except TclError Bool
  badIndex : Bytes → Bytes → TclError

/-- A node of a document under construction. -/
structure MutNode where
  node : Json
  literals : ∀ literal ∈ node.numbers, Number literal

def MutNode.string (text : Bytes) : MutNode := ⟨.string text, nofun⟩

def MutNode.number (literal : Bytes) (number : Number literal) : MutNode :=
  ⟨.number literal, fun _ member => List.mem_singleton.mp member ▸ number⟩

def MutNode.bool (b : Bool) : MutNode := ⟨.bool b, nofun⟩

def MutNode.null : MutNode := ⟨.null, nofun⟩

def MutNode.array (items : List MutNode) : MutNode where
  node := .array (items.map MutNode.node)
  literals := by
    rw [Json.numbers, numbersOfItems_eq]
    intro literal member
    obtain ⟨node, known, inside⟩ := List.mem_flatMap.mp member
    obtain ⟨item, -, rfl⟩ := List.mem_map.mp known
    exact item.literals literal inside

def MutNode.object (members : List (Bytes × MutNode)) : MutNode where
  node := .object (members.map fun member => (member.1, member.2.node))
  literals := by
    rw [Json.numbers, numbersOfMembers_eq]
    intro literal member
    obtain ⟨pair, known, inside⟩ := List.mem_flatMap.mp member
    obtain ⟨entry, -, rfl⟩ := List.mem_map.mp known
    exact entry.2.literals literal inside

/-- `JsonNodeToMut`: a copy, from either kind of document. -/
def jsonNodeToMut (x : TypedJson) : MutNode := ⟨x.node, x.literals⟩

def jsonValueTooDeep : Bytes := ascii "value is too deeply nested"

def jsonLeafRefused : Bytes := ascii "leaf is not a typed json value (construct it with `json value`)"

/-- The depth check of `JsonBuildMut`. -/
def jsonBuildCapped {α : Type} (depth : Nat) (build : Except Bytes α) : Except Bytes α :=
  if jsonMaxDepth ≤ depth then .error jsonValueTooDeep else build

mutual

/-- `JsonBuildMut`; an error is what it leaves in `*err`. -/
def jsonBuildMut : Nat → Obj → Except Bytes MutNode
  | depth, .typed x => jsonBuildCapped depth (.ok (jsonNodeToMut x))
  | depth, .dict entries => jsonBuildCapped depth ((jsonBuildEntries (depth + 1) entries).map .object)
  | depth, .list items => jsonBuildCapped depth ((jsonBuildItems (depth + 1) items).map .array)
  | depth, .str _ => jsonBuildCapped depth (.error jsonLeafRefused)

def jsonBuildItems (depth : Nat) : List Obj → Except Bytes (List MutNode)
  | [] => .ok []
  | item :: items =>
    (jsonBuildMut depth item).bind fun head => (jsonBuildItems depth items).map fun tail => head :: tail

def jsonBuildEntries (depth : Nat) : List (Bytes × Obj) → Except Bytes (List (Bytes × MutNode))
  | [] => .ok []
  | (key, value) :: entries =>
    (jsonBuildMut depth value).bind fun head => (jsonBuildEntries depth entries).map fun tail => (key, head) :: tail

end

/-- `JsonNewTyped` over a document of its own. -/
def MutNode.wrap (node : MutNode) : TypedJson where
  wrap := .mdoc
  node := node.node
  literals := node.literals
  decoded := nofun

inductive JsonKind
  | string
  | number
  | boolean
  | null
  | array
  | object

def jsonKinds : List (Bytes × JsonKind) :=
  [(ascii "string", .string), (ascii "number", .number), (ascii "boolean", .boolean), (ascii "null", .null),
    (ascii "array", .array), (ascii "object", .object)]

def jsonTypeError (message : Bytes) : TclError := jsonErr "type" message

/-- What an error of the constructor walk is reported as. -/
def jsonBuilt (built : Except Bytes MutNode) : Except TclError TypedJson :=
  match built with
  | .error err => .error (jsonTypeError err)
  | .ok node => .ok node.wrap

def jsonNotNumber : TclError := jsonErr "type" (ascii "not a JSON number literal")

section

variable (yy : Yyjson) (tcl : Tcl) (words : TclWords)

/-- `json value` of a kind that takes a value. -/
def jsonValueOf (kind : JsonKind) (v : Obj) : Except TclError TypedJson :=
  match kind with
  | .string => .ok (MutNode.string (getString yy tcl v)).wrap
  | .number =>
    if number : jsonIsNumberLiteral (getString yy tcl v) = true then
      .ok (MutNode.number _ ((jsonIsNumberLiteral_iff _).mp number)).wrap
    else .error jsonNotNumber
  | .boolean => (words.boolean v).map fun b => (MutNode.bool b).wrap
  | .null => .ok MutNode.null.wrap
  | .array => (listElements tcl v).bind fun items => jsonBuilt ((jsonBuildItems 1 items).map .array)
  | .object => (dictEntries tcl v).bind fun entries => jsonBuilt ((jsonBuildEntries 1 entries).map .object)

/-- `json value` with the words behind the subcommand. -/
def jsonValue : List Obj → Except TclError TypedJson
  | [] => .error (tcl.wrongNumArgs (ascii "kind ?value?"))
  | kind :: args =>
    match dictGet (cString (getString yy tcl kind)) jsonKinds with
    | none => .error (words.badIndex (ascii "kind") (getString yy tcl kind))
    | some .null => if args = [] then .ok MutNode.null.wrap else .error (tcl.wrongNumArgs [])
    | some kind =>
      match args with
      | [v] => jsonValueOf yy tcl words kind v
      | _ => .error (tcl.wrongNumArgs (ascii "value"))

end

def jsonNotTyped : TclError := jsonErr "type" (ascii "not a typed json value")

def jsonType : Obj → Except TclError Bytes
  | .typed x => .ok (jsonNodeTag x)
  | _ => .error jsonNotTyped

mutual

/-- `yy_mut_to_tcl` -/
def yyMutToTcl (depth : Nat) : Json → Option Obj
  | .null => if jsonMaxDepth ≤ depth then none else some (.str [])
  | .bool b => if jsonMaxDepth ≤ depth then none else some (.str (ascii (if b then "1" else "0")))
  | .number literal => if jsonMaxDepth ≤ depth then none else some (.str literal)
  | .string text => if jsonMaxDepth ≤ depth then none else some (.str text)
  | .array items => if jsonMaxDepth ≤ depth then none else (yyMutItemsToTcl (depth + 1) items).map newListObj
  | .object members =>
    if jsonMaxDepth ≤ depth then none else (yyMutMembersToTcl (depth + 1) [] members).map .dict

def yyMutItemsToTcl (depth : Nat) : List Json → Option (List Obj)
  | [] => some []
  | item :: items => (yyMutToTcl depth item).bind fun o => (yyMutItemsToTcl depth items).map fun os => o :: os

def yyMutMembersToTcl (depth : Nat) (entries : List (Bytes × Obj)) :
    List (Bytes × Json) → Option (List (Bytes × Obj))
  | [] => some entries
  | (key, item) :: members =>
    (yyMutToTcl depth item).bind fun o => yyMutMembersToTcl depth (dictPut key o entries) members

end

/-- The plain value of a node, by the reader of its kind of document. -/
def TypedJson.plainValue (x : TypedJson) : Option Obj :=
  match x.wrap with
  | .idoc => yyToTcl 0 x.node
  | .mdoc => yyMutToTcl 0 x.node

def jsonDepthError : TclError := jsonErr "depth" (ascii "too deeply nested")

def jsonUnwrap : Obj → Except TclError Obj
  | .typed x =>
    match x.plainValue with
    | none => .error jsonDepthError
    | some v => .ok v
  | _ => .error jsonNotTyped

/-- Where a step of a path leads: into a value of the container, to nothing,
or nowhere because there is no container or no index. -/
inductive JsonStep (t : Json)
  | child (c : Json) (inside : c ∈ t.children)
  | absent
  | stepErr

theorem mem_values_of_dictGet {members : List (Bytes × Json)} {key : Bytes} {c : Json}
    (found : dictGet key members = some c) : c ∈ (Json.object members).children :=
  List.mem_map.mpr ⟨(key, c), mem_of_dictGet found, rfl⟩

section

variable (yy : Yyjson) (tcl : Tcl) (words : TclWords)

/-- `yyjson_obj_getn` -/
def yyObjGetn (members : List (Bytes × Json)) (key : Bytes) : JsonStep (.object members) :=
  match found : dictGet key members with
  | some c => .child c (mem_values_of_dictGet found)
  | none => .absent

/-- `yyjson_arr_get` -/
def yyArrGet (items : List Json) (i : Nat) : JsonStep (.array items) :=
  if inside : i < items.length then .child items[i] (List.getElem_mem inside) else .absent

/-- `JsonStep` in a document that was read. -/
def jsonStepRead (step : Obj) : (t : Json) → JsonStep t
  | .object members => yyObjGetn members (getString yy tcl step)
  | .array items =>
    match words.wideInt step with
    | none => .stepErr
    | some i => if i < 0 then .stepErr else yyArrGet items i.toNat
  | _ => .stepErr

/-- `yyjson_mut_obj_getn` -/
def yyMutObjGetn (members : List (Bytes × Json)) (key : Bytes) : JsonStep (.object members) :=
  match found : dictGet key members with
  | some c => .child c (mem_values_of_dictGet found)
  | none => .absent

/-- `yyjson_mut_arr_get` -/
def yyMutArrGet (items : List Json) (i : Nat) : JsonStep (.array items) :=
  if inside : i < items.length then .child items[i] (List.getElem_mem inside) else .absent

/-- `JsonStep` in a document that was built. -/
def jsonStepMut (step : Obj) : (t : Json) → JsonStep t
  | .object members => yyMutObjGetn members (getString yy tcl step)
  | .array items =>
    match words.wideInt step with
    | none => .stepErr
    | some i => if i < 0 then .stepErr else yyMutArrGet items i.toNat
  | _ => .stepErr

def jsonStep (x : TypedJson) (step : Obj) : JsonStep x.node :=
  match x.wrap with
  | .idoc => jsonStepRead yy tcl words step x.node
  | .mdoc => jsonStepMut yy tcl words step x.node

/-- `JsonNewTyped` over the document of another value. -/
def TypedJson.child (x : TypedJson) (c : Json) (inside : c ∈ x.node.children) : TypedJson where
  wrap := x.wrap
  node := c
  literals := fun literal member => x.literals literal (Json.numbers_child inside member)
  decoded := fun read text member => x.decoded read text (Json.strings_child inside member)

/-- `no member "%.80s"` -/
def jsonAbsent (step : Obj) : TclError :=
  jsonErr "absent" (ascii "no member \"" ++ ((cString (getString yy tcl step)).take 80 ++ ascii "\""))

def jsonNonContainer : TclError := jsonErr "type" (ascii "path steps into a non-container")

/-- The loop of `json get` over the steps of a path. -/
def jsonGetPath : TypedJson → List Obj → Except TclError TypedJson
  | x, [] => .ok x
  | x, step :: path =>
    match jsonStep yy tcl words x step with
    | .child c inside => jsonGetPath (x.child c inside) path
    | .absent => .error (jsonAbsent yy tcl step)
    | .stepErr => .error jsonNonContainer

def jsonGet : List Obj → Except TclError TypedJson
  | [] => .error (tcl.wrongNumArgs (ascii "value ?key|index ...?"))
  | .typed x :: path => jsonGetPath yy tcl words x path
  | _ :: _ => .error jsonNotTyped

/-- The same loop as `json exists` runs it. -/
def jsonExistsPath : TypedJson → List Obj → Bool
  | _, [] => true
  | x, step :: path =>
    match jsonStep yy tcl words x step with
    | .child c inside => jsonExistsPath (x.child c inside) path
    | _ => false

def jsonExists : List Obj → Except TclError Bool
  | .typed x :: step :: path => .ok (jsonExistsPath yy tcl words x (step :: path))
  | _ :: _ :: _ => .error jsonNotTyped
  | _ => .error (tcl.wrongNumArgs (ascii "value key|index ?key|index ...?"))

end

end Machteld
