import Machteld.Utf8

namespace Machteld.Rfc8259

/-- A JSON document, with numbers kept as their literal text, members in
wire order and strings as the UTF-8 bytes they denote. -/
inductive Json
  | null
  | bool (b : Bool)
  | number (literal : Bytes)
  | string (text : Bytes)
  | array (items : List Json)
  | object (members : List (Bytes × Json))

def IsWs (c : UInt8) : Prop := c = 0x20 ∨ c = 0x09 ∨ c = 0x0A ∨ c = 0x0D

instance (c : UInt8) : Decidable (IsWs c) := inferInstanceAs (Decidable (_ ∨ _))

def Ws (s : Bytes) : Prop := ∀ c ∈ s, IsWs c

def IsDigit (c : UInt8) : Prop := 0x30 ≤ c.toNat ∧ c.toNat ≤ 0x39

instance (c : UInt8) : Decidable (IsDigit c) := inferInstanceAs (Decidable (_ ∧ _))

def Digits (s : Bytes) : Prop := s ≠ [] ∧ ∀ c ∈ s, IsDigit c

/-- `int = zero / ( digit1-9 *DIGIT )` -/
def IntPart (s : Bytes) : Prop :=
  s = [0x30] ∨ ∃ c cs, s = c :: cs ∧ IsDigit c ∧ c ≠ 0x30 ∧ ∀ d ∈ cs, IsDigit d

/-- `frac = decimal-point 1*DIGIT` -/
def FracPart (s : Bytes) : Prop := ∃ ds, s = 0x2E :: ds ∧ Digits ds

/-- `exp = e [ minus / plus ] 1*DIGIT` -/
def ExpPart (s : Bytes) : Prop :=
  ∃ e sign ds, s = e :: (sign ++ ds) ∧ (e = 0x65 ∨ e = 0x45) ∧ (sign = [] ∨ sign = [0x2B] ∨ sign = [0x2D]) ∧
    Digits ds

/-- `number = [ minus ] int [ frac ] [ exp ]` -/
def Number (s : Bytes) : Prop :=
  ∃ sign int frac exp, s = sign ++ (int ++ (frac ++ exp)) ∧ (sign = [] ∨ sign = [0x2D]) ∧ IntPart int ∧
    (frac = [] ∨ FracPart frac) ∧ (exp = [] ∨ ExpPart exp)

/-- The character a two-character escape stands for. -/
def shortEscape (e : UInt8) : Option UInt8 :=
  if e = 0x22 then some 0x22
  else if e = 0x5C then some 0x5C
  else if e = 0x2F then some 0x2F
  else if e = 0x62 then some 0x08
  else if e = 0x66 then some 0x0C
  else if e = 0x6E then some 0x0A
  else if e = 0x72 then some 0x0D
  else if e = 0x74 then some 0x09
  else none

def hexDigit (c : UInt8) : Option Nat :=
  if 0x30 ≤ c.toNat ∧ c.toNat ≤ 0x39 then some (c.toNat - 0x30)
  else if 0x61 ≤ c.toNat ∧ c.toNat ≤ 0x66 then some (c.toNat - 0x61 + 10)
  else if 0x41 ≤ c.toNat ∧ c.toNat ≤ 0x46 then some (c.toNat - 0x41 + 10)
  else none

def hex4 (a b c d : UInt8) : Option Nat := do
  let a ← hexDigit a
  let b ← hexDigit b
  let c ← hexDigit c
  let d ← hexDigit d
  pure (((a * 16 + b) * 16 + c) * 16 + d)

/-- The inside of a quoted string and the text it denotes. Escaped
surrogates count only in pairs. That raw bytes form UTF-8 is asked of the
whole text. -/
inductive Chars : Bytes → Bytes → Prop
  | nil : Chars [] []
  | plain {c : UInt8} {raw text : Bytes} (high : 0x20 ≤ c.toNat) (notQuote : c ≠ dquote)
      (notSlash : c ≠ backslash) : Chars raw text → Chars (c :: raw) (c :: text)
  | short {e v : UInt8} {raw text : Bytes} (known : shortEscape e = some v) :
      Chars raw text → Chars (backslash :: e :: raw) (v :: text)
  | unicode {a b c d : UInt8} {n : Nat} {raw text : Bytes} (value : hex4 a b c d = some n)
      (scalar : ¬ Utf8.IsSurrogate n) :
      Chars raw text → Chars (backslash :: 0x75 :: a :: b :: c :: d :: raw) (Utf8.encode n ++ text)
  | pair {a b c d a' b' c' d' : UInt8} {hi lo : Nat} {raw text : Bytes} (high : hex4 a b c d = some hi)
      (isHigh : 0xD800 ≤ hi ∧ hi < 0xDC00) (low : hex4 a' b' c' d' = some lo) (isLow : 0xDC00 ≤ lo ∧ lo < 0xE000) :
      Chars raw text →
      Chars (backslash :: 0x75 :: a :: b :: c :: d :: backslash :: 0x75 :: a' :: b' :: c' :: d' :: raw)
        (Utf8.encode (0x10000 + (hi - 0xD800) * 1024 + (lo - 0xDC00)) ++ text)

def Quoted (text s : Bytes) : Prop := ∃ raw, s = dquote :: (raw ++ [dquote]) ∧ Chars raw text

/-- Something with insignificant whitespace on both sides. -/
def Padded (p : Bytes → Prop) (s : Bytes) : Prop :=
  ∃ before inner after, s = before ++ (inner ++ after) ∧ Ws before ∧ p inner ∧ Ws after

mutual

/-- `Value t s`: the bytes `s` spell the tree `t`. -/
def Value : Json → Bytes → Prop
  | .null, s => s = ascii "null"
  | .bool b, s => s = ascii (if b then "true" else "false")
  | .number literal, s => s = literal ∧ Number literal
  | .string text, s => Quoted text s
  | .array items, s => ∃ body, s = 0x5B :: (body ++ [0x5D]) ∧ Items items body
  | .object members, s => ∃ body, s = 0x7B :: (body ++ [0x7D]) ∧ Members members body

def Items : List Json → Bytes → Prop
  | [], s => Ws s
  | item :: items, s => ∃ first more, s = first ++ more ∧ Padded (Value item) first ∧ MoreItems items more

def MoreItems : List Json → Bytes → Prop
  | [], s => s = []
  | item :: items, s =>
    ∃ first more, s = 0x2C :: (first ++ more) ∧ Padded (Value item) first ∧ MoreItems items more

def Members : List (Bytes × Json) → Bytes → Prop
  | [], s => Ws s
  | (key, item) :: members, s =>
    ∃ name first more, s = name ++ 0x3A :: (first ++ more) ∧ Padded (Quoted key) name ∧
      Padded (Value item) first ∧ MoreMembers members more

def MoreMembers : List (Bytes × Json) → Bytes → Prop
  | [], s => s = []
  | (key, item) :: members, s =>
    ∃ name first more, s = 0x2C :: (name ++ 0x3A :: (first ++ more)) ∧ Padded (Quoted key) name ∧
      Padded (Value item) first ∧ MoreMembers members more

end

/-- A JSON text: one padded value, in UTF-8. -/
def Text (t : Json) (s : Bytes) : Prop := Utf8.WellFormed s ∧ Padded (Value t) s

mutual

/-- Every string of a tree, member names included. -/
def Json.strings : Json → List Bytes
  | .string text => [text]
  | .array items => stringsOfItems items
  | .object members => stringsOfMembers members
  | _ => []

def stringsOfItems : List Json → List Bytes
  | [] => []
  | item :: items => item.strings ++ stringsOfItems items

def stringsOfMembers : List (Bytes × Json) → List Bytes
  | [] => []
  | (key, item) :: members => key :: item.strings ++ stringsOfMembers members

end

mutual

/-- Every number literal of a tree. -/
def Json.numbers : Json → List Bytes
  | .number literal => [literal]
  | .array items => numbersOfItems items
  | .object members => numbersOfMembers members
  | _ => []

def numbersOfItems : List Json → List Bytes
  | [] => []
  | item :: items => item.numbers ++ numbersOfItems items

def numbersOfMembers : List (Bytes × Json) → List Bytes
  | [] => []
  | (_, item) :: members => item.numbers ++ numbersOfMembers members

end

end Machteld.Rfc8259
