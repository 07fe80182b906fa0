import Mathlib.Data.List.TakeWhile
import Machteld.Rfc8259.Strings

namespace Machteld.Rfc8259

def skipWs (s : Bytes) : Bytes := s.dropWhile fun c => decide (IsWs c)

def readHex4 : Bytes → Option (Nat × Bytes)
  | a :: b :: c :: d :: s => (hex4 a b c d).map fun n => (n, s)
  | _ => none

/-- The second half of a surrogate pair, from its backslash on. -/
def readLow (hi : Nat) : Bytes → Option (Bytes × Bytes)
  | x :: y :: s =>
    if x = backslash ∧ y = 0x75 then
      (readHex4 s).bind fun (lo, s) =>
        if 0xDC00 ≤ lo ∧ lo < 0xE000 then
          some (Utf8.encode (0x10000 + (hi - 0xD800) * 1024 + (lo - 0xDC00)), s)
        else none
    else none
  | _ => none

/-- An escape, read from behind its backslash. -/
def readEscape : Bytes → Option (Bytes × Bytes)
  | [] => none
  | e :: s =>
    if e = 0x75 then
      (readHex4 s).bind fun (n, s) =>
        if 0xD800 ≤ n ∧ n < 0xDC00 then readLow n s
        else if Utf8.IsSurrogate n then none
        else some (Utf8.encode n, s)
    else (shortEscape e).map fun v => ([v], s)

/-- A string, read from behind its opening quote to behind its closing one.
-/
def readChars : Nat → Bytes → Option (Bytes × Bytes)
  | 0, _ => none
  | _ + 1, [] => none
  | k + 1, c :: s =>
    if c = dquote then some ([], s)
    else if c = backslash then
      (readEscape s).bind fun (t, s) => (readChars k s).map fun (text, s) => (t ++ text, s)
    else if c.toNat < 0x20 then none
    else (readChars k s).map fun (text, s) => (c :: text, s)

def readWord (word : Bytes) (t : Json) (s : Bytes) : Option (Json × Bytes) :=
  if word <+: s then some (t, s.drop word.length) else none

/-- The longest run of number characters has to be a number. -/
def readNumber (isNumber : Bytes → Bool) (s : Bytes) : Option (Json × Bytes) :=
  let literal := s.takeWhile fun c => decide (IsNumberChar c)
  if isNumber literal then some (.number literal, s.dropWhile fun c => decide (IsNumberChar c)) else none

/-- A quoted string in front of a colon. -/
def readName : Bytes → Option (Bytes × Bytes)
  | [] => none
  | c :: s =>
    if c = dquote then
      (readChars (s.length + 1) s).bind fun (key, s) =>
        match skipWs s with
        | [] => none
        | d :: s => if d = 0x3A then some (key, skipWs s) else none
    else none

section

variable (isNumber : Bytes → Bool)

mutual

/-- The number bounds the depth of the calls. -/
def readValue : Nat → Bytes → Option (Json × Bytes)
  | 0, _ => none
  | _ + 1, [] => none
  | k + 1, c :: s =>
    if c = dquote then (readChars (s.length + 1) s).map fun (text, s) => (.string text, s)
    else if c = 0x5B then (readItems k (skipWs s)).map fun (items, s) => (.array items, s)
    else if c = 0x7B then (readMembers k (skipWs s)).map fun (members, s) => (.object members, s)
    else if c = 0x6E then readWord (ascii "null") .null (c :: s)
    else if c = 0x74 then readWord (ascii "true") (.bool true) (c :: s)
    else if c = 0x66 then readWord (ascii "false") (.bool false) (c :: s)
    else readNumber isNumber (c :: s)

def readItems : Nat → Bytes → Option (List Json × Bytes)
  | 0, _ => none
  | _ + 1, [] => none
  | k + 1, c :: s =>
    if c = 0x5D then some ([], s)
    else
      (readValue k (c :: s)).bind fun (item, s) =>
        (readMoreItems k (skipWs s)).map fun (items, s) => (item :: items, s)

def readMoreItems : Nat → Bytes → Option (List Json × Bytes)
  | 0, _ => none
  | _ + 1, [] => none
  | k + 1, c :: s =>
    if c = 0x5D then some ([], s)
    else if c = 0x2C then
      (readValue k (skipWs s)).bind fun (item, s) =>
        (readMoreItems k (skipWs s)).map fun (items, s) => (item :: items, s)
    else none

def readMembers : Nat → Bytes → Option (List (Bytes × Json) × Bytes)
  | 0, _ => none
  | _ + 1, [] => none
  | k + 1, c :: s =>
    if c = 0x7D then some ([], s)
    else
      (readName (c :: s)).bind fun (key, s) =>
        (readValue k s).bind fun (item, s) =>
          (readMoreMembers k (skipWs s)).map fun (members, s) => ((key, item) :: members, s)

def readMoreMembers : Nat → Bytes → Option (List (Bytes × Json) × Bytes)
  | 0, _ => none
  | _ + 1, [] => none
  | k + 1, c :: s =>
    if c = 0x7D then some ([], s)
    else if c = 0x2C then
      (readName (skipWs s)).bind fun (key, s) =>
        (readValue k s).bind fun (item, s) =>
          (readMoreMembers k (skipWs s)).map fun (members, s) => ((key, item) :: members, s)
    else none

end

/-- The whole text as one tree. -/
def readText (s : Bytes) : Option Json :=
  if Utf8.WellFormed s then
    (readValue isNumber s.length (skipWs s)).bind fun (t, rest) => if skipWs rest = [] then some t else none
  else none

end

end Machteld.Rfc8259
