import Machteld.Json.Value
import Machteld.Dict

namespace Machteld

/-- The milliseconds of a unit of `_dur2ms`. -/
def durUnits : List (Bytes × Nat) :=
  [(ascii "ms", 1), (ascii "s", 1000), (ascii "m", 60000), (ascii "h", 3600000)]

/-- The number some digits spell. -/
def digitsValue (digits : Bytes) : Nat := digits.foldl (fun n c => 10 * n + (c.toNat - 0x30)) 0

def durMaximum : Nat := 4294967294

/-- `Fail` -/
def tclFail (domain code : String) (message : Bytes) : TclError :=
  ⟨message, [ascii "MACHTELD", ascii domain, ascii code]⟩

def quoted (word : Bytes) : Bytes := ascii "\"" ++ (word ++ ascii "\"")

/-- `_dur2ms` -/
def dur2ms (domain : String) (d : Bytes) : Except TclError Nat :=
  let n := d.takeWhile isDigit
  match if n = [] then none else dictGet (d.dropWhile isDigit) durUnits with
  | none =>
    .error (tclFail domain "badvalue"
      (ascii "bad duration " ++ (quoted d ++ ascii ": use an explicit unit (500ms, 30s, 5m, 2h)")))
  | some factor =>
    let limit := decimal (durMaximum / factor)
    let trimmed := n.dropWhile fun c => c == 0x30
    let normalized := if trimmed = [] then ascii "0" else trimmed
    if limit.length < normalized.length ∨ (normalized.length = limit.length ∧ limit < normalized) then
      .error (tclFail domain "badvalue" (ascii "bad duration " ++ (quoted d ++ ascii ": maximum is 4294967294ms")))
    else .ok (digitsValue normalized * factor)

abbrev longLongMax : UInt64 := 0x7FFFFFFFFFFFFFFF
abbrev ulongLongMax : UInt64 := 0xFFFFFFFFFFFFFFFF
abbrev intMax : UInt64 := 0x7FFFFFFF
abbrev tclSizeMax : UInt64 := 0x7FFFFFFFFFFFFFFF
abbrev wjInfinite : UInt64 := 0xFFFFFFFF

/-- The digits at the head of a text, taken in one by one until one is too
many for `full`, and what is behind them. -/
def takeDigits (full : UInt64 → UInt64 → Bool) : UInt64 → Bytes → Option (UInt64 × Bytes)
  | value, [] => some (value, [])
  | value, c :: cs =>
    if isDigit c then
      let digit := (c - 0x30).toUInt64
      if full value digit then none else takeDigits full (value * 10 + digit) cs
    else some (value, c :: cs)

/-- The test of `parse_duration_ms` and of `parse_bytes`. -/
def llongFull (value digit : UInt64) : Bool :=
  decide (longLongMax / 10 < value) || (value == longLongMax / 10 && decide (longLongMax % 10 < digit))

/-- The test of `http_u64`. -/
def ullongFull (n digit : UInt64) : Bool := decide ((ulongLongMax - digit) / 10 < n)

/-- The `strcmp` chain of `parse_duration_ms` and of `http_duration`. -/
def durationUnit (p : Bytes) : Option UInt64 :=
  if p = ascii "ms" then some 1
  else if p = ascii "s" then some 1000
  else if p = ascii "m" then some 60000
  else if p = ascii "h" then some 3600000
  else none

/-- The multiplier of `parse_bytes` and of `http_size`. -/
def sizeFactor (p : Bytes) : UInt64 × Bytes :=
  match p with
  | [] => (1, [])
  | c :: cs =>
    if c = 0x4B ∨ c = 0x6B then ((1 : UInt64) <<< 10, cs)
    else if c = 0x4D ∨ c = 0x6D then ((1 : UInt64) <<< 20, cs)
    else if c = 0x47 ∨ c = 0x67 then ((1 : UInt64) <<< 30, cs)
    else (1, c :: cs)

/-- The optional `B` behind it. -/
def skipB (p : Bytes) : Bytes :=
  match p with
  | [] => []
  | c :: cs => if c = 0x42 ∨ c = 0x62 then cs else c :: cs

/-- `parse_duration_ms` -/
def parseDurationMs (s : Bytes) : Int64 :=
  if s.head?.any isDigit then
    match takeDigits llongFull 0 s with
    | none => -1
    | some (value, p) =>
      match durationUnit p with
      | none => -1
      | some mul => if longLongMax / mul < value then -1 else (value * mul).toInt64
  else -1

/-- `parse_bytes` -/
def parseBytes (s : Bytes) : Int64 :=
  if s.head?.any isDigit then
    match takeDigits llongFull 0 s with
    | none => -1
    | some (value, p) =>
      let (mul, p) := sizeFactor p
      if skipB p ≠ [] ∨ longLongMax / mul < value then -1 else (value * mul).toInt64
  else -1

/-- The limit of a caller of `parse_duration_ms` that waits. -/
def finiteWait (e : TclError) (ms : Int64) : Except TclError Int64 :=
  if ms < 0 ∨ wjInfinite ≤ ms.toUInt64 then .error e else .ok ms

/-- `-timeout` of `parse_opts` -/
def optTimeout (dom : String) (v : Bytes) : Except TclError Int64 :=
  if 0 ∈ v then .error (tclFail dom "badvalue" (ascii "duration may not contain NUL"))
  else finiteWait (tclFail dom "badvalue" (ascii "bad -timeout value")) (parseDurationMs (cString v))

/-- `-timeout` of `child wait` -/
def childWaitTimeout (v : Bytes) : Except TclError Int64 :=
  finiteWait (tclFail "CHILD" "badvalue" (ascii "bad -timeout value")) (parseDurationMs (cString v))

/-- `-timeout` of `pty read` -/
def ptyReadTimeout (v : Bytes) : Except TclError Int64 :=
  finiteWait (tclFail "PTY" "badvalue" (ascii "bad -timeout value")) (parseDurationMs (cString v))

/-- `-timeout` of `watch next` -/
def watchNextTimeout (v : Bytes) : Except TclError Int64 :=
  finiteWait (tclFail "WATCH" "badvalue" (ascii "bad -timeout value")) (parseDurationMs (cString v))

/-- `-cpu` of `parse_opts`, in units of 100 ns -/
def optCpu (dom : String) (v : Bytes) : Except TclError UInt64 :=
  if 0 ∈ v then .error (tclFail dom "badvalue" (ascii "duration may not contain NUL"))
  else
    let d := parseDurationMs (cString v)
    if d < 0 ∨ longLongMax / 10000 < d.toUInt64 then .error (tclFail dom "badvalue" (ascii "bad -cpu value"))
    else .ok (d.toUInt64 * 10000)

/-- `-mem` of `parse_opts` -/
def optMem (dom : String) (v : Bytes) : Except TclError UInt64 :=
  if 0 ∈ v then .error (tclFail dom "badvalue" (ascii "byte size may not contain NUL"))
  else
    let b := parseBytes (cString v)
    if b < 0 then .error (tclFail dom "badvalue" (ascii "bad -mem value")) else .ok b.toUInt64

/-- `http_text_safe` -/
def httpTextSafe (s : Bytes) (headerName : Bool) : Bool :=
  !(s.isEmpty && headerName) && s.all fun c =>
    !(c == 0 || c == cr || c == lf) && !(headerName && (c == 0x3A || decide (c ≤ 0x20) || c == 0x7F))

/-- `http_u64` -/
def httpU64 (s : Bytes) : Option (UInt64 × Bytes) :=
  if s.head?.any isDigit then takeDigits ullongFull 0 s else none

/-- `http_duration` -/
def httpDuration (v : Bytes) : Except TclError Int64 :=
  if httpTextSafe v false then
    match httpU64 (cString v) with
    | none => .error (tclFail "HTTP" "badvalue" (ascii "-timeout takes an integer duration like 30s"))
    | some (n, p) =>
      match durationUnit p with
      | none => .error (tclFail "HTTP" "badvalue" (ascii "-timeout needs a unit: ms, s, m or h"))
      | some factor =>
        if n = 0 ∨ intMax / factor < n then
          .error (tclFail "HTTP" "badvalue" (ascii "-timeout is outside WinHTTP's supported range"))
        else .ok (n * factor).toInt64
  else .error (tclFail "HTTP" "badvalue" (ascii "-timeout contains NUL or a newline"))

/-- `http_size` -/
def httpSize (v : Bytes) : Except TclError Int64 :=
  if httpTextSafe v false then
    match httpU64 (cString v) with
    | none => .error (tclFail "HTTP" "badvalue" (ascii "-maxbody takes a positive byte count like 8M"))
    | some (n, p) =>
      let (factor, p) := sizeFactor p
      if skipB p ≠ [] ∨ n = 0 ∨ tclSizeMax / factor < n then
        .error (tclFail "HTTP" "badvalue" (ascii "-maxbody is outside the supported range"))
      else .ok (n * factor).toInt64
  else .error (tclFail "HTTP" "badvalue" (ascii "-maxbody contains NUL or a newline"))

end Machteld
