import Machteld.Decimal
import Machteld.Log.Configure

namespace Machteld

/-- `LogQuote` -/
def logQuote (v : Bytes) : Bytes :=
  if v = [] then [dquote, dquote]
  else if v.any fun c => c == space || c == dquote || c == tab then
    dquote :: (v.flatMap fun c => if c = backslash ∨ c = dquote then [backslash, c] else [c]) ++ [dquote]
  else v

/-- `foreach {k v} $pairs { append line " $k=[LogQuote $v]" }` -/
def logFields (pairs : List (Bytes × Bytes)) : Bytes :=
  pairs.flatMap fun p => space :: (p.1 ++ (0x3D :: logQuote p.2))

/-- `LogRank` -/
def logRank (level : Bytes) : Int :=
  if level = ascii "off" then logLevels.length
  else (logLevels.findIdx? (· == level)).elim (-1) Int.ofNat

/-- The parts of a local time. -/
structure LocalTime where
  year : Nat
  month : Nat
  day : Nat
  hour : Nat
  minute : Nat
  second : Nat
  milli : Nat

/-- A number with zeros before it up to a width. -/
def zeroPadded (width n : Nat) : Bytes := List.replicate (width - (decimal n).length) 0x30 ++ decimal n

/-- `%Y-%m-%dT%H:%M:%S` and the milliseconds. -/
def logStamp (t : LocalTime) : Bytes :=
  zeroPadded 4 t.year ++
    (0x2D :: (zeroPadded 2 t.month ++ (0x2D :: (zeroPadded 2 t.day ++ (0x54 :: (zeroPadded 2 t.hour ++
    (0x3A :: (zeroPadded 2 t.minute ++ (0x3A :: (zeroPadded 2 t.second ++ (0x2E :: zeroPadded 3 t.milli)))))))))))

/-- `string toupper` in `%-5s` -/
def logLevelWord (level : Bytes) : Bytes :=
  let word := level.map fun c => if 0x61 ≤ c ∧ c ≤ 0x7A then c - 0x20 else c
  word ++ List.replicate (5 - word.length) space

/-- What stands before the message. -/
def logHead (t : LocalTime) (level : Bytes) : Bytes := logStamp t ++ (space :: (logLevelWord level ++ [space]))

/-- The fields of the call, with the odd one marked. -/
def logTail (pairs : List Bytes) : Bytes :=
  if pairs.length % 2 = 0 then logFields (logPairs pairs)
  else
    let dangling := pairs.getLast?.getD []
    logFields (logPairs pairs.dropLast) ++ (if dangling ≠ [] then space :: (dangling ++ [0x3D, 0x3F]) else [])

/-- The line that is handed to `puts`. -/
def logLine (t : LocalTime) (level msg : Bytes) (pairs : List Bytes) : Bytes :=
  logHead t level ++ (msg ++ logTail pairs)

/-- `LogWrite`: the result, the variables after it and what the sink gets.
The sink takes a text or fails. -/
def logWrite (sink : Bytes → Bytes → Bool) (t : LocalTime) (s : LogState) (level msg : Bytes) (pairs : List Bytes) :
    Nat × LogState × Option Bytes :=
  if logRank level < logRank s.level then (0, s, none)
  else
    let text := logLine t level msg pairs ++ [lf]
    if sink (logChan s) text then (1, s, some text) else (0, { s with dropped := s.dropped + 1 }, none)

end Machteld
