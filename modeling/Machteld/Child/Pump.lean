import Machteld.Child.State
import Machteld.Utf8

namespace Machteld

/-- How a lead byte of `valid_utf8` goes on: the number of bytes that it
needs, the least value and its own bits. -/
def utf8Lead (c : Nat) : Option (Nat × Nat × Nat) :=
  if 0xC2 ≤ c ∧ c ≤ 0xDF then some (1, 0x80, c % 0x20)
  else if 0xE0 ≤ c ∧ c ≤ 0xEF then some (2, 0x800, c % 0x10)
  else if 0xF0 ≤ c ∧ c ≤ 0xF4 then some (3, 0x10000, c % 8)
  else none

/-- The loop over the bytes that a lead byte needs. -/
def utf8Value (value : Nat) : Bytes → Option Nat
  | [] => some value
  | d :: rest => if d.toNat / 0x40 = 2 then utf8Value (value * 0x40 + d.toNat % 0x40) rest else none

def validUtf8 : Bytes → Bool
  | [] => true
  | c :: s =>
    if c.toNat < 0x80 then validUtf8 s
    else
      match utf8Lead c.toNat with
      | none => false
      | some (need, least, bits) =>
        if s.length < need then false
        else
          match utf8Value bits (s.take need) with
          | none => false
          | some value =>
            if value < least ∨ 0x10FFFF < value ∨ 0xD800 ≤ value ∧ value ≤ 0xDFFF then false
            else validUtf8 (s.drop need)
termination_by s => s.length
decreasing_by
  · exact Nat.lt_add_one _
  · rw [List.length_drop, List.length_cons]
    omega

inductive PumpSide
  | out
  | err
deriving DecidableEq

/-- `pump_t`, with the capture buffer that it has where it has no callback.
-/
structure Pump where
  cb : Bool
  rd : ChildReader
  line : Bytes
  cap : Nat
  eof : Bool

/-- What evaluating a callback gives: whether it is a list that a line can
be appended to, and, by the number of the call, whether it returns normally.
-/
structure PumpHost where
  listed : PumpSide → Bool
  callback : Nat → Bool

/-- The calls so far, with the line that each was given. -/
abbrev PumpCalls := List (PumpSide × Bytes)

/-- `pump_emit`, with whether it returns `TCL_OK`. -/
def pumpEmit (host : PumpHost) (side : PumpSide) (calls : PumpCalls) (line : Bytes) : PumpCalls × Bool :=
  if validUtf8 line = false ∨ host.listed side = false then (calls, false)
  else (calls ++ [(side, line)], host.callback calls.length)

/-- `pump_feed`; `memory` tells whether the line can grow at a byte. -/
def pumpFeed (host : PumpHost) (side : PumpSide) (memory : Nat → Bool) (i : Nat) :
    Bytes → Pump → PumpCalls → Pump × PumpCalls × Bool
  | [], p, calls => (p, calls, true)
  | ch :: data, p, calls =>
    if ch = lf then
      let line := if p.line.getLast? = some cr then p.line.dropLast else p.line
      let emitted := pumpEmit host side calls line
      if emitted.2 then pumpFeed host side memory (i + 1) data { p with line := [] } emitted.1
      else ({ p with line := [] }, emitted.1, false)
    else if p.cap < p.line.length + 1 then
      if memory i then
        pumpFeed host side memory (i + 1) data
          { p with line := p.line ++ [ch], cap := if p.cap = 0 then 256 else p.cap * 2 } calls
      else (p, calls, false)
    else pumpFeed host side memory (i + 1) data { p with line := p.line ++ [ch] } calls

/-- What the pipe calls of `pump_once` give. -/
inductive PumpRead
  | peekFailed
  | nothing
  | readFailed
  | got (tmp : Bytes) (memory : Nat → Bool)

def pumpBuffer (r : ChildReader) (tmp : Bytes) : ChildReader :=
  if r.buf.length < r.cap then
    let take := if tmp.length < r.cap - r.buf.length then tmp.length else r.cap - r.buf.length
    { r with buf := r.buf ++ tmp.take take, truncated := r.truncated || decide (take < tmp.length) }
  else { r with truncated := true }

def pumpOnce (host : PumpHost) (side : PumpSide) (p : Pump) (calls : PumpCalls) (read : PumpRead) :
    Pump × PumpCalls × Bool :=
  if p.eof then (p, calls, true)
  else
    match read with
    | .peekFailed => ({ p with eof := true }, calls, true)
    | .nothing => (p, calls, true)
    | .readFailed => ({ p with eof := true }, calls, true)
    | .got tmp memory =>
      if tmp = [] then ({ p with eof := true }, calls, true)
      else if p.cb then pumpFeed host side memory 0 tmp p calls
      else ({ p with rd := pumpBuffer p.rd tmp }, calls, true)

/-- `pump_flush` -/
def pumpFlush (host : PumpHost) (side : PumpSide) (p : Pump) (calls : PumpCalls) : Pump × PumpCalls × Bool :=
  if p.cb ∧ 0 < p.line.length then
    let line := if p.line.getLast? = some cr then p.line.dropLast else p.line
    let emitted := pumpEmit host side calls line
    ({ p with line := [] }, emitted.1, emitted.2)
  else (p, calls, true)

inductive PumpWait
  | object
  | timeout
  | failed

/-- What a turn of the loop of `child_pump` meets. -/
structure PumpTurn where
  out : PumpRead
  err : PumpRead
  wait : PumpWait

structure Pumps where
  out : Pump
  err : Pump
  calls : PumpCalls

/-- The pumps of a child, with the callbacks that `run` was given. -/
def pumpsStart (onout onerr : Bool) (ro re : ChildReader) : Pumps :=
  ⟨⟨onout, ro, [], 0, false⟩, ⟨onerr, re, [], 0, false⟩, []⟩

/-- How a turn ends: the loop goes on, or it is left with `rc`. -/
inductive PumpNext
  | again (s : Pumps)
  | left (s : Pumps) (ok : Bool)

def pumpTurn (host : PumpHost) (s : Pumps) (turn : PumpTurn) : PumpNext :=
  let out := pumpOnce host .out s.out s.calls turn.out
  if out.2.2 = false then .left ⟨out.1, s.err, out.2.1⟩ false
  else
    let err := pumpOnce host .err s.err out.2.1 turn.err
    let s := ⟨out.1, err.1, err.2.1⟩
    if err.2.2 = false then .left s false
    else
      match turn.wait with
      | .object => if s.out.eof && s.err.eof then .left s true else .again s
      | .timeout => .again s
      | .failed => .left s false

/-- What follows the loop. -/
def pumpsFlush (host : PumpHost) (s : Pumps) : Pumps × Bool :=
  let out := pumpFlush host .out s.out s.calls
  if out.2.2 = false then (⟨out.1, s.err, out.2.1⟩, false)
  else
    let err := pumpFlush host .err s.err out.2.1
    (⟨out.1, err.1, err.2.1⟩, err.2.2)

/-- `child_pump` up to the reaping, with what its turns meet: nothing while
the loop has not been left. -/
def childPump (host : PumpHost) (s : Pumps) : List PumpTurn → Option (Pumps × Bool)
  | [] => none
  | turn :: turns =>
    match pumpTurn host s turn with
    | .again s => childPump host s turns
    | .left s false => some (s, false)
    | .left s true => some (pumpsFlush host s)

end Machteld
