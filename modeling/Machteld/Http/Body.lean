import Machteld.Http.Headers

namespace Machteld

/-- A `Tcl_WideInt`; none where its arithmetic overflows. -/
def wideInt (n : Int) : Option Int := if -0x8000000000000000 ≤ n ∧ n < 0x8000000000000000 then some n else none

def httpReadChunk : Int := 65536

/-- `http_win_error` -/
def httpWinError (code : String) (what : Bytes) (e : Nat) : TclError :=
  tclFail "HTTP" code (what ++ (ascii ": win32 " ++ decimal e))

/-- `http_request_error` -/
def httpRequestError (e : Nat) (what : Bytes) : TclError :=
  if e = 12175 then httpWinError "tls" (ascii "the secure connection was refused") e
  else if e = 12002 then httpWinError "timeout" what e
  else if e = 12007 ∨ e = 12029 then httpWinError "notfound" (ascii "cannot reach the host") e
  else httpWinError "oserror" what e

def httpTooBig : TclError := httpError "toobig" "the response exceeds -maxbody; choose a larger explicit cap"

def httpNoMemory : TclError := httpError "oserror" "out of memory reading the response"

def httpUnread (e : Nat) : TclError := httpRequestError e (ascii "the response could not be read")

/-- What the calls of one round of the body loop answer; a failure has its
error code. -/
structure HttpRound where
  avail : Except Nat UInt32
  realloc : Bytes → Nat → Option Bytes
  read : Except Nat Bytes

/-- A block that `realloc` gives has the size asked for and begins as the
old one, and no more is read than was announced. -/
structure HttpRound.Fits (round : HttpRound) : Prop where
  realloc : ∀ buf size block, round.realloc buf size = some block → block.length = size ∧ buf.take size <+: block
  read : ∀ avail bytes, round.avail = .ok avail → round.read = .ok bytes → bytes.length ≤ avail.toNat

/-- The variables of the body loop. -/
structure HttpBuffer where
  cap : Int
  used : Int
  buf : Bytes

def HttpBuffer.start : HttpBuffer := ⟨0, 0, []⟩

/-- How the loop ends; a fault is an overflow or an access outside the
buffer. -/
inductive HttpEnd
  | body (bytes : Bytes)
  | raised (err : TclError)
  | fault

/-- The loop that grows the capacity; none where it overflows or would
not end. -/
def httpGrow (maxbody need ncap : Int) : Option Int :=
  if ncap < need then
    if maxbody.tdiv 2 < ncap then some need
    else if 0 < ncap then
      if ncap * 2 < 0x8000000000000000 then httpGrow maxbody need (ncap * 2) else none
    else none
  else some ncap
termination_by (need - ncap).toNat

/-- The capacity that growth starts from. -/
def httpStartCap (maxbody cap : Int) : Int :=
  let ncap := if cap = 0 then httpReadChunk else cap
  if maxbody < ncap then maxbody else ncap

/-- Room for what is announced. -/
def httpRoom (maxbody need : Int) (round : HttpRound) (s : HttpBuffer) : Except HttpEnd HttpBuffer :=
  if s.cap < need then
    match httpGrow maxbody need (httpStartCap maxbody s.cap) with
    | none => .error .fault
    | some ncap =>
      match round.realloc s.buf ncap.toNat with
      | none => .error (.raised httpNoMemory)
      | some block => .ok { s with cap := ncap, buf := block }
  else .ok s

/-- The body as the Tcl value gets it. -/
def httpResult (s : HttpBuffer) : HttpEnd :=
  if 0 ≤ s.used ∧ s.used ≤ s.buf.length then .body (s.buf.take s.used.toNat) else .fault

/-- `WinHttpReadData` and what follows it. -/
def httpReadData (round : HttpRound) (avail : UInt32) (s : HttpBuffer) : Except HttpEnd HttpBuffer :=
  if 0 ≤ s.used ∧ s.used + avail.toNat ≤ s.buf.length then
    match round.read with
    | .error e => .error (.raised (httpUnread e))
    | .ok bytes =>
      if bytes = [] then .error (httpResult s)
      else
        match wideInt (s.used + bytes.length) with
        | none => .error .fault
        | some used =>
          .ok { s with used := used, buf := s.buf.take s.used.toNat ++
            (bytes ++ s.buf.drop (s.used.toNat + bytes.length)) }
  else .error .fault

/-- A chunk that the cap has room for. -/
def httpChunk (maxbody : Int) (round : HttpRound) (avail : UInt32) (s : HttpBuffer) : Except HttpEnd HttpBuffer :=
  match wideInt (s.used + avail.toNat) with
  | none => .error .fault
  | some need => do
    let s ← httpRoom maxbody need round s
    httpReadData round avail s

/-- A round of the body loop of `http_do`. -/
def httpRound (maxbody : Int) (round : HttpRound) (s : HttpBuffer) : Except HttpEnd HttpBuffer :=
  match round.avail with
  | .error e => .error (.raised (httpUnread e))
  | .ok avail =>
    if avail = 0 then .error (httpResult s)
    else
      match wideInt (maxbody - avail.toNat) with
      | none => .error .fault
      | some left => if left < s.used then .error (.raised httpTooBig) else httpChunk maxbody round avail s

/-- The body loop from its `i`th round on; none where the fuel runs out. -/
def httpBody (maxbody : Int) (host : Nat → HttpRound) : Nat → Nat → HttpBuffer → Option HttpEnd
  | 0, _, _ => none
  | fuel + 1, i, s =>
    match httpRound maxbody (host i) s with
    | .error e => some e
    | .ok s => httpBody maxbody host fuel (i + 1) s

end Machteld
