import Machteld.Except
import Machteld.TclReads
import Machteld.Units.Parse
import Machteld.WideText

namespace Machteld

def httpError (code : String) (message : String) : TclError := tclFail "HTTP" code (ascii message)

/-- `HttpOpts` -/
structure HttpOpts where
  timeout : Int64
  maxbody : Int64
  agent : Bytes
  headers : Option (List (Bytes × Bytes))
  type : Option Bytes
  hasContentType : Bool
  redirectNone : Bool

/-- What `http_opts` starts from. -/
def HttpOpts.start : HttpOpts := ⟨30000, 67108864, ascii "machteld", none, none, false, false⟩

/-- `http_header_is` -/
def httpHeaderIs (s expected : Bytes) : Bool := s.map asciiLower == expected

def isContentType (entry : Bytes × Bytes) : Bool := httpHeaderIs entry.1 (ascii "content-type")

/-- `-headers` -/
def httpHeaders (tcl : TclReads) (v : Bytes) (o : HttpOpts) : Except TclError HttpOpts :=
  match tcl.dictOf v with
  | none => .error (httpError "badvalue" "-headers takes a dict")
  | some d =>
    if d.all fun entry => httpTextSafe entry.1 true && httpTextSafe entry.2 false then
      .ok { o with headers := some d, hasContentType := o.hasContentType || d.any isContentType }
    else .error (httpError "badvalue" "header names and values may not contain controls, colon, newline, or NUL")

/-- An option with its value. -/
def httpOption (tcl : TclReads) (allowType : Bool) (a v : Bytes) (o : HttpOpts) : Except TclError HttpOpts :=
  if a = ascii "-timeout" then (httpDuration v).map fun timeout => { o with timeout := timeout }
  else if a = ascii "-redirect" then
    if v = ascii "none" then .ok { o with redirectNone := true }
    else .error (httpError "badvalue" "-redirect takes exactly \"none\"")
  else if a = ascii "-maxbody" then (httpSize v).map fun maxbody => { o with maxbody := maxbody }
  else if a = ascii "-agent" then
    if httpTextSafe v false then .ok { o with agent := v }
    else .error (httpError "badvalue" "-agent contains a forbidden newline or NUL")
  else if a = ascii "-type" then
    if allowType then
      if httpTextSafe v false then .ok { o with type := some v }
      else .error (httpError "badvalue" "-type contains a forbidden newline or NUL")
    else .error (httpError "usage" "-type is only valid for http post")
  else if a = ascii "-headers" then httpHeaders tcl v o
  else .error (httpError "usage" "unknown option")

/-- `http_opts` -/
def httpOpts (tcl : TclReads) (allowType : Bool) : List Bytes → HttpOpts → Except TclError HttpOpts
  | [], o => .ok o
  | [_], _ => .error (httpError "usage" "option needs a value")
  | a :: v :: rest, o => do
    let o ← httpOption tcl allowType a v o
    httpOpts tcl allowType rest o

/-- The options of `http get` and `http post`, with the type that a body has
by default. -/
def httpRequestOpts (tcl : TclReads) (post : Bool) (args : List Bytes) : Except TclError HttpOpts := do
  let o ← httpOpts tcl post args .start
  return if post && o.type.isNone && !o.hasContentType then
    { o with type := some (ascii "application/octet-stream") } else o

def crlf : Bytes := [cr, lf]

/-- A line of the header block. -/
def headerLine (name value : Bytes) : Bytes := name ++ (ascii ": " ++ value)

def contentTypeLine (type : Bytes) : Bytes := headerLine (ascii "Content-Type") type

/-- The header block of `http_do`. -/
def httpHeaderBlock (o : HttpOpts) : Bytes :=
  (o.headers.getD []).flatMap (fun entry => headerLine entry.1 entry.2 ++ crlf) ++
    o.type.elim [] fun type => contentTypeLine type ++ crlf

/-- The block that is handed to WinHTTP; none where it is refused before. -/
def httpHandedBlock (o : HttpOpts) : Option (List UInt16) :=
  if httpHeaderBlock o = [] then some [] else mtUtf8ToWide true (httpHeaderBlock o)

/-- A unit before the first piece. -/
def consPiece (c : UInt16) : List (List UInt16) → List (List UInt16)
  | [] => [[c]]
  | piece :: pieces => (c :: piece) :: pieces

/-- The pieces of a text between its CRLFs. -/
def crlfPieces : List UInt16 → List (List UInt16)
  | [] => [[]]
  | 0x0D :: 0x0A :: rest => [] :: crlfPieces rest
  | c :: rest => consPiece c (crlfPieces rest)

end Machteld
