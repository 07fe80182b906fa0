import Machteld.TclText

namespace Machteld

/-- A Tcl value as the C tier tells values apart: a byte array, or a string
of code points. -/
inductive TclValue
  | bytes (b : Bytes)
  | text (cs : List Nat)
  deriving DecidableEq

/-- `Tcl_GetStringFromObj` -/
def TclValue.string : TclValue → Bytes
  | bytes b => tclText (b.map UInt8.toNat)
  | text cs => tclText cs

/-- `Machteld_ValueBytes`: a byte array is its bytes, anything else its
UTF-8, with the lenient profile for what has none. -/
def TclValue.valueBytes : TclValue → Bytes
  | bytes b => b
  | text cs => cs.flatMap Utf8.encode

end Machteld
