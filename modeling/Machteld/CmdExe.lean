import Machteld.Bytes

namespace Machteld.CmdExe

universe u
variable {α : Type u}

/-- What percent expansion makes of a text whose characters carry marks: a
literal character, or a reference with the marks of its two percent signs.
-/
inductive Piece (α : Type u)
  | char (c : UInt8 × α)
  | ref (opening : α) (name : List (UInt8 × α)) (closing : α)

/-- References are taken left to right. An open percent sign keeps the name
read so far; one that no second percent closes around a nonempty name is
literal. -/
def pieces : Option (α × List (UInt8 × α)) → List (UInt8 × α) → List (Piece α)
  | none, [] => []
  | none, (c, a) :: rest =>
    if c = percent then pieces (some (a, [])) rest else .char (c, a) :: pieces none rest
  | some (a, name), [] => .char (percent, a) :: name.map .char
  | some (a, name), (c, b) :: rest =>
    if c = percent then
      match name with
      | [] => .char (percent, a) :: pieces (some (b, [])) rest
      | d :: ds => .ref a (d :: ds) b :: pieces none rest
    else pieces (some (a, name ++ [(c, b)])) rest

/-- The text after expansion, given what each name expands to. -/
def expand (value : Bytes → List (UInt8 × α)) (ps : List (Piece α)) : List (UInt8 × α) :=
  ps.flatMap fun
    | .char c => [c]
    | .ref _ name _ => value (name.map Prod.fst)

/-- Every character with the quoting state it is read in. -/
def quoting : Bool → List (UInt8 × α) → List ((UInt8 × α) × Bool)
  | _, [] => []
  | q, x :: rest => (x, q) :: quoting (if x.1 = dquote then !q else q) rest

def quotedAfter : Bool → List (UInt8 × α) → Bool
  | q, [] => q
  | q, x :: rest => quotedAfter (if x.1 = dquote then !q else q) rest

/-- The `/c` payload without its outer pair of quotes. -/
def dropOuterQuotes : Bytes → Option Bytes
  | [] => none
  | c :: rest => if c = dquote ∧ rest.getLast? = some dquote then some rest.dropLast else none

/-- The characters that act outside quotes: operators, escapes, groups and
argument separators. -/
def metachars : Bytes := ascii "&|<>^() \t,;="

theorem quoting_append (q : Bool) (a b : List (UInt8 × α)) :
    quoting q (a ++ b) = quoting q a ++ quoting (quotedAfter q a) b := by
  induction a generalizing q with
  | nil => rfl
  | cons x a ih => simp only [List.cons_append, quoting, quotedAfter, ih]

theorem quotedAfter_append (q : Bool) (a b : List (UInt8 × α)) :
    quotedAfter q (a ++ b) = quotedAfter (quotedAfter q a) b := by
  induction a generalizing q with
  | nil => rfl
  | cons x a ih => simp only [List.cons_append, quotedAfter, ih]

theorem dropOuterQuotes_wrap (body : Bytes) : dropOuterQuotes (dquote :: body ++ [dquote]) = some body := by
  simp [dropOuterQuotes]

end Machteld.CmdExe
