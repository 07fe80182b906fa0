import Machteld.Argv
import Machteld.CmdExe

namespace Machteld

open Argv CmdExe

/-- The text inserted before a percent sign, which with that sign becomes a
literal percent and an empty substring of `%cd%`. -/
def neutral : Bytes := ascii "%%cd:~,"

def appendNeutralized (s : Bytes) : Bytes :=
  s.flatMap fun c => if c = percent then neutral ++ [c] else [c]

def batchUnquoted : Bytes := ascii "#$*+-./:?@\\_"

def isAsciiAlnum (c : UInt8) : Bool :=
  (0x30 ≤ c && c ≤ 0x39) || (0x61 ≤ c && c ≤ 0x7A) || (0x41 ≤ c && c ≤ 0x5A)

def needsQuote (c : UInt8) : Bool :=
  (c < 0x80 && !(isAsciiAlnum c || (c != 0 && batchUnquoted.contains c))) || (c < 0x20 || c == 0x7F)

def batchQuote (arg : Bytes) : Bool :=
  arg.isEmpty || arg.getLast? == some backslash || arg.any needsQuote

/-- The copying loop of `append_batch_arg`, with the run of backslashes so
far. -/
def batchLoop (quote : Bool) : Nat → Bytes → Bytes
  | backslashes, [] => if quote then slashRun backslashes ++ [dquote] else []
  | backslashes, c :: cs =>
    if c = backslash then c :: batchLoop quote (backslashes + 1) cs
    else if c = dquote then slashRun backslashes ++ dquote :: c :: batchLoop quote 0 cs
    else if c = percent ∨ c = cr then neutral ++ c :: batchLoop quote 0 cs
    else c :: batchLoop quote 0 cs

def appendBatchArg (arg : Bytes) : Bytes :=
  (if batchQuote arg then [dquote] else []) ++ batchLoop (batchQuote arg) 0 arg

def hasCrOrLf (s : Bytes) : Bool := s.contains cr || s.contains lf

def batchPrefix : Bytes := ascii "cmd.exe /e:ON /v:OFF /d /c "

def wjMakeBatchCmdline (script : Bytes) (args : List Bytes) : Except String Bytes :=
  if script.contains dquote || script.getLast? == some backslash then
    .error "batch script path may not contain a quote or end with a backslash"
  else if hasCrOrLf script then
    .error "batch script path may not contain a carriage return or newline"
  else if args.any hasCrOrLf then
    .error "batch argument may not contain a carriage return or newline"
  else
    .ok (batchPrefix ++ dquote :: (dquote :: appendNeutralized script ++ [dquote] ++
      args.flatMap fun arg => space :: appendBatchArg arg) ++ [dquote])

/-- Where a character of the payload comes from: the script path, an
argument, the separator before an argument, the encoder's quoting, or an
inserted reference. -/
inductive Origin
  | script
  | arg (i : Nat)
  | gap (i : Nat)
  | quoting
  | cd
  deriving DecidableEq

abbrev Marked := List (UInt8 × Origin)

def mark (origin : Origin) (s : Bytes) : Marked := s.map fun c => (c, origin)

def markedScript (script : Bytes) : Marked :=
  (dquote, .quoting) :: (script.flatMap fun c =>
    if c = percent then mark .cd neutral ++ [(c, .script)] else [(c, .script)]) ++ [(dquote, .quoting)]

def markedLoop (quote : Bool) (i : Nat) : Nat → Bytes → Marked
  | backslashes, [] => if quote then mark .quoting (slashRun backslashes) ++ [(dquote, .quoting)] else []
  | backslashes, c :: cs =>
    if c = backslash then (c, .arg i) :: markedLoop quote i (backslashes + 1) cs
    else if c = dquote then
      mark .quoting (slashRun backslashes) ++ (dquote, .quoting) :: (c, .arg i) :: markedLoop quote i 0 cs
    else if c = percent ∨ c = cr then mark .cd neutral ++ (c, .arg i) :: markedLoop quote i 0 cs
    else (c, .arg i) :: markedLoop quote i 0 cs

def markedArg (i : Nat) (arg : Bytes) : Marked :=
  (if batchQuote arg then [(dquote, .quoting)] else []) ++ markedLoop (batchQuote arg) i 0 arg

def markedArgs : Nat → List Bytes → Marked
  | _, [] => []
  | i, arg :: args => (space, .gap i) :: markedArg i arg ++ markedArgs (i + 1) args

/-- The payload between the outer quotes, with the origin of every
character. -/
def markedBody (script : Bytes) (args : List Bytes) : Marked := markedScript script ++ markedArgs 0 args

def bytesFrom (origin : Origin) (text : Marked) : Bytes := (text.filter (·.2 = origin)).map Prod.fst

theorem percent_not_mem_slashRun (n : Nat) : percent ∉ slashRun n := by
  intro member
  exact absurd (List.eq_of_mem_replicate member) (by decide)

theorem mark_fst (origin : Origin) (s : Bytes) : (mark origin s).map Prod.fst = s := by
  simp [mark, Function.comp_def]

theorem markedLoop_fst (quote : Bool) (i n : Nat) (arg : Bytes) :
    (markedLoop quote i n arg).map Prod.fst = batchLoop quote n arg := by
  induction arg generalizing n with
  | nil => cases quote <;> simp [markedLoop, batchLoop, mark_fst]
  | cons c cs ih =>
    rw [markedLoop, batchLoop]
    split_ifs <;> simp [mark_fst, ih]

theorem markedArg_fst (i : Nat) (arg : Bytes) : (markedArg i arg).map Prod.fst = appendBatchArg arg := by
  rw [markedArg, appendBatchArg, List.map_append, markedLoop_fst]
  split_ifs <;> rfl

theorem markedArgs_fst (i : Nat) (args : List Bytes) :
    (markedArgs i args).map Prod.fst = args.flatMap fun arg => space :: appendBatchArg arg := by
  induction args generalizing i with
  | nil => rfl
  | cons arg args ih => simp [markedArgs, markedArg_fst, ih]

theorem markedScript_fst (script : Bytes) :
    (markedScript script).map Prod.fst = dquote :: appendNeutralized script ++ [dquote] := by
  simp only [markedScript, appendNeutralized, List.cons_append, List.map_cons, List.map_append, List.map_flatMap,
    List.map_nil]
  congr 2
  refine List.flatMap_congr fun c _ => ?_
  split_ifs <;> simp [mark_fst]

theorem markedBody_fst (script : Bytes) (args : List Bytes) :
    (markedBody script args).map Prod.fst =
      dquote :: appendNeutralized script ++ [dquote] ++ args.flatMap fun arg => space :: appendBatchArg arg := by
  rw [markedBody, List.map_append, markedScript_fst, markedArgs_fst]

end Machteld
