import Machteld.Json.Value
import Mathlib.Data.List.Sort

namespace Machteld

def errorInvalidParameter : Nat := 87

def psError (code message : String) : TclError := ⟨ascii message, [ascii "MACHTELD", ascii "MTPS", ascii code]⟩

/-- What the calls of `ps_kill_one` give for a pid. -/
structure PsCalls where
  opened : Bool
  openedLess : Bool
  openError : Nat
  terminated : Bool
  exitCode : Option Nat

/-- The code of the failure, if there is one. -/
def psKillOne (calls : PsCalls) : Option String :=
  if calls.opened = false ∧ calls.openedLess = false then
    if calls.openError = errorInvalidParameter then some "notfound" else some "denied"
  else if calls.terminated then none
  else if calls.opened && calls.exitCode.any (fun code => code != stillActive) then some "notfound"
  else some "denied"

/-- The fields of a `PROCESSENTRY32W` that `kill` reads. -/
structure PsEntry where
  pid : UInt32
  ppid : UInt32

structure PsNode where
  pid : UInt32
  ppid : UInt32
  depth : Int

def psDepthDesc (x y : PsNode) : Int :=
  if x.depth ≠ y.depth then y.depth - x.depth
  else if x.pid < y.pid then -1
  else if y.pid < x.pid then 1
  else 0

/-- What the snapshot calls give: whether there is a snapshot, whether the
array could grow, the entries and the error that ended them. -/
structure PsSnapshot where
  taken : Bool
  grown : Bool
  entries : List PsEntry
  lastError : Nat

def psNodes (root : UInt32) (entries : List PsEntry) : List PsNode :=
  entries.map fun entry => ⟨entry.pid, entry.ppid, if entry.pid = root then 0 else -1⟩

def psEnumerate (root : UInt32) (snapshot : PsSnapshot) : Except TclError (List PsNode) :=
  if snapshot.taken = false then .error (psError "oserror" "cannot snapshot processes")
  else if snapshot.grown = false then .error (psError "oserror" "out of memory taking process snapshot")
  else if snapshot.lastError ≠ errorNoMoreFiles then .error (psError "oserror" "process enumeration failed")
  else .ok (psNodes root snapshot.entries)

/-- The depth that a turn gives a node. -/
def psDepth (nodes : List PsNode) (node : PsNode) : Option Int :=
  if 0 ≤ node.depth then none
  else
    (nodes.find? fun parent =>
      decide (0 ≤ parent.depth) && node.ppid == parent.pid && node.pid != 0 && node.pid != 4).map
        fun parent => parent.depth + 1

/-- A turn of the loop over `i`, with `changed`. -/
def psTurn (state : List PsNode × Bool) (i : Nat) : List PsNode × Bool :=
  match state.1[i]?.bind (psDepth state.1) with
  | none => state
  | some depth => (state.1.modify i fun node => { node with depth := depth }, true)

def psPass (nodes : List PsNode) : List PsNode × Bool := (List.range nodes.length).foldl psTurn (nodes, false)

/-- The passes, as many as are left. -/
def psPasses : Nat → List PsNode → List PsNode
  | 0, nodes => nodes
  | left + 1, nodes => if (psPass nodes).2 then psPasses left (psPass nodes).1 else (psPass nodes).1

def psSorted (nodes : List PsNode) : List PsNode :=
  (psPasses nodes.length nodes).insertionSort fun x y => psDepthDesc x y ≤ 0

/-- The pids that `ps_kill_one` was called on, and the two lists. -/
structure PsReport where
  attempted : List UInt32
  killed : List UInt32
  failed : List (UInt32 × String)

/-- One call of `ps_kill_one`; the calls of Windows answer by the attempt.
-/
def psAttempt (calls : Nat → PsCalls) (report : PsReport) (pid : UInt32) : PsReport :=
  match psKillOne (calls report.attempted.length) with
  | none => { report with attempted := report.attempted ++ [pid], killed := report.killed ++ [pid] }
  | some code => { report with attempted := report.attempted ++ [pid], failed := report.failed ++ [(pid, code)] }

def psKillNode (calls : Nat → PsCalls) (root : UInt32) (report : PsReport) (node : PsNode) : PsReport :=
  if node.depth < 0 ∨ node.pid = root then report else psAttempt calls report node.pid

def psKillTree (calls : Nat → PsCalls) (root : UInt32) (nodes : List PsNode) : PsReport :=
  psAttempt calls ((psSorted nodes).foldl (psKillNode calls root) ⟨[], [], []⟩) root

/-- `mtps kill`, its words read. -/
def psKill (root : UInt32) (tree : Bool) (snapshot : PsSnapshot) (calls : Nat → PsCalls) :
    Except TclError PsReport :=
  if root = 0 ∨ root = 4 then .error (psError "denied" "the system process cannot be terminated")
  else if tree then (psEnumerate root snapshot).map (psKillTree calls root)
  else
    match psKillOne (calls 0) with
    | some code =>
      .error (psError code (if code = "notfound" then "no such process" else "cannot terminate that process"))
    | none => .ok (psAttempt calls ⟨[], [], []⟩ root)

end Machteld
