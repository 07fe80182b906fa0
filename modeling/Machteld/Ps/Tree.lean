import Machteld.Ps.Kill

namespace Machteld

/-- The chain of parents of a process, inside the snapshot, leads to the
root without passing through pid 0 or 4. -/
inductive PsDescends (entries : List PsEntry) (root : UInt32) : UInt32 → Prop
  | root {entry : PsEntry} : entry ∈ entries → entry.pid = root → PsDescends entries root root
  | child {entry : PsEntry} : entry ∈ entries → entry.pid ≠ 0 → entry.pid ≠ 4 →
      PsDescends entries root entry.ppid → PsDescends entries root entry.pid

/-- The chain with its length, up to the first time it meets the root. -/
inductive PsChain (entries : List PsEntry) (root : UInt32) : UInt32 → Nat → Prop
  | root {entry : PsEntry} : entry ∈ entries → entry.pid = root → PsChain entries root root 0
  | child {entry : PsEntry} {d : Nat} : entry ∈ entries → entry.pid ≠ 0 → entry.pid ≠ 4 → entry.pid ≠ root →
      PsChain entries root entry.ppid d → PsChain entries root entry.pid (d + 1)

/-- No pid occurs twice in the snapshot. -/
def PsDistinct (entries : List PsEntry) : Prop := (entries.map PsEntry.pid).Nodup

variable {entries : List PsEntry} {root : UInt32}

theorem PsDistinct.eq (distinct : PsDistinct entries) {a b : PsEntry} (inside : a ∈ entries) (inside' : b ∈ entries)
    (same : a.pid = b.pid) : a = b := List.inj_on_of_nodup_map distinct inside inside' same

theorem PsChain.descends {pid : UInt32} {d : Nat} (chain : PsChain entries root pid d) :
    PsDescends entries root pid := by
  induction chain with
  | root inside same => exact .root inside same
  | child inside idle system _ _ ih => exact .child inside idle system ih

theorem PsChain.mem {pid : UInt32} {d : Nat} (chain : PsChain entries root pid d) :
    ∃ entry ∈ entries, entry.pid = pid := by
  cases chain with
  | root inside same => exact ⟨_, inside, same⟩
  | child inside => exact ⟨_, inside, rfl⟩

theorem PsDescends.root_mem {pid : UInt32} (descends : PsDescends entries root pid) :
    ∃ entry ∈ entries, entry.pid = root := by
  induction descends with
  | root inside same => exact ⟨_, inside, same⟩
  | child _ _ _ _ ih => exact ih

/-- A descendant is reached over a chain of parents of some length. -/
theorem PsDescends.chain {pid : UInt32} (descends : PsDescends entries root pid) :
    ∃ d, PsChain entries root pid d := by
  induction descends with
  | root inside same => exact ⟨0, .root inside same⟩
  | @child entry inside idle system above ih =>
    by_cases own : entry.pid = root
    · rw [own]
      obtain ⟨top, member, same⟩ := above.root_mem
      exact ⟨0, .root member same⟩
    · obtain ⟨d, chain⟩ := ih
      exact ⟨d + 1, .child inside idle system own chain⟩

theorem PsChain.at_root {pid : UInt32} {d : Nat} (chain : PsChain entries root pid d)
    (same : pid = root) : d = 0 := by
  cases chain with
  | root => rfl
  | child _ _ _ away => exact absurd same away

/-- Where no pid is listed twice, a process has one distance from the root.
-/
theorem PsChain.unique (distinct : PsDistinct entries) {pid : UInt32} {d d' : Nat}
    (chain : PsChain entries root pid d)
    (chain' : PsChain entries root pid d') : d = d' := by
  induction chain generalizing d' with
  | root inside same => exact (chain'.at_root rfl).symm
  | @child entry d inside idle system away above ih =>
    generalize start : entry.pid = pid at chain'
    cases chain' with
    | root => exact absurd start away
    | @child entry' d' inside' _ _ _ above' =>
      cases distinct.eq inside inside' start
      exact congrArg Nat.succ (ih above')

def PsNode.entry (node : PsNode) : PsEntry := ⟨node.pid, node.ppid⟩

/-- What the passes keep: a depth that is set is the length of the chain. -/
structure PsKept (entries : List PsEntry) (root : UInt32) (nodes : List PsNode) : Prop where
  same : nodes.map PsNode.entry = entries
  depth : ∀ node ∈ nodes, 0 ≤ node.depth → ∃ d : Nat, node.depth = d ∧ PsChain entries root node.pid d
  root : ∀ node ∈ nodes, node.pid = root → node.depth = 0

theorem PsKept.mem {nodes : List PsNode} (kept : PsKept entries root nodes) {node : PsNode}
    (inside : node ∈ nodes) :
    node.entry ∈ entries := kept.same ▸ List.mem_map_of_mem inside

theorem PsKept.node {nodes : List PsNode} (kept : PsKept entries root nodes) {entry : PsEntry}
    (inside : entry ∈ entries) :
    ∃ node ∈ nodes, node.entry = entry := by
  rw [← kept.same] at inside
  exact List.mem_map.mp inside

theorem psNodes_kept (entries : List PsEntry) (root : UInt32) : PsKept entries root (psNodes root entries) where
  same := by
    rw [psNodes, List.map_map]
    exact List.map_id _
  depth node inside set := by
    obtain ⟨entry, member, rfl⟩ := List.mem_map.mp inside
    by_cases own : entry.pid = root
    · refine ⟨0, if_pos own, ?_⟩
      rw [show (PsNode.mk entry.pid entry.ppid (if entry.pid = root then 0 else -1)).pid = root from own]
      exact .root member own
    · simp only [if_neg own] at set
      omega
  root node inside own := by
    obtain ⟨entry, member, rfl⟩ := List.mem_map.mp inside
    exact if_pos own

/-- What the depth of a turn comes from. -/
theorem psDepth_eq_some {nodes : List PsNode} {node : PsNode} {depth : Int}
    (given : psDepth nodes node = some depth) :
    node.depth < 0 ∧ node.pid ≠ 0 ∧ node.pid ≠ 4 ∧
      ∃ parent ∈ nodes, 0 ≤ parent.depth ∧ parent.pid = node.ppid ∧ depth = parent.depth + 1 := by
  rw [psDepth] at given
  by_cases set : 0 ≤ node.depth
  · rw [if_pos set] at given
    cases given
  · rw [if_neg set] at given
    obtain ⟨parent, found, rfl⟩ := Option.map_eq_some_iff.mp given
    have test := List.find?_some found
    simp only [Bool.and_eq_true, decide_eq_true_eq, beq_iff_eq, bne_iff_ne] at test
    obtain ⟨⟨⟨above, same⟩, idle⟩, system⟩ := test
    exact ⟨not_le.mp set, idle, system, parent, List.mem_of_find?_eq_some found, above, same.symm, rfl⟩

theorem psDepth_eq_none {nodes : List PsNode} {node parent : PsNode} (given : psDepth nodes node = none)
    (idle : node.pid ≠ 0) (system : node.pid ≠ 4) (inside : parent ∈ nodes) (set : 0 ≤ parent.depth)
    (same : parent.pid = node.ppid) : 0 ≤ node.depth := by
  by_contra unset
  rw [psDepth, if_neg unset, Option.map_eq_none_iff, List.find?_eq_none] at given
  have test := given parent inside
  simp [set, same, idle, system] at test

theorem mem_modify {α : Type} {l : List α} {i : Nat} {f : α → α} {x : α} (inside : x ∈ l.modify i f) :
    x ∈ l ∨ ∃ y, l[i]? = some y ∧ x = f y := by
  obtain ⟨j, here⟩ := List.mem_iff_getElem?.mp inside
  rw [List.getElem?_modify] at here
  obtain ⟨y, found, rfl⟩ := Option.map_eq_some_iff.mp here
  by_cases own : i = j
  · subst own
    exact .inr ⟨y, found, if_pos rfl⟩
  · rw [if_neg own]
    exact .inl (List.mem_of_getElem? found)

theorem map_modify {α β : Type} {l : List α} {i : Nat} {f : α → α} {g : α → β} (same : ∀ a, g (f a) = g a) :
    (l.modify i f).map g = l.map g := by
  refine List.ext_getElem? fun j => ?_
  rw [List.getElem?_map, List.getElem?_map, List.getElem?_modify]
  cases l[j]? with
  | none => rfl
  | some a =>
    simp only [Option.map_eq_map, Option.map_some]
    split
    · rw [same]
    · rfl

/-- One turn of the inner loop marks at most the one process it looks at,
with the depth of its chain, and leaves what is marked as it is. -/
theorem PsKept.turn {nodes : List PsNode} {changed : Bool} (kept : PsKept entries root nodes) (i : Nat) :
    PsKept entries root (psTurn (nodes, changed) i).1 := by
  rw [psTurn]
  cases given : nodes[i]?.bind (psDepth nodes) with
  | none => exact kept
  | some depth =>
    obtain ⟨node, here, given⟩ := Option.bind_eq_some_iff.mp given
    obtain ⟨unset, idle, system, parent, inside, set, same, rfl⟩ := psDepth_eq_some given
    have member := List.mem_of_getElem? here
    have away : node.pid ≠ root := fun own => by
      rw [kept.root node member own] at unset
      omega
    have entries_same : (nodes.modify i fun node => { node with depth := parent.depth + 1 }).map
      PsNode.entry = entries := by
      refine (map_modify ?_).trans kept.same
      intro _
      rfl
    refine ⟨entries_same, fun other within reached => ?_, fun other within own => ?_⟩
    · rcases mem_modify within with before | ⟨old, found, rfl⟩
      · exact kept.depth other before reached
      · cases Option.some.inj (here.symm.trans found)
        obtain ⟨d, length, chain⟩ := kept.depth parent inside set
        refine ⟨d + 1, by rw [length]; rfl, ?_⟩
        exact .child (kept.mem member) idle system away (show PsChain entries root node.ppid d from same ▸ chain)
    · rcases mem_modify within with before | ⟨old, found, rfl⟩
      · exact kept.root other before own
      · cases Option.some.inj (here.symm.trans found)
        exact absurd own away

theorem PsKept.turns {state : List PsNode × Bool} (kept : PsKept entries root state.1) (is : List Nat) :
    PsKept entries root (is.foldl psTurn state).1 := by
  induction is generalizing state with
  | nil => exact kept
  | cons i is ih => exact ih (kept.turn i)

/-- What one turn keeps the passes keep. -/
theorem PsKept.passes {nodes : List PsNode} (kept : PsKept entries root nodes) (left : Nat) :
    PsKept entries root (psPasses left nodes) := by
  induction left generalizing nodes with
  | zero => exact kept
  | succ left ih =>
    rw [psPasses]
    split
    · exact ih (kept.turns _)
    · exact kept.turns _

/-- No node is left whose parent has a depth. -/
def PsClosed (nodes : List PsNode) : Prop := ∀ node ∈ nodes, psDepth nodes node = none

def psReached (nodes : List PsNode) : Nat := nodes.countP fun node => decide (0 ≤ node.depth)

/-- Marking one that was unmarked adds one to the marked. -/
theorem countP_modify {α : Type} {l : List α} {i : Nat} {f : α → α} {p : α → Bool} {x : α} (here : l[i]? = some x)
    (before : p x = false) (after : p (f x) = true) : (l.modify i f).countP p = l.countP p + 1 := by
  induction l generalizing i with
  | nil => cases here
  | cons a l ih =>
    cases i with
    | zero =>
      cases here
      rw [List.modify_zero_cons, List.countP_cons_of_pos after,
        List.countP_cons_of_neg (Bool.eq_false_iff.mp before)]
    | succ i =>
      rw [List.modify_succ_cons, List.countP_cons, List.countP_cons, ih here]
      omega

/-- A pass that has marked a process tells so. -/
theorem psTurns_marked (is : List Nat) {state : List PsNode × Bool} (marked : state.2 = true) :
    (is.foldl psTurn state).2 = true := by
  induction is generalizing state with
  | nil => exact marked
  | cons i is ih =>
    refine ih ?_
    rw [psTurn]
    split
    · exact marked
    · rfl

/-- The turns change nothing or reach another node. -/
theorem psTurns_changed (is : List Nat) (state : List PsNode × Bool) :
    psReached state.1 ≤ psReached (is.foldl psTurn state).1 ∧
    ((is.foldl psTurn state).2 = false →
      (is.foldl psTurn state).1 = state.1 ∧ ∀ i ∈ is, state.1[i]?.bind (psDepth state.1) = none) ∧
    (state.2 = false → (is.foldl psTurn state).2 = true →
      psReached state.1 < psReached (is.foldl psTurn state).1) := by
  induction is generalizing state with
  | nil =>
    exact ⟨Nat.le_refl _, fun _ => ⟨rfl, List.forall_mem_nil _⟩, fun clear set => absurd set (by simp [clear])⟩
  | cons i is ih =>
    obtain ⟨more, idle, grew⟩ := ih (psTurn state i)
    rw [List.foldl_cons]
    cases given : state.1[i]?.bind (psDepth state.1) with
    | none =>
      have same : psTurn state i = state := by rw [psTurn, given]
      rw [same] at more idle grew ⊢
      exact ⟨more, fun quiet => ⟨(idle quiet).1, List.forall_mem_cons.mpr ⟨given, (idle quiet).2⟩⟩, grew⟩
    | some depth =>
      obtain ⟨node, here, given'⟩ := Option.bind_eq_some_iff.mp given
      obtain ⟨unset, _, _, parent, _, set, _, rfl⟩ := psDepth_eq_some given'
      have step : psReached (psTurn state i).1 = psReached state.1 + 1 := by
        rw [psTurn, given]
        exact countP_modify here (decide_eq_false (by omega)) (decide_eq_true (by simp only; omega))
      have marked : (psTurn state i).2 = true := by rw [psTurn, given]
      refine ⟨by omega, fun quiet => ?_, fun _ _ => by omega⟩
      rw [psTurns_marked is marked] at quiet
      cases quiet

/-- A pass that has marked nothing finds every child of a marked process
marked, so the set that is marked is closed and the passes may end. -/
theorem psPass_quiet {nodes : List PsNode} (quiet : (psPass nodes).2 = false) :
    (psPass nodes).1 = nodes ∧ PsClosed nodes := by
  obtain ⟨same, idle⟩ := (psTurns_changed (List.range nodes.length) (nodes, false)).2.1 quiet
  refine ⟨same, fun node inside => ?_⟩
  obtain ⟨i, here⟩ := List.mem_iff_getElem?.mp inside
  have none := idle i (List.mem_range.mpr (List.getElem?_eq_some_iff.mp here).1)
  rw [here, Option.bind_some] at none
  exact none

theorem psPass_length (nodes : List PsNode) : (psPass nodes).1.length = nodes.length := by
  have turns : ∀ (is : List Nat) (state : List PsNode × Bool),
      (is.foldl psTurn state).1.length = state.1.length := by
    intro is
    induction is with
    | nil => exact fun _ => rfl
    | cons i is ih =>
      intro state
      rw [List.foldl_cons, ih, psTurn]
      split
      · rfl
      · exact List.length_modify ..
  exact turns _ _

/-- The passes end closed, or each of them has reached another node. -/
theorem psPasses_closed (left : Nat) (nodes : List PsNode) :
    PsClosed (psPasses left nodes) ∨ psReached nodes + left ≤ psReached (psPasses left nodes) := by
  induction left generalizing nodes with
  | zero => exact .inr (Nat.le_refl _)
  | succ left ih =>
    rw [psPasses]
    cases pass : (psPass nodes).2 with
    | false =>
      obtain ⟨same, closed⟩ := psPass_quiet pass
      rw [if_neg Bool.false_ne_true, same]
      exact .inl closed
    | true =>
      rw [if_pos rfl]
      have grew : psReached nodes < psReached (psPass nodes).1 :=
        (psTurns_changed (List.range nodes.length) (nodes, false)).2.2 rfl pass
      rcases ih (psPass nodes).1 with closed | more
      · exact .inl closed
      · exact .inr (by omega)

theorem psPasses_length (left : Nat) (nodes : List PsNode) : (psPasses left nodes).length = nodes.length := by
  induction left generalizing nodes with
  | zero => rfl
  | succ left ih =>
    rw [psPasses]
    split
    · rw [ih, psPass_length]
    · exact psPass_length nodes

/-- As many passes as there are nodes are enough. -/
theorem psPasses_fixpoint (nodes : List PsNode) : PsClosed (psPasses nodes.length nodes) := by
  rcases psPasses_closed nodes.length nodes with closed | all
  · exact closed
  · have whole : psReached (psPasses nodes.length nodes) = (psPasses nodes.length nodes).length := by
      refine Nat.le_antisymm List.countP_le_length ?_
      rw [psPasses_length]
      omega
    intro node inside
    have set := List.countP_eq_length.mp whole node inside
    rw [psDepth, if_pos (of_decide_eq_true set)]

/-- The nodes after the passes. -/
def psDepths (root : UInt32) (entries : List PsEntry) : List PsNode :=
  psPasses (psNodes root entries).length (psNodes root entries)

theorem psDepths_kept (root : UInt32) (entries : List PsEntry) : PsKept entries root (psDepths root entries) :=
  (psNodes_kept entries root).passes _

/-- A process with a chain to the root has a depth. -/
theorem psDepths_reached (distinct : PsDistinct entries) {pid : UInt32} {d : Nat}
    (chain : PsChain entries root pid d) :
    ∀ node ∈ psDepths root entries, node.pid = pid → 0 ≤ node.depth := by
  have kept := psDepths_kept root entries
  induction chain with
  | root => exact fun node inside own => Int.le_of_eq (kept.root node inside own).symm
  | @child entry d member idle system _ above ih =>
    intro node inside own
    have same : node.entry = entry := distinct.eq (kept.mem inside) member own
    subst same
    obtain ⟨parent, within, pid⟩ := above.mem
    obtain ⟨parent', inside', rfl⟩ := kept.node within
    exact psDepth_eq_none (psPasses_fixpoint (psNodes root entries) node inside) idle system inside'
      (ih parent' inside' pid) pid

/-- A depth is set just when the chain of parents leads to the root, and is
then the length of the chain. -/
theorem psDepths_spec (distinct : PsDistinct entries) {node : PsNode} (inside : node ∈ psDepths root entries) :
    (0 ≤ node.depth ↔ PsDescends entries root node.pid) ∧ ∀ d, PsChain entries root node.pid d →
      node.depth = d := by
  have kept := psDepths_kept root entries
  refine ⟨⟨fun set => ?_, fun descends => ?_⟩, fun d chain => ?_⟩
  · obtain ⟨d, _, chain⟩ := kept.depth node inside set
    exact chain.descends
  · obtain ⟨d, chain⟩ := descends.chain
    exact psDepths_reached distinct chain node inside rfl
  · obtain ⟨d', length, chain'⟩ := kept.depth node inside (psDepths_reached distinct chain node inside rfl)
    rw [length, chain.unique distinct chain']

/-- The order is by depth, deepest first, and by pid where depths are equal.
-/
theorem psDepthDesc_le {x y : PsNode} :
    psDepthDesc x y ≤ 0 ↔ y.depth < x.depth ∨ x.depth = y.depth ∧ x.pid.toNat ≤ y.pid.toNat := by
  rw [psDepthDesc]
  simp only [UInt32.lt_iff_toNat_lt]
  split
  · omega
  · split
    · omega
    · split <;> omega

instance psDepthDesc_total : Std.Total fun x y : PsNode => psDepthDesc x y ≤ 0 where
  total x y := by
    simp only [psDepthDesc_le]
    omega

instance psDepthDesc_trans : IsTrans PsNode fun x y => psDepthDesc x y ≤ 0 where
  trans x y z above below := by
    rw [psDepthDesc_le] at above below ⊢
    omega

/-- The nodes that the kill loop does not pass over. -/
def psVictims (root : UInt32) (nodes : List PsNode) : List PsNode :=
  nodes.filter fun node => decide (¬ (node.depth < 0 ∨ node.pid = root))

/-- Every attempt is in one of the two lists. -/
def PsReport.Settled (report : PsReport) : Prop :=
  report.attempted.Perm (report.killed ++ report.failed.map Prod.fst)

variable {calls : Nat → PsCalls}

theorem psAttempt_attempted (report : PsReport) (pid : UInt32) :
    (psAttempt calls report pid).attempted = report.attempted ++ [pid] := by
  rw [psAttempt]
  split <;> rfl

/-- Each attempt is told in exactly one of the lists. -/
theorem PsReport.Settled.attempt {report : PsReport} (settled : report.Settled) (pid : UInt32) :
    (psAttempt calls report pid).Settled := by
  rw [psAttempt]
  split
  · refine (settled.append_right [pid]).trans ?_
    simp only [List.append_assoc]
    exact List.perm_append_comm.append_left _
  · refine (settled.append_right [pid]).trans ?_
    rw [List.map_append, ← List.append_assoc]
    exact List.Perm.refl _

/-- The loop attempts the marked processes in their order, the root left
out, and tells each attempt in one of the two lists. -/
theorem psKillNodes (nodes : List PsNode) (report : PsReport) :
    (nodes.foldl (psKillNode calls root) report).attempted =
      report.attempted ++ (psVictims root nodes).map PsNode.pid ∧
    (report.Settled → (nodes.foldl (psKillNode calls root) report).Settled) := by
  induction nodes generalizing report with
  | nil => exact ⟨(List.append_nil _).symm, id⟩
  | cons node nodes ih =>
    obtain ⟨attempted, settled⟩ := ih (psKillNode calls root report node)
    rw [List.foldl_cons, attempted, psVictims, psVictims, List.filter_cons]
    by_cases passed : node.depth < 0 ∨ node.pid = root
    · have same : psKillNode calls root report node = report := if_pos passed
      rw [same] at settled ⊢
      rw [if_neg (by simpa only [decide_eq_true_eq, not_not] using passed)]
      exact ⟨rfl, settled⟩
    · have step : psKillNode calls root report node = psAttempt calls report node.pid := if_neg passed
      rw [step] at settled ⊢
      rw [psAttempt_attempted, if_pos (decide_eq_true passed), List.map_cons, List.append_assoc]
      exact ⟨rfl, fun before => settled (before.attempt node.pid)⟩

theorem mem_psVictims {node : PsNode} :
    node ∈ psVictims root (psSorted (psNodes root entries)) ↔
      node ∈ psDepths root entries ∧ 0 ≤ node.depth ∧ node.pid ≠ root := by
  rw [psVictims, List.mem_filter, psSorted, List.mem_insertionSort, decide_eq_true_eq, not_or, not_lt]
  rfl

/-- No process is attempted twice. -/
theorem psSorted_pids (distinct : PsDistinct entries) :
    ((psSorted (psNodes root entries)).map PsNode.pid).Nodup := by
  have perm := (List.perm_insertionSort (fun x y => psDepthDesc x y ≤ 0) (psDepths root entries)).map PsNode.pid
  refine perm.nodup_iff.mpr ?_
  have pids : (psDepths root entries).map PsNode.pid = entries.map PsEntry.pid := by
    conv => rhs; rw [← (psDepths_kept root entries).same, List.map_map]
    rfl
  rw [pids]
  exact distinct

/-- The pids that a tree kill attempts, in order. -/
def psAttempts (root : UInt32) (entries : List PsEntry) : List UInt32 :=
  (psVictims root (psSorted (psNodes root entries))).map PsNode.pid ++ [root]

theorem psKillTree_attempted :
    (psKillTree calls root (psNodes root entries)).attempted = psAttempts root entries := by
  rw [psKillTree, psAttempt_attempted, (psKillNodes _ _).1, psAttempts]
  rfl

theorem psAttempts_nodup (distinct : PsDistinct entries) : (psAttempts root entries).Nodup := by
  refine List.nodup_append.mpr ⟨(psSorted_pids distinct).sublist (List.filter_sublist.map _),
    List.nodup_singleton root, ?_⟩
  intro pid inside other same
  obtain ⟨node, member, rfl⟩ := List.mem_map.mp inside
  rw [List.mem_singleton.mp same]
  exact (mem_psVictims.mp member).2.2

/-- The processes that are attempted are the root and its descendants. That
none is missed comes from the closed set, that none is added from the
chains. -/
theorem mem_psAttempts (distinct : PsDistinct entries) {pid : UInt32} :
    pid ∈ psAttempts root entries ↔ pid = root ∨ PsDescends entries root pid := by
  rw [psAttempts, List.mem_append, List.mem_singleton, List.mem_map]
  constructor
  · rintro (⟨node, member, rfl⟩ | own)
    · obtain ⟨inside, set, _⟩ := mem_psVictims.mp member
      exact .inr ((psDepths_spec distinct inside).1.mp set)
    · exact .inl own
  · rintro (own | descends)
    · exact .inr own
    · by_cases own : pid = root
      · exact .inr own
      · obtain ⟨d, chain⟩ := descends.chain
        obtain ⟨entry, within, rfl⟩ := chain.mem
        obtain ⟨node, inside, rfl⟩ := (psDepths_kept root entries).node within
        exact .inl ⟨node, mem_psVictims.mpr ⟨inside, psDepths_reached distinct chain node inside rfl, own⟩, rfl⟩

/-- The chains of the pids do not get longer along the attempts. -/
theorem psAttempts_pairwise (distinct : PsDistinct entries) : (psAttempts root entries).Pairwise fun a b =>
    ∀ d d', PsChain entries root a d → PsChain entries root b d' → d' ≤ d := by
  refine List.pairwise_append.mpr ⟨?_, List.pairwise_singleton _ root, ?_⟩
  · rw [List.pairwise_map]
    have sorted := (List.pairwise_insertionSort (fun x y => psDepthDesc x y ≤ 0) (psDepths root entries)).sublist
      (List.filter_sublist (p := fun node => decide (¬ (node.depth < 0 ∨ node.pid = root))))
    refine sorted.imp_of_mem fun {a b} inside inside' order d d' chain chain' => ?_
    have length := (psDepths_spec distinct (mem_psVictims.mp inside).1).2 d chain
    have length' := (psDepths_spec distinct (mem_psVictims.mp inside').1).2 d' chain'
    rw [psDepthDesc_le] at order
    omega
  · intro pid _ other same d d' _ chain
    rw [List.mem_singleton.mp same] at chain
    rw [chain.at_root rfl]
    exact Nat.zero_le d

/-- Every process comes before its parent. -/
theorem psAttempts_before (distinct : PsDistinct entries) {entry : PsEntry} (inside : entry ∈ entries)
    (attempted : entry.pid ∈ psAttempts root entries) (away : entry.pid ≠ root) :
    entry.ppid ∈ psAttempts root entries ∧
      (psAttempts root entries).idxOf entry.pid < (psAttempts root entries).idxOf entry.ppid := by
  obtain ⟨d, chain⟩ := (((mem_psAttempts distinct).mp attempted).resolve_left away).chain
  have above : ∃ d', d = d' + 1 ∧ PsChain entries root entry.ppid d' := by
    generalize start : entry.pid = pid at chain
    cases chain with
    | root => exact absurd start away
    | @child entry' d' inside' _ _ _ above =>
      cases distinct.eq inside inside' start
      exact ⟨d', rfl, above⟩
  obtain ⟨d', rfl, chain'⟩ := above
  have member : entry.ppid ∈ psAttempts root entries := (mem_psAttempts distinct).mpr (.inr chain'.descends)
  refine ⟨member, ?_⟩
  by_contra after
  have place := List.idxOf_lt_length_of_mem attempted
  have place' := List.idxOf_lt_length_of_mem member
  rcases Nat.lt_or_eq_of_le (Nat.not_lt.mp after) with before | same
  · have ordered := List.pairwise_iff_getElem.mp (@psAttempts_pairwise entries root distinct) _ _
      place' place before
    rw [List.getElem_idxOf, List.getElem_idxOf] at ordered
    have shorter := ordered d' (d' + 1) chain' chain
    omega
  · have pids : entry.ppid = entry.pid := by
      rw [← List.getElem_idxOf place', ← List.getElem_idxOf place]
      simp only [same]
    rw [pids] at chain'
    have lengths := chain.unique distinct chain'
    omega

/-- A tree kill attempts the root and the processes whose chain of parents
leads to it, each once, every process before its parent and the root last,
and each ends up in one of the two lists. -/
theorem psKill_tree (distinct : PsDistinct entries) (idle : root ≠ 0) (system : root ≠ 4) (calls : Nat → PsCalls) :
    ∃ report, psKill root true ⟨true, true, entries, errorNoMoreFiles⟩ calls = .ok report ∧
      report.attempted.Nodup ∧
      (∀ pid, pid ∈ report.attempted ↔ pid = root ∨ PsDescends entries root pid) ∧
      (∀ entry ∈ entries, entry.pid ∈ report.attempted → entry.pid ≠ root → entry.ppid ∈ report.attempted ∧
        report.attempted.idxOf entry.pid < report.attempted.idxOf entry.ppid) ∧
      report.attempted.getLast? = some root ∧
      report.attempted.Perm (report.killed ++ report.failed.map Prod.fst) := by
  refine ⟨psKillTree calls root (psNodes root entries), ?_, ?_, fun pid => ?_, fun entry inside => ?_, ?_, ?_⟩
  · rw [psKill, if_neg (not_or.mpr ⟨idle, system⟩), if_pos rfl]
    rfl
  · rw [psKillTree_attempted]
    exact psAttempts_nodup distinct
  · rw [psKillTree_attempted]
    exact mem_psAttempts distinct
  · rw [psKillTree_attempted]
    exact psAttempts_before distinct inside
  · rw [psKillTree_attempted, psAttempts, List.getLast?_concat]
  · have start : PsReport.Settled ⟨[], [], []⟩ := List.Perm.refl _
    exact ((psKillNodes _ _).2 start).attempt root

theorem psKill_tree_sample :
    ∃ report, psKill 8 true ⟨true, true, [⟨16, 12⟩, ⟨12, 8⟩, ⟨4, 8⟩, ⟨8, 16⟩], errorNoMoreFiles⟩
        (fun _ => ⟨true, false, 0, true, none⟩) = .ok report ∧
      report.attempted.getLast? = some 8 := by
  have distinct : PsDistinct [⟨16, 12⟩, ⟨12, 8⟩, ⟨4, 8⟩, ⟨8, 16⟩] := by
    rw [PsDistinct]
    decide
  obtain ⟨report, killed, _, _, _, last, _⟩ :=
    @psKill_tree _ 8 distinct (by decide) (by decide) fun _ => ⟨true, false, 0, true, none⟩
  exact ⟨report, killed, last⟩

end Machteld
