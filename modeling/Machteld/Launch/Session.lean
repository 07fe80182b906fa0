import Machteld.Launch.Registry

namespace Machteld

def ChildEntry.held (e : ChildEntry) : Multiset Asset := e.c.held + {.block e.address}

def heldBy : List ChildEntry → Multiset Asset
  | [] => 0
  | e :: es => e.held + heldBy es

def tasksOf : List ChildEntry → List (Task Asset)
  | [] => []
  | e :: es => e.c.tasks e.address ++ tasksOf es

theorem heldBy_append (es es' : List ChildEntry) : heldBy (es ++ es') = heldBy es + heldBy es' := by
  induction es with
  | nil => exact (zero_add _).symm
  | cons e es ih => rw [List.cons_append, heldBy, heldBy, ih, add_assoc]

theorem tasksOf_append (es es' : List ChildEntry) : tasksOf (es ++ es') = tasksOf es ++ tasksOf es' := by
  induction es with
  | nil => rfl
  | cons e es ih => rw [List.cons_append, tasksOf, tasksOf, ih, List.append_assoc]

theorem mem_heldBy {es : List ChildEntry} {e : ChildEntry} {r : Asset} (member : e ∈ es) (held : r ∈ e.held) :
    r ∈ heldBy es := by
  induction es with
  | nil => cases member
  | cons e' es ih =>
    rw [heldBy, Multiset.mem_add]
    rcases List.mem_cons.mp member with rfl | rest
    · exact .inl held
    · exact .inr (ih rest)

theorem ChildEntry.address_held (e : ChildEntry) : .block e.address ∈ e.held :=
  Multiset.mem_add.mpr (.inr (Multiset.mem_singleton_self _))

theorem ChildEntry.job_held {e : ChildEntry} {j : Nat} (job : e.c.job = some j) : .job j ∈ e.held := by
  simp only [ChildEntry.held, ChildRecord.held, ChildRecord.kept, job, heldJob, Option.elim_some, Multiset.mem_add,
    Multiset.mem_singleton, true_or, or_true]

/-- What the threads of children work with is held by them. -/
theorem tasksOf_kept {es : List ChildEntry} (tracked : ∀ e ∈ es, e.c.Tracked) : Kept (tasksOf es) (heldBy es) := by
  induction es with
  | nil => exact fun _ none' => absurd none' List.not_mem_nil
  | cons e es ih =>
    have own : .block e.address ∈ ({.block e.address} + heldBy es : Multiset Asset) := by simp
    have first := (tracked e List.mem_cons_self).keeps own
    rw [← add_assoc] at first
    exact first.append ((ih fun e member => tracked e (List.mem_cons_of_mem _ member)).add _)

/-- Whoever was born lives in the job of a child of the registry, if at all.
-/
structure Lore.Confined (lore : Lore) (children : List ChildEntry) (lore' : Lore) : Prop where
  births : ∃ new, lore'.births = new ++ lore.births ∧ ∀ b ∈ new, b.number ∈ lore'.dead ∨
    ∃ e ∈ children, ∃ j job, e.c.job = some j ∧ jobAt lore'.jobs j = some job ∧ job.number ∈ b.jobs
  dead : ∀ n ∈ lore.dead, n ∈ lore'.dead

/-- What a registry holds is what the records of its children say, and
theirs that were left to their threads; nobody has the number of another. -/
structure ProcChildren.Keeps (r : ProcChildren) (F : Multiset Asset) (ts : List (Task Asset)) (lore lore' : Lore)
    (y : LaunchWorld) : Prop where
  has : Has (heldBy r.children + (heldBy r.left + F)) (tasksOf r.children ++ (tasksOf r.left ++ ts)) lore' y
  tracked : ∀ e ∈ r.children ++ r.left, e.c.Tracked
  confined : lore.Confined r.children lore'
  counted : ∀ e ∈ r.children, e.number ≤ r.counter
  numbered : (r.children.map ChildEntry.number).Nodup
  kept : Kept ts F
  root : .job r.root ∈ F

/-- No two children have the same token before the counter of the source
comes round. -/
theorem ProcChildren.Keeps.tokens {r : ProcChildren} {F : Multiset Asset} {ts : List (Task Asset)}
    {lore lore' : Lore}
    {y : LaunchWorld} (keeps : r.Keeps F ts lore lore' y) (few : r.counter < 2 ^ 31) :
    (r.children.map ChildEntry.token).Nodup := by
  have counted : ∀ n ∈ r.children.map ChildEntry.number, n ≤ r.counter := fun n known => by
    obtain ⟨e, member, rfl⟩ := List.mem_map.mp known
    exact keeps.counted e member
  have distinct := handleTokens_nodup "child" few counted keeps.numbered
  rwa [List.map_map] at distinct

section

variable {x y : LaunchWorld} {F : Multiset Asset} {ts : List (Task Asset)} {lore lore' lore'' : Lore}
  {r : ProcChildren}
  {e : ChildEntry} {l m : List ChildEntry}

theorem Lore.Confined.later (confined : lore.Confined l lore') (births : lore''.births = lore'.births)
    (dead : ∀ n ∈ lore'.dead, n ∈ lore''.dead) (jobs : lore''.jobs = lore'.jobs) : lore.Confined l lore'' := by
  obtain ⟨new, same, inside⟩ := confined.births
  refine ⟨⟨new, births.trans same, fun b member => (inside b member).imp (dead _) ?_⟩,
    fun n known => dead n (confined.dead n known)⟩
  rw [jobs]
  exact id

/-- Where the job of a child is closed its processes are dead. -/
theorem Lore.Confined.closes (confined : lore.Confined (l ++ e :: m) lore') (closes : lore'.Closes e.c.job lore'') :
    lore.Confined (l ++ m) lore'' := by
  obtain ⟨new, same, inside⟩ := confined.births
  refine ⟨⟨new, closes.births.trans same, fun b member => ?_⟩, fun n known => closes.dead n (confined.dead n known)⟩
  rcases inside b member with dead | ⟨e', there, j, job, has, found, number⟩
  · exact .inl (closes.dead _ dead)
  · rcases List.mem_append.mp there with first | rest
    · exact .inr ⟨e', List.mem_append_left _ first, j, job, has, by rw [closes.jobs]; exact found, number⟩
    rcases List.mem_cons.mp rest with rfl | last
    · obtain ⟨job', found', members, -⟩ := closes.some' j has
      obtain rfl := Option.some.inj (found.symm.trans found')
      exact .inl (members b (by rw [same]; exact List.mem_append_left _ member) number)
    · exact .inr ⟨e', List.mem_append_right _ last, j, job, has, by rw [closes.jobs]; exact found, number⟩

theorem Lore.Confined.ends {M : Multiset Asset} (confined : lore.Confined l lore') (ends : lore'.Ends M lore'')
    (held : heldBy l ≤ M) : lore.Confined l lore'' := by
  obtain ⟨new, same, inside⟩ := confined.births
  obtain ⟨new', births, dead⟩ := ends.births
  refine ⟨⟨new' ++ new, by rw [births, same, List.append_assoc], fun b member => ?_⟩,
    fun n known => ends.dead n (confined.dead n known)⟩
  rcases List.mem_append.mp member with recent | old
  · exact .inl (dead b recent)
  · refine (inside b old).imp (ends.dead _) ?_
    rintro ⟨e, there, j, job, has, found, number⟩
    refine ⟨e, there, j, job, has, ?_, number⟩
    rw [ends.others j (Multiset.mem_of_le held (mem_heldBy there (e.job_held has)))]
    exact found

theorem Lore.Confined.start {j : Nat} {b : Birth} (confined : lore.Confined l lore') (job : e.c.job = some j)
    (fresh : .job j ∉ heldBy l) (inside : lore'.jobs.length ∈ b.jobs) :
    lore.Confined (e :: l) (((lore'.jobNew j).create b false).share lore'.jobs.length) := by
  obtain ⟨new, same, old⟩ := confined.births
  refine ⟨⟨b :: new, by rw [Lore.share, Lore.create, Lore.jobNew, same]; rfl, fun b' member => ?_⟩, confined.dead⟩
  rcases List.mem_cons.mp member with rfl | member
  · exact .inr ⟨e, List.mem_cons_self, j, _, job, jobAt_jobNew lore' j, inside⟩
  · refine (old b' member).imp id ?_
    rintro ⟨e', there, j', job', has, found, number⟩
    refine ⟨e', List.mem_cons_of_mem _ there, j', job', has, ?_, number⟩
    have other : (j == j') = false := beq_eq_false_iff_ne.mpr fun same =>
      fresh (same ▸ mem_heldBy there (e'.job_held has))
    rw [Lore.share, Lore.create, Lore.jobNew, jobAt, List.find?_cons, other]
    exact found

/-- A child that was found is one of the registry, and no other is where it
is. -/
theorem ProcChildren.Keeps.split {token : Bytes} (keeps : r.Keeps F ts lore lore' y)
    (found : registryFind r token = some e) :
    ∃ l m, r.children = l ++ e :: m ∧ ∀ e' ∈ l ++ m, e'.address ≠ e.address := by
  obtain ⟨-, l, m, same, -⟩ := List.find?_eq_some_iff_append.mp found
  refine ⟨l, m, same, fun e' member address => ?_⟩
  have single : (heldBy r.children).Nodup := (Multiset.nodup_add.mp keeps.has.single).1
  have order : heldBy r.children = e.held + heldBy (l ++ m) := by
    rw [same, heldBy_append, heldBy_append, heldBy]
    abel
  rw [order] at single
  refine Multiset.disjoint_left.mp (Multiset.nodup_add.mp single).2.2 e.address_held (mem_heldBy member ?_)
  rw [← address]
  exact e'.address_held

theorem registryRemove_split (same : r.children = l ++ e :: m) (others : ∀ e' ∈ l ++ m, e'.address ≠ e.address) :
    registryRemove r e = { r with children := l ++ m } := by
  have left : ∀ e' ∈ l, ¬ (e'.address == e.address) = true := fun e' member same =>
    others e' (List.mem_append_left _ member) (eq_of_beq same)
  rw [registryRemove, same, List.eraseP_append_right _ left,
    List.eraseP_cons_of_pos (p := fun e' : ChildEntry => e'.address == e.address) (beq_self_eq_true _)]

theorem registryStore_split {c : ChildRecord} (same : r.children = l ++ e :: m)
    (others : ∀ e' ∈ l ++ m, e'.address ≠ e.address) :
    registryStore r e c = { r with children := l ++ { e with c := c } :: m } := by
  have keep : ∀ es : List ChildEntry, (∀ e' ∈ es, e'.address ≠ e.address) →
      (es.map fun e' => if e'.address = e.address then { e' with c := c } else e') = es := fun es others => by
    refine (List.map_congr_left fun e' member => ?_).trans (List.map_id es)
    rw [if_neg (others e' member)]
    rfl
  rw [registryStore, same, List.map_append, List.map_cons, if_pos rfl,
    keep l fun e' member => others e' (List.mem_append_left _ member),
    keep m fun e' member => others e' (List.mem_append_right _ member)]

theorem Lore.Confined.among {es : List ChildEntry} (confined : lore.Confined l lore')
    (same : ∀ e ∈ l, ∃ e' ∈ es, e'.c.job = e.c.job) : lore.Confined es lore' := by
  obtain ⟨new, births, inside⟩ := confined.births
  refine ⟨⟨new, births, fun b member => (inside b member).imp id ?_⟩, confined.dead⟩
  rintro ⟨e, there, j, job, has, found, number⟩
  obtain ⟨e', there', same'⟩ := same e there
  exact ⟨e', there', j, job, same'.trans has, found, number⟩

/-- A child that is looked after on its own, beside the registry. -/
structure ProcChildren.Beside (r : ProcChildren) (e : ChildEntry) (F : Multiset Asset) (ts : List (Task Asset))
    (lore lore' : Lore) (y : LaunchWorld) : Prop where
  has : Has (e.c.held + ({.block e.address} + (heldBy r.children + (heldBy r.left + F))))
    (e.c.tasks e.address ++ (tasksOf r.children ++ (tasksOf r.left ++ ts))) lore' y
  own : e.c.Tracked
  tracked : ∀ e ∈ r.children ++ r.left, e.c.Tracked
  confined : lore.Confined (e :: r.children) lore'
  counted : ∀ e' ∈ e :: r.children, e'.number ≤ r.counter
  numbered : ((e :: r.children).map ChildEntry.number).Nodup
  kept : Kept ts F
  root : .job r.root ∈ F

theorem ProcChildren.Keeps.take (keeps : r.Keeps F ts lore lore' y) (same : r.children = l ++ e :: m) :
    ({ r with children := l ++ m } : ProcChildren).Beside e F ts lore lore' y := by
  have order : heldBy r.children + (heldBy r.left + F) =
      e.c.held + ({.block e.address} + (heldBy (l ++ m) + (heldBy r.left + F))) := by
    rw [same, heldBy_append, heldBy_append, heldBy, ChildEntry.held]
    abel
  have there : ∀ e', e' ∈ e :: (l ++ m) ↔ e' ∈ r.children := fun e' => by
    rw [same]
    simp only [List.mem_cons, List.mem_append]
    tauto
  refine ⟨(keeps.has.swap order).among fun t => ?_, keeps.tracked e ?_, fun e' member => keeps.tracked e' ?_,
    keeps.confined.among fun e' member => ⟨e', (there e').mpr member, rfl⟩,
    fun e' member => keeps.counted e' ((there e').mp member), ?_, keeps.kept, keeps.root⟩
  · simp only [same, tasksOf_append, tasksOf, List.mem_append]
    tauto
  · exact List.mem_append_left _ ((there e).mp List.mem_cons_self)
  · rcases List.mem_append.mp member with child | left
    · exact List.mem_append_left _ ((there e').mp (List.mem_cons_of_mem _ child))
    · exact List.mem_append_right _ left
  · have numbered := keeps.numbered
    rw [same] at numbered
    exact (List.perm_middle.map _).nodup_iff.mp numbered

namespace ProcChildren.Beside

theorem put (beside : r.Beside e F ts lore lore' y) (same : r.children = l ++ m) :
    ({ r with children := l ++ e :: m } : ProcChildren).Keeps F ts lore lore' y := by
  have order : e.c.held + ({.block e.address} + (heldBy r.children + (heldBy r.left + F))) =
      heldBy (l ++ e :: m) + (heldBy r.left + F) := by
    rw [same, heldBy_append, heldBy_append, heldBy, ChildEntry.held]
    abel
  have there : ∀ e', e' ∈ e :: r.children ↔ e' ∈ l ++ e :: m := fun e' => by
    rw [same]
    simp only [List.mem_cons, List.mem_append]
    tauto
  refine ⟨(beside.has.swap order).among fun t => ?_, fun e' member => ?_,
    beside.confined.among fun e' member => ⟨e', (there e').mp member, rfl⟩,
    fun e' member => beside.counted e' ((there e').mpr member), ?_, beside.kept, beside.root⟩
  · simp only [same, tasksOf_append, tasksOf, List.mem_append]
    tauto
  · rcases List.mem_append.mp member with child | left
    · rcases List.mem_cons.mp ((there e').mpr child) with rfl | other
      · exact beside.own
      · exact beside.tracked e' (List.mem_append_left _ other)
    · exact beside.tracked e' (List.mem_append_right _ left)
  · have numbered := beside.numbered
    rw [same] at numbered
    exact (List.perm_middle.map _).nodup_iff.mpr numbered

/-- What the threads of the others work with is not the child's. -/
theorem others (beside : r.Beside e F ts lore lore' y) :
    Kept (tasksOf r.children ++ (tasksOf r.left ++ ts)) (heldBy r.children + (heldBy r.left + F)) := by
  have children := tasksOf_kept fun e' member => beside.tracked e' (List.mem_append_left _ member)
  have left := tasksOf_kept fun e' member => beside.tracked e' (List.mem_append_right _ member)
  refine Kept.append (children.within (Multiset.le_add_right _ _)) (Kept.append ?_ ((beside.kept.add _).add _))
  exact (left.within (Multiset.le_add_right _ _)).add _

/-- A child whose record has changed, and nothing else of it. -/
theorem change {c : ChildRecord} (beside : r.Beside e F ts lore lore' x) (own : c.Tracked) (job : c.job = e.c.job)
    (births : lore''.births = lore'.births) (dead : ∀ n ∈ lore'.dead, n ∈ lore''.dead)
    (jobs : lore''.jobs = lore'.jobs)
    (has : Has (c.held + ({.block e.address} + (heldBy r.children + (heldBy r.left + F))))
      (c.tasks e.address ++ (tasksOf r.children ++ (tasksOf r.left ++ ts))) lore'' y) :
    r.Beside { e with c := c } F ts lore lore'' y := by
  refine ⟨has, own, beside.tracked, (beside.confined.later births dead jobs).among fun e' member => ?_,
    fun e' member => ?_,
    beside.numbered, beside.kept, beside.root⟩
  · rcases List.mem_cons.mp member with rfl | other
    · exact ⟨_, List.mem_cons_self, job⟩
    · exact ⟨e', List.mem_cons_of_mem _ other, rfl⟩
  · rcases List.mem_cons.mp member with rfl | other
    · exact beside.counted e List.mem_cons_self
    · exact beside.counted e' (List.mem_cons_of_mem _ other)

end ProcChildren.Beside

/-- What a command leaves of a registry. -/
def RegistryKept (r : ProcChildren) (F : Multiset Asset) (ts : List (Task Asset)) (lore : Lore) (r' : ProcChildren)
    (y : LaunchWorld) : Prop := r'.root = r.root ∧ ∃ lore', r'.Keeps F ts lore lore' y

theorem childRelease_runs {flags : ThreadFlags} (beside : r.Beside e F ts lore lore' x) :
    Runs (childRelease r e flags) (fun r' y => r'.children = r.children ∧ RegistryKept r F ts lore r' y) x := by
  refine Safely.andThen (freeChild_runs beside.has beside.own beside.others) fun left y done => ?_
  obtain ⟨lore'', closes, done⟩ := done
  have confined : lore.Confined r.children lore'' := Lore.Confined.closes (l := []) beside.confined closes
  have counted : ∀ e' ∈ r.children, e'.number ≤ r.counter :=
    fun e' member => beside.counted e' (List.mem_cons_of_mem _ member)
  have numbered := (List.nodup_cons.mp beside.numbered).2
  cases left with
  | none =>
    exact Safely.done done (Kernel.Knows.stable lore'') fun y later =>
      ⟨rfl, rfl, lore'', later, beside.tracked, confined, counted, numbered, beside.kept, beside.root⟩
  | some c =>
    obtain ⟨rfl, has⟩ := done
    refine Safely.done has (Kernel.Knows.stable lore'') fun y later =>
      ⟨rfl, rfl, lore'', ?_, fun e' member => ?_, confined, counted, numbered, beside.kept, beside.root⟩
    · have order : e.c.held + ({.block e.address} + (heldBy r.children + (heldBy r.left + F))) =
          heldBy r.children + (heldBy (e :: r.left) + F) := by
        rw [heldBy, ChildEntry.held]
        abel
      refine (Has.swap later order).among fun t => ?_
      simp only [tasksOf, List.mem_append]
      tauto
    · rcases List.mem_append.mp member with child | left
      · exact beside.tracked e' (List.mem_append_left _ child)
      · rcases List.mem_cons.mp left with rfl | left
        · exact beside.own
        · exact beside.tracked e' (List.mem_append_right _ left)

end

end Machteld
