import Machteld.Except
import Machteld.Pmap.State

namespace Machteld

/-- An error of the pool. -/
def PoolOwn (e : TclError) : Prop :=
  ∃ code ∈ [ascii "badvalue", ascii "launch", ascii "timeout", ascii "usage"],
    e.errorcode = [ascii "MACHTELD", ascii "POOL", code]

/-- An error of `pmap` itself. -/
def PmapOwn (e : TclError) : Prop :=
  ∃ code ∈ [ascii "badvalue", ascii "failed", ascii "launch", ascii "timeout", ascii "usage"],
    e.errorcode = [ascii "MACHTELD", ascii "PMAP", code]

/-- `pmap` gives the pool's errors its own name. -/
theorem PoolOwn.restated {e : TclError} (own : PoolOwn e) : PmapOwn (pmapRestate e) := by
  obtain ⟨code, member, same⟩ := own
  have restated : pmapRestate e = ⟨e.message, [ascii "MACHTELD", ascii "PMAP", code]⟩ := by
    unfold pmapRestate
    rw [same]
    exact if_pos ⟨rfl, rfl⟩
  rw [restated]
  exact ⟨code, List.cons_subset_cons _ (List.subset_cons_self _ _) member, rfl⟩

/-- A duration that is refused is refused in the domain of the caller. -/
theorem dur2ms_error {domain : String} {d : Bytes} {e : TclError} (failed : dur2ms domain d = .error e) :
    e.errorcode = [ascii "MACHTELD", ascii domain, ascii "badvalue"] := by
  unfold dur2ms at failed
  simp only at failed
  split at failed
  · rw [← Except.error.inj failed]
    rfl
  · split_ifs at failed
    all_goals
      rw [← Except.error.inj failed]
      rfl

theorem poolFail_own {code : String}
    (known : ascii code ∈ [ascii "badvalue", ascii "launch", ascii "timeout", ascii "usage"])
    (message : Bytes) : PoolOwn (poolFail code message) :=
  ⟨ascii code, known, rfl⟩

theorem pmapFail_own {code : String}
    (known : ascii code ∈ [ascii "badvalue", ascii "failed", ascii "launch", ascii "timeout", ascii "usage"])
    (message : Bytes) : PmapOwn (pmapFail code message) :=
  ⟨ascii code, known, rfl⟩

section

variable {yy : Yyjson} {tcl : Tcl} {ops : TclOps}

/-- Every error of the options is the pool's own. -/
theorem poolOptions_error {argl : List Bytes} {o : PoolOptions} {e : TclError}
    (failed : poolOptions ops argl o = .error e) : PoolOwn e := by
  fun_induction poolOptions ops argl o with
  | case1 o => cases failed
  | case2 rest o => cases failed
  | case3 a rest o _ _ => cases failed
  | case4 a o _ _ =>
    rw [← Except.error.inj failed]
    exact poolFail_own (by decide) _
  | case5 =>
    rw [← Except.error.inj failed]
    exact poolFail_own (by decide) _
  | case6 _ _ _ _ _ _ _ ih => exact ih failed
  | case7 =>
    rw [← Except.error.inj failed]
    exact poolFail_own (by decide) _
  | case8 _ _ _ _ _ _ _ _ _ ih => exact ih failed
  | case9 =>
    rw [← Except.error.inj failed]
    exact poolFail_own (by decide) _
  | case10 _ _ _ _ _ _ _ _ _ ih => exact ih failed
  | case11 =>
    rw [← Except.error.inj failed]
    exact poolFail_own (by decide) _

/-- Every error of starting workers is the pool's own. -/
theorem poolSpawns_error {spawns : List (Option Bytes)} {s : Pool} {e : TclError}
    (failed : poolSpawns spawns s = .error e) : PoolOwn e := by
  induction spawns generalizing s with
  | nil => cases failed
  | cons spawn spawns ih =>
    cases spawn with
    | some message =>
      rw [← Except.error.inj failed]
      exact poolFail_own (by decide) _
    | none => exact ih (s := { s with workers := s.workers ++ [s.children], children := s.children + 1 }) failed

theorem poolCreateWords_error {children : Child} {launches : Nat → Option Bytes} {argl : List Bytes} {e : TclError}
    (failed : poolCreateWords ops children launches argl = .error e) : PoolOwn e := by
  obtain early | ⟨⟨o, cmd⟩, _, later⟩ := Except.bind_error failed
  · exact poolOptions_error early
  · simp only at later
    split_ifs at later
    · rw [← Except.error.inj later]
      exact poolFail_own (by decide) _
    · exact poolSpawns_error later

/-- Every error of admitting an item is the pool's own. -/
theorem poolAdmit_error {it : Obj} {e : TclError} (failed : poolAdmit yy tcl it = .error e) : PoolOwn e := by
  unfold poolAdmit at failed
  split at failed
  · rw [← Except.error.inj failed]
    exact poolFail_own (by decide) _
  · split_ifs at failed
    · rw [← Except.error.inj failed]
      exact poolFail_own (by decide) _
    · split at failed
      · rw [← Except.error.inj failed]
        exact poolFail_own (by decide) _
      · cases failed

theorem poolItems_error {next : Nat} {items : List Obj} {e : TclError}
    (failed : poolItems yy tcl next items = .error e) : PoolOwn e := by
  induction items generalizing next with
  | nil => cases failed
  | cons it items ih =>
    obtain refused | ⟨entries, _, later⟩ := Except.bind_error failed
    · exact poolAdmit_error refused
    · exact ih (Except.map_error later)

/-- Every error of submitting a list is the pool's own. -/
theorem poolSubmit_error {s : Pool} {items : Obj} {its : List Obj}
    {failures : Child → List (Option Bytes)} {e : TclError}
    (read : listElements tcl items = .ok its) (failed : poolSubmit yy tcl s items failures = .error e) :
    PoolOwn e := by
  unfold poolSubmit at failed
  split_ifs at failed
  · rw [← Except.error.inj failed]
    exact poolFail_own (by decide) _
  · rw [read] at failed
    exact poolItems_error (Except.map_error failed)

/-- Every error of waiting is the pool's own. -/
theorem poolWait_error {s : Pool} {woken : Woken} {e : TclError} (failed : poolWait yy tcl s woken = .error e) :
    PoolOwn e := by
  unfold poolWait at failed
  split_ifs at failed
  · rw [← Except.error.inj failed]
    exact poolFail_own (by decide) _
  · cases woken with
    | timeout s =>
      rw [← Except.error.inj failed]
      exact poolFail_own (by decide) _
    | done s =>
      simp only at failed
      split_ifs at failed
      rw [← Except.error.inj failed]
      exact poolFail_own (by decide) _

/-- Every error of the options is `pmap`'s own. -/
theorem pmapOptions_error {argl : List Bytes} {o : PmapOptions} {e : TclError}
    (failed : pmapOptions argl o = .error e) : PmapOwn e := by
  fun_induction pmapOptions argl o with
  | case1 => cases failed
  | case2 => cases failed
  | case3 => cases failed
  | case4 _ _ _ _ ih => exact ih failed
  | case5 =>
    rw [← Except.error.inj failed]
    exact pmapFail_own (by decide) _
  | case6 _ _ _ _ _ _ ih => exact ih failed
  | case7 _ _ _ _ _ _ _ ih => exact ih failed
  | case8 _ _ _ _ _ _ _ _ ih =>
    obtain early | ⟨ms, _, later⟩ := Except.bind_error failed
    · exact ⟨ascii "badvalue", by decide, dur2ms_error early⟩
    · exact ih ms later
  | case9 =>
    rw [← Except.error.inj failed]
    exact pmapFail_own (by decide) _

end

end Machteld
