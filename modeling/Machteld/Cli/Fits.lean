import Machteld.Cli.Norm

namespace Machteld

variable {tcl : TclReads} {e : CliEntry} {v w : Bytes} {code : String}

theorem cliRefuse_ok {bad : Bool} {message : Bytes} {u : Unit} :
    cliRefuse bad code message = .ok u ↔ bad = false := by
  cases bad with
  | false => exact ⟨fun _ => rfl, fun _ => rfl⟩
  | true => exact ⟨fun passed => absurd passed Except.error_ne_ok, Bool.noConfusion⟩

/-- A test that stands before the rest of a procedure. -/
theorem check_bind_ok {α : Type} {x : Except TclError Unit} {f : Unit → Except TclError α} {a : α} :
    (x >>= f) = .ok a ↔ x = .ok () ∧ f () = .ok a := by
  cases x with
  | error e => exact ⟨fun passed => absurd passed Except.error_ne_ok, fun both => absurd both.1 Except.error_ne_ok⟩
  | ok u => exact ⟨fun same => ⟨rfl, same⟩, fun both => both.2⟩

/-- What a value must meet for its entry: the type, the range and the
choices. -/
structure CliFits (tcl : TclReads) (e : CliEntry) (v : Bytes) : Prop where
  boolean : e.type = ascii "flag" → (tcl.boolean v).isSome
  integer : e.type = ascii "int" → (tcl.integer v).isSome
  least : e.type = ascii "int" → ∀ low ∈ e.attr "min", ∀ m ∈ tcl.integer low, ∀ n ∈ tcl.integer v, m ≤ n
  most : e.type = ascii "int" → ∀ high ∈ e.attr "max", ∀ m ∈ tcl.integer high, ∀ n ∈ tcl.integer v, n ≤ m
  chosen : ∀ ch ∈ e.attr "choices", ∀ choices, tcl.listOf ch = .ok choices → v ∈ choices

/-- The choices of an entry can be read, as `CliNorm` has seen to. -/
def CliListed (tcl : TclReads) (e : CliEntry) : Prop :=
  ∀ ch ∈ e.attr "choices", ∃ choices, tcl.listOf ch = .ok choices

/-- A bound is broken only where both are integers and the value is on its
wrong side. -/
theorem less_false_iff {a b : Bytes} : tcl.less a b = false ↔ ∀ m ∈ tcl.integer b, ∀ n ∈ tcl.integer a, m ≤ n := by
  unfold TclReads.less
  cases tcl.integer a with
  | none => simp
  | some n =>
    cases tcl.integer b with
    | none => simp
    | some m => simp

theorem cliBound_ok {bound : String} {outside : Bytes → Bool} {words : Bytes} {u : Unit} :
    cliBound e bound outside code words v = .ok u ↔ ∀ end' ∈ e.attr bound, outside end' = false := by
  unfold cliBound
  cases e.attr bound with
  | none => simp
  | some end' => simp [cliRefuse_ok]

/-- A value that passes fits its entry's type and bounds. A bound that is no
integer bounds nothing. -/
theorem cliTyped_ok {u : Unit} : cliTyped tcl e v code = .ok u ↔
    (e.type = ascii "flag" → (tcl.boolean v).isSome) ∧ (e.type = ascii "int" → (tcl.integer v).isSome) ∧
      (e.type = ascii "int" → ∀ low ∈ e.attr "min", ∀ m ∈ tcl.integer low, ∀ n ∈ tcl.integer v, m ≤ n) ∧
      (e.type = ascii "int" → ∀ high ∈ e.attr "max", ∀ m ∈ tcl.integer high, ∀ n ∈ tcl.integer v, n ≤ m) := by
  have apart : ascii "flag" ≠ ascii "int" := by decide
  unfold cliTyped isFlag isInt
  by_cases flag : e.type = ascii "flag"
  · have other : ¬ e.type = ascii "int" := fun same => apart (flag.symm.trans same)
    simp only [beq_iff_eq, flag, if_true, cliRefuse_ok, Option.isNone_eq_false_iff, forall_const, apart,
      false_imp_iff, and_true]
  · by_cases int : e.type = ascii "int"
    · simp only [beq_iff_eq, int, apart.symm, if_false, if_true, check_bind_ok, cliRefuse_ok,
        cliBound_ok, less_false_iff,
        Option.isNone_eq_false_iff, forall_const, false_imp_iff, true_and]
      exact and_congr_right fun _ => and_congr_right fun _ => forall₂_congr fun high _ => forall₂_comm
    · simp [flag, int]

/-- A value that passes is one of the choices, where there are some. -/
theorem cliChosen_ok {u : Unit} (listed : CliListed tcl e) : cliChosen tcl e v code = .ok u ↔
    ∀ ch ∈ e.attr "choices", ∀ choices, tcl.listOf ch = .ok choices → v ∈ choices := by
  unfold cliChosen
  cases given : e.attr "choices" with
  | none => simp
  | some ch =>
    obtain ⟨choices, read⟩ := listed ch given
    simp only [read, Option.mem_def, Option.some.injEq, forall_eq', Except.ok.injEq]
    change cliRefuse _ _ _ = _ ↔ _
    rw [cliRefuse_ok, Bool.not_eq_false', List.contains_iff_mem]

/-- A value that passes the checks fits its entry and is kept as it is. -/
theorem cliCheck_ok (listed : CliListed tcl e) : cliCheck tcl e v code = .ok w ↔ CliFits tcl e v ∧ w = v := by
  unfold cliCheck
  rw [check_bind_ok, check_bind_ok, cliTyped_ok, cliChosen_ok listed]
  constructor
  · rintro ⟨⟨boolean, integer, least, most⟩, chosen, same⟩
    exact ⟨⟨boolean, integer, least, most, chosen⟩, (Except.ok.inj same).symm⟩
  · rintro ⟨⟨boolean, integer, least, most, chosen⟩, rfl⟩
    exact ⟨⟨boolean, integer, least, most⟩, chosen, rfl⟩

/-- An error of the command's own, with some message. -/
def CliRaises (code : String) (err : TclError) : Prop := ∃ message, err = tclFail "CLI" code message

theorem cliRefuse_raises {bad : Bool} {message : Bytes} {err : TclError}
    (failed : cliRefuse bad code message = .error err) :
    CliRaises code err := by
  cases bad with
  | false => cases failed
  | true => exact ⟨message, (Except.error.inj failed).symm⟩

theorem cliBound_raises {bound : String} {outside : Bytes → Bool} {words : Bytes} {err : TclError}
    (failed : cliBound e bound outside code words v = .error err) : CliRaises code err := by
  unfold cliBound at failed
  cases given : e.attr bound with
  | none =>
    rw [given] at failed
    cases failed
  | some end' =>
    rw [given] at failed
    exact cliRefuse_raises failed

theorem cliTyped_raises {err : TclError} (failed : cliTyped tcl e v code = .error err) : CliRaises code err := by
  unfold cliTyped at failed
  split at failed
  · exact cliRefuse_raises failed
  · split at failed
    · rcases Except.bind_error failed with first | ⟨_, -, failed⟩
      · exact cliRefuse_raises first
      rcases Except.bind_error failed with low | ⟨_, -, high⟩
      · exact cliBound_raises low
      · exact cliBound_raises high
    · cases failed

/-- A value that does not fit is refused in the words of the command. -/
theorem cliCheck_raises {err : TclError} (listed : CliListed tcl e) (failed : cliCheck tcl e v code = .error err) :
    CliRaises code err := by
  unfold cliCheck at failed
  rcases Except.bind_error failed with typed | ⟨_, -, failed⟩
  · exact cliTyped_raises typed
  rcases Except.bind_error failed with chosen | ⟨_, -, failed⟩
  · unfold cliChosen at chosen
    cases given : e.attr "choices" with
    | none =>
      rw [given] at chosen
      cases chosen
    | some ch =>
      obtain ⟨choices, read⟩ := listed ch given
      rw [given] at chosen
      simp only [read] at chosen
      exact cliRefuse_raises chosen
  · cases failed

/-- An entry that `CliNorm` lets pass. -/
structure CliEntry.Sound (tcl : TclReads) (e : CliEntry) : Prop where
  kind : e.kind = .option ↔ dashes <+: e.name
  key : tcl.exprOf e.declared = some e.key
  other : e.name ≠ ascii "--help"
  dashed : e.kind = .option → e.name ≠ dashes
  reserved : e.kind = .option → e.key ≠ ascii "help"
  takes : e.kind = .positional → e.type ≠ ascii "flag"
  listed : CliListed tcl e

/-- Only the word `help` is handed on as `help`. -/
theorem TclReads.ExprSpec.help (spec : tcl.ExprSpec) (handed : tcl.exprOf v = some (ascii "help")) :
    v = ascii "help" := by
  rcases spec.value v _ handed with same | digit | inf | negative
  · exact same.symm
  · exact absurd digit (by decide)
  · exact absurd inf (by decide)
  · exact absurd negative (by decide)

theorem cliChoices_listed {u : Unit} (passed : cliChoices tcl e = .ok u) : CliListed tcl e := by
  intro ch given
  unfold cliChoices at passed
  rw [Option.mem_def.mp given] at passed
  cases read : tcl.listOf ch with
  | error err =>
    simp only [read] at passed
    cases passed
  | ok choices => exact ⟨choices, rfl⟩

/-- An entry that is accepted is consistent, and its key is new. -/
theorem cliEntry_sound (spec : tcl.ExprSpec) {seen : List Bytes} {name attrs : Bytes}
    (passed : cliEntry tcl seen name attrs = .ok e) : e.Sound tcl ∧ e.key ∉ seen := by
  obtain ⟨d, -, passed⟩ := Except.bind_ok.mp passed
  obtain ⟨-, passed⟩ := check_bind_ok.mp passed
  obtain ⟨type, -, passed⟩ := Except.bind_ok.mp passed
  simp only [check_bind_ok, cliRefuse_ok] at passed
  obtain ⟨-, other, flag, passed⟩ := passed
  obtain ⟨key, handed, passed⟩ := Except.bind_ok.mp passed
  simp only [check_bind_ok, cliRefuse_ok] at passed
  obtain ⟨keyed, unseen, -, -, choices, -, same⟩ := passed
  cases Except.ok.inj same
  rw [TclReads.expr, exprResult_ok] at handed
  have other : name ≠ ascii "--help" := by simpa using other
  refine ⟨⟨?_, handed, other, fun option bare => ?_, fun option help => ?_, ?_, cliChoices_listed choices⟩,
    by simpa using unseen⟩
  · simp only [List.isPrefixOf_iff_prefix]
    split_ifs with front
    · exact iff_of_true rfl front
    · exact iff_of_false not_false front
  · -- the bare dashes declare the empty key
    rw [if_pos option, show name.drop 2 = [] by rw [show name = dashes from bare]; rfl, spec.empty] at handed
    rw [← Option.some.inj handed] at keyed
    cases keyed
  · change key = ascii "help" at help
    subst help
    rw [if_pos option] at handed
    have front : dashes.isPrefixOf name = true := by
      by_contra plain
      rw [if_neg plain] at option
      cases option
    obtain ⟨tail, rfl⟩ := List.isPrefixOf_iff_prefix.mp front
    exact other (congrArg (dashes ++ ·) (spec.help handed))
  · intro positional type
    rcases Bool.and_eq_false_iff.mp flag with kind | text
    · exact beq_eq_false_iff_ne.mp kind positional
    · exact beq_eq_false_iff_ne.mp text type

/-- A spec that `CliNorm` accepts. -/
structure CliNormed (tcl : TclReads) (norm : List CliEntry) : Prop where
  sound : ∀ e ∈ norm, e.Sound tcl
  apart : (norm.map CliEntry.key).Nodup

/-- The entries of a specification have different keys and names, and each
of them is consistent. The induction carries the keys seen so far. -/
theorem cliEntries_normed (expr : tcl.ExprSpec) {seen : List Bytes} {spec : List (Bytes × Bytes)}
    {norm : List CliEntry}
    (passed : cliEntries tcl seen spec = .ok norm) : CliNormed tcl norm ∧ ∀ e ∈ norm, e.key ∉ seen := by
  induction spec generalizing seen norm with
  | nil =>
    cases Except.ok.inj passed
    exact ⟨⟨List.forall_mem_nil _, List.nodup_nil⟩, List.forall_mem_nil _⟩
  | cons entry spec ih =>
    obtain ⟨name, attrs⟩ := entry
    obtain ⟨e, first, passed⟩ := Except.bind_ok.mp passed
    obtain ⟨es, rest, same⟩ := Except.bind_ok.mp passed
    cases Except.ok.inj same
    obtain ⟨sound, unseen⟩ := cliEntry_sound expr first
    obtain ⟨normed, later⟩ := ih rest
    refine ⟨⟨List.forall_mem_cons.mpr ⟨sound, normed.sound⟩, List.nodup_cons.mpr ⟨?_, normed.apart⟩⟩,
      List.forall_mem_cons.mpr ⟨unseen, fun e' member => List.not_mem_of_not_mem_cons (later e' member)⟩⟩
    intro member
    obtain ⟨e', inside, same⟩ := List.mem_map.mp member
    exact later e' inside (same ▸ List.mem_cons_self ..)

/-- A specification that is accepted is a normal one. -/
theorem cliNorm_normed (expr : tcl.ExprSpec) {spec : Bytes} {norm : List CliEntry}
    (passed : cliNorm tcl spec = .ok norm) :
    CliNormed tcl norm := by
  unfold cliNorm at passed
  split at passed
  · cases passed
  · obtain ⟨words, -, passed⟩ := Except.bind_ok.mp passed
    exact (cliEntries_normed expr (check_bind_ok.mp passed).2).1

end Machteld
