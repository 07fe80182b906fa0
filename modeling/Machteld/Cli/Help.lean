import Machteld.Cli.Parsed

namespace Machteld

/-- An entry without its `required`. -/
def CliEntry.waived (e : CliEntry) : CliEntry := { e with attrs := dictRemove (ascii "required") e.attrs }

variable {tcl : TclReads} {norm : List CliEntry} {argv : List Bytes} {uses : List CliUse}
  {res : CliDict} {e : CliEntry}

theorem attr_waived {name : String} (other : ascii "required" ≠ ascii name) : e.waived.attr name = e.attr name := by
  unfold CliEntry.attr
  exact (dictGet_dictRemove ..).trans (if_neg other)

/-- Whether an entry is required does not show in its checks. -/
theorem cliCheck_waived {v : Bytes} {code : String} : cliCheck tcl e.waived v code = cliCheck tcl e v code := by
  have bound : ∀ (name : String) (outside : Bytes → Bool) (words : Bytes), ascii "required" ≠ ascii name →
      cliBound e.waived name outside code words v = cliBound e name outside code words v := by
    intro name outside words other
    unfold cliBound
    rw [attr_waived other]
    rfl
  have typed : cliTyped tcl e.waived v code = cliTyped tcl e v code := by
    unfold cliTyped
    rw [bound _ _ _ (by decide), bound _ _ _ (by decide)]
    rfl
  have chosen : cliChosen tcl e.waived v code = cliChosen tcl e v code := by
    unfold cliChosen
    rw [attr_waived (by decide)]
    rfl
  rw [cliCheck, cliCheck, typed, chosen]

theorem cliDefault_waived : cliDefault e.waived = cliDefault e := by
  unfold cliDefault
  rw [attr_waived (by decide)]
  rfl

theorem cliFound_waived {a : Bytes} :
    cliFound (norm.map CliEntry.waived) a = (cliFound norm a).map CliEntry.waived := by
  unfold cliFound
  rw [List.find?_map]
  rfl

theorem cliPositionals_waived :
    cliPositionals (norm.map CliEntry.waived) = (cliPositionals norm).map CliEntry.waived := by
  unfold cliPositionals
  rw [List.filter_map]
  rfl

theorem cliStart_waived : cliStart (norm.map CliEntry.waived) = cliStart norm := by
  have same : (fun e : CliEntry => (e.key, cliDefault e)) ∘ CliEntry.waived = fun e => (e.key, cliDefault e) := by
    funext e
    exact Prod.ext rfl cliDefault_waived
  unfold cliStart
  rw [List.map_map, same]

/-- Whether entries are required does not show in the scan. -/
theorem cliScan_waived {s : CliScan} : cliScan tcl (norm.map CliEntry.waived) argv s = cliScan tcl norm argv s := by
  fun_induction cliScan tcl norm argv s with
  | case1 s => rfl
  | case2 a argv s plain ih => rw [cliScan, if_pos plain, ih]
  | case3 argv s plain ih => rw [cliScan, if_neg plain, if_pos rfl, ih]
  | case4 argv s plain differs ih => rw [cliScan, if_neg plain, if_neg differs, if_pos rfl, ih]
  | case5 a argv s plain differs other found =>
    rw [cliScan.eq_def]
    simp only [if_neg plain, if_neg differs, if_neg other, cliFound_waived, found, Option.map_none]
  | case6 a argv s plain differs other e found flag ih =>
    rw [cliScan.eq_def]
    simp only [if_neg plain, if_neg differs, if_neg other, cliFound_waived, found, Option.map_some]
    rw [if_pos (show isFlag e.waived = true from flag)]
    exact ih
  | case7 a s plain differs other e found takes =>
    rw [cliScan.eq_def]
    simp only [if_neg plain, if_neg differs, if_neg other, cliFound_waived, found, Option.map_some]
    rw [if_neg (show ¬ isFlag e.waived = true from takes)]
    rfl
  | case8 a s plain differs other e found takes nxt argv bad =>
    rw [cliScan.eq_def]
    simp only [if_neg plain, if_neg differs, if_neg other, cliFound_waived, found, Option.map_some, if_pos bad]
    rw [if_neg (show ¬ isFlag e.waived = true from takes)]
    rfl
  | case9 a s plain differs other e found takes nxt argv good ih =>
    rw [cliScan.eq_def]
    simp only [if_neg plain, if_neg differs, if_neg other, cliFound_waived, found, Option.map_some, if_neg good,
      cliCheck_waived]
    rw [if_neg (show ¬ isFlag e.waived = true from takes)]
    exact congrArg _ (funext ih)

theorem cliAssign_waived {ps : List CliEntry} {rest : List Bytes} :
    cliAssign tcl true (ps.map CliEntry.waived) rest res = cliAssign tcl true ps rest res := by
  induction ps generalizing rest res with
  | nil => rfl
  | cons e ps ih =>
    cases rest with
    | nil => exact ih
    | cons w rest =>
      rw [List.map_cons, cliAssign, cliAssign, cliCheck_waived]
      exact congrArg _ (funext fun v => ih)

/-- The flag waives what is required. -/
theorem CliReads.waived (normed : CliNormed tcl norm) (reads : CliReads norm false argv uses)
    (asked : uses.contains .help = true) :
    cliParse tcl argv (norm.map CliEntry.waived) = cliParse tcl argv norm := by
  unfold cliParse
  rw [cliStart_waived, cliScan_waived]
  cases scan : cliScan tcl norm argv ⟨cliStart norm, [], false, []⟩ with
  | error err => rfl
  | ok s =>
    obtain ⟨uses', reads', scanned⟩ := cliScan_reads normed scan
    obtain rfl := reads.unique normed reads'
    have wanted : (dictGet (ascii "help") s.res == some (ascii "1")) = true := by
      rw [scanned.res, help_wanted normed reads, cliHelp, if_pos asked]
      rfl
    change cliFinish tcl (norm.map CliEntry.waived) s = cliFinish tcl norm s
    unfold cliFinish
    rw [wanted, cliPositionals_waived]
    dsimp only
    rw [cliAssign_waived]
    rfl

/-- What the flag stands for: it has its own value in the result, and waives
what is required where it is there and only there. -/
structure CliHelpFlag (tcl : TclReads) (norm : List CliEntry) (argv : List Bytes) (uses : List CliUse)
    (res : CliDict) : Prop where
  value : dictGet (ascii "help") res = some (cliHelp uses)
  waived : uses.contains .help = true → cliParse tcl argv (norm.map CliEntry.waived) = cliParse tcl argv norm
  enforced : uses.contains .help = false → ∀ e ∈ norm, cliRequired tcl e = true →
    (∃ w, CliTaken norm argv uses e w) ∨ uses.contains (.name e) ∨ e.kind = .option ∧ (e.attr "default").isSome

/-- No word is supplied for a positional that lands on the key of the flag,
unless it is the value of the flag. -/
def CliHelpFree (norm : List CliEntry) (argv : List Bytes) (uses : List CliUse) : Prop :=
  ∀ (k : Nat) (e : CliEntry) (w : Bytes), (cliPositionals norm)[k]? = some e → e.key = ascii "help" →
    (cliWords argv uses)[k]? = some w → w = cliHelp uses

/-- The flag stays where no positional entry is named so. -/
theorem CliFinished.help (normed : CliNormed tcl norm) (finished : CliFinished tcl norm argv uses res) :
    dictGet (ascii "help") res = some (cliHelp uses) ↔ CliHelpFree norm argv uses := by
  constructor
  · intro value k e w at' help word
    have own := finished.positional normed at'
    rw [word, help, value] at own
    exact (Option.some.inj own).symm
  · intro free
    by_cases declared : ∃ e ∈ cliPositionals norm, e.key = ascii "help"
    · obtain ⟨e, member, help⟩ := declared
      obtain ⟨k, at'⟩ := List.mem_iff_getElem?.mp member
      have own := finished.positional normed at'
      rw [help, if_pos rfl] at own
      rw [own]
      cases word : (cliWords argv uses)[k]? with
      | none => rfl
      | some w => exact congrArg some (free k e w at' help word)
    · have absent : ascii "help" ∉ (((cliPositionals norm).zip (cliWords argv uses)).map fun p =>
        (p.1.key, p.2)).map Prod.fst := by
        intro bad
        obtain ⟨e, member, kind, same⟩ := assigned_keys bad
        exact declared ⟨e, List.mem_filter.mpr ⟨member, beq_iff_eq.mpr kind⟩, same⟩
      rw [finished.res, dictGet_dictPuts, dictValues_absent absent, help_wanted normed finished.reads]
      rfl

/-- The flag is reserved, but for a word that is supplied to a positional
`help`. -/
theorem cliParse_help_iff (expr : tcl.ExprSpec) {spec : Bytes} (accepted : cliNorm tcl spec = .ok norm)
    (passed : cliParse tcl argv norm = .ok res) :
    ∃ uses, CliReads norm false argv uses ∧ (∀ uses', CliReads norm false argv uses' → uses' = uses) ∧
      (CliHelpFlag tcl norm argv uses res ↔ CliHelpFree norm argv uses) := by
  have normed := cliNorm_normed expr accepted
  obtain ⟨uses, finished⟩ := cliParse_finished normed passed
  refine ⟨uses, finished.reads, fun _ other => finished.reads.unique normed other,
    fun flag => (finished.help normed).mp flag.value,
    fun free => ⟨(finished.help normed).mpr free, fun asked => finished.reads.waived normed asked,
      fun unasked e => ?_⟩⟩
  exact finished.required normed unasked

theorem cliParse_help_sample : ∃ uses, CliReads numberNorm false [ascii "--help", ascii "--n", ascii "3"] uses ∧
    (∀ uses', CliReads numberNorm false [ascii "--help", ascii "--n", ascii "3"] uses' → uses' = uses) ∧
    (CliHelpFlag plainTcl numberNorm [ascii "--help", ascii "--n", ascii "3"] uses [(ascii "n", ascii "3"),
      (ascii "help", ascii "1")] ↔
      CliHelpFree numberNorm [ascii "--help", ascii "--n", ascii "3"] uses) :=
  @cliParse_help_iff plainTcl numberNorm _ _ plainTcl_expr (ascii "--n {type int}") rfl rfl

/-- A word for a positional `help` takes the place of the flag. -/
theorem cliParse_help_word : cliNorm plainTcl (ascii "help {default x}") = .ok helpNorm ∧
    cliParse plainTcl [ascii "me"] helpNorm = .ok [(ascii "help", ascii "me")] ∧
      ¬ ∃ uses, CliReads helpNorm false [ascii "me"] uses ∧
        CliHelpFlag plainTcl helpNorm [ascii "me"] uses [(ascii "help", ascii "me")] := by
  refine ⟨rfl, rfl, ?_⟩
  rintro ⟨uses, -, flag⟩
  have value := flag.value
  unfold cliHelp at value
  split_ifs at value with asked
  · exact absurd value (by decide)
  · exact absurd value (by decide)

end Machteld
