import Machteld.Cli.Parse

namespace Machteld

/-- What a word of the command line is. -/
inductive CliUse
  | positional
  | ends
  | help
  | name (e : CliEntry)
  | value (e : CliEntry)
deriving DecidableEq

/-- The one use of every word; the flag tells that options have ended. -/
inductive CliReads (norm : List CliEntry) : Bool → List Bytes → List CliUse → Prop
  | done {ended : Bool} : CliReads norm ended [] []
  | positional {ended : Bool} {a : Bytes} {argv : List Bytes} {uses : List CliUse}
    (plain : ended = true ∨ ¬ dashes <+: a)
    (later : CliReads norm ended argv uses) : CliReads norm ended (a :: argv) (.positional :: uses)
  | ends {argv : List Bytes} {uses : List CliUse} (later : CliReads norm true argv uses) :
    CliReads norm false (dashes :: argv) (.ends :: uses)
  | help {argv : List Bytes} {uses : List CliUse} (later : CliReads norm false argv uses) :
    CliReads norm false (ascii "--help" :: argv) (.help :: uses)
  | flag {e : CliEntry} {argv : List Bytes} {uses : List CliUse} (member : e ∈ norm) (option : e.kind = .option)
    (flag : isFlag e = true) (later : CliReads norm false argv uses) : CliReads norm false (e.name :: argv)
      (.name e :: uses)
  | value {e : CliEntry} {v : Bytes} {argv : List Bytes} {uses : List CliUse} (member : e ∈ norm)
    (option : e.kind = .option)
    (takes : isFlag e = false) (follows : dashes <+: v → v = dashes) (later : CliReads norm false argv uses) :
    CliReads norm false (e.name :: v :: argv) (.name e :: .value e :: uses)

/-- The positional words. -/
def cliWords (argv : List Bytes) (uses : List CliUse) : List Bytes :=
  (argv.zip uses).filterMap fun p => if p.2 = .positional then some p.1 else none

/-- The words that stand behind an option. -/
def cliValues (e : CliEntry) (argv : List Bytes) (uses : List CliUse) : List Bytes :=
  (argv.zip uses).filterMap fun p => if p.2 = .value e then some p.1 else none

/-- What the loop over the words puts in the result for a word. -/
def cliPut : Bytes × CliUse → Option (Bytes × Bytes)
  | (_, .help) => some (ascii "help", ascii "1")
  | (_, .name e) => if isFlag e then some (e.key, ascii "1") else none
  | (w, .value e) => some (e.key, w)
  | _ => none

def cliPuts (argv : List Bytes) (uses : List CliUse) : CliDict := (argv.zip uses).filterMap cliPut

/-- The keys that a word supplies. -/
def cliSupplied (uses : List CliUse) : List Bytes :=
  uses.filterMap fun use => match use with
    | .name e => some e.key
    | _ => none

variable {tcl : TclReads} {norm : List CliEntry} {argv : List Bytes} {uses : List CliUse}

theorem cliFound_some {a : Bytes} {e : CliEntry} (found : cliFound norm a = some e) :
    e ∈ norm ∧ e.kind = .option ∧ e.name = a := by
  have member := List.mem_of_find?_eq_some found
  have test := List.find?_some found
  simp only [Bool.and_eq_true, beq_iff_eq] at test
  exact ⟨member, test⟩

/-- What a scan that passes has made of its words. -/
structure CliScanned (tcl : TclReads) (argv : List Bytes) (uses : List CliUse) (s s' : CliScan) : Prop where
  res : s'.res = dictPuts (cliPuts argv uses) s.res
  rest : s'.rest = s.rest ++ cliWords argv uses
  supplied : s'.supplied = s.supplied ++ cliSupplied uses
  fits : ∀ w e, (w, .value e) ∈ argv.zip uses → CliFits tcl e w

theorem cliPuts_cons (a : Bytes) (use : CliUse) (argv : List Bytes) (uses : List CliUse) :
    cliPuts (a :: argv) (use :: uses) = cliPuts [a] [use] ++ cliPuts argv uses :=
  @List.filterMap_append _ _ [(a, use)] _ _

theorem cliWords_cons (a : Bytes) (use : CliUse) (argv : List Bytes) (uses : List CliUse) :
    cliWords (a :: argv) (use :: uses) = cliWords [a] [use] ++ cliWords argv uses :=
  @List.filterMap_append _ _ [(a, use)] _ _

theorem cliSupplied_cons (use : CliUse) (uses : List CliUse) :
    cliSupplied (use :: uses) = cliSupplied [use] ++ cliSupplied uses := @List.filterMap_append _ _ [use] _ _

theorem CliScanned.done (s : CliScan) : CliScanned tcl [] [] s s where
  res := rfl
  rest := (List.append_nil _).symm
  supplied := (List.append_nil _).symm
  fits _ _ bad := absurd bad List.not_mem_nil

/-- A word before the others. -/
theorem CliScanned.cons {a : Bytes} {use : CliUse} {s t s' : CliScan} (later : CliScanned tcl argv uses t s')
    (res : t.res = dictPuts (cliPuts [a] [use]) s.res) (rest : t.rest = s.rest ++ cliWords [a] [use])
    (supplied : t.supplied = s.supplied ++ cliSupplied [use]) (fits : ∀ e, use = .value e → CliFits tcl e a) :
    CliScanned tcl (a :: argv) (use :: uses) s s' where
  res := by rw [later.res, res, cliPuts_cons a use argv uses, dictPuts_append]
  rest := by rw [later.rest, rest, cliWords_cons a use argv uses, List.append_assoc]
  supplied := by rw [later.supplied, supplied, cliSupplied_cons use uses, List.append_assoc]
  fits w e member := by
    rcases List.mem_cons.mp member with same | inside
    · cases same
      exact fits e rfl
    · exact later.fits w e inside

theorem scan_open {s : CliScan} {a : Bytes} (plain : ¬ (s.endopts || !dashes.isPrefixOf a) = true) :
    s.endopts = false := by
  simp only [Bool.or_eq_true, not_or, Bool.not_eq_true] at plain
  exact plain.1

/-- The scan reads each word once, as a name, a value, the end of the
options or a positional one. The induction is on the words, with what was
stored so far. -/
theorem cliScan_reads (normed : CliNormed tcl norm) {s s' : CliScan} (passed : cliScan tcl norm argv s = .ok s') :
    ∃ uses, CliReads norm s.endopts argv uses ∧ CliScanned tcl argv uses s s' := by
  fun_induction cliScan tcl norm argv s with
  | case1 s =>
    obtain rfl := Except.ok.inj passed
    exact ⟨[], .done, .done _⟩
  | case2 a argv s plain ih =>
    obtain ⟨uses, reads, scanned⟩ := ih passed
    have plain : s.endopts = true ∨ ¬ dashes <+: a := by
      simpa only [Bool.or_eq_true, Bool.not_eq_true', ← Bool.not_eq_true, List.isPrefixOf_iff_prefix] using plain
    refine ⟨.positional :: uses, .positional plain reads,
      scanned.cons rfl rfl (List.append_nil _).symm fun _ bad => ?_⟩
    cases bad
  | case3 argv s plain ih =>
    obtain ⟨uses, reads, scanned⟩ := ih passed
    have open' := scan_open plain
    refine ⟨.ends :: uses, open' ▸ .ends reads, scanned.cons rfl (List.append_nil _).symm (List.append_nil _).symm
      fun _ bad => ?_⟩
    cases bad
  | case4 argv s plain differs ih =>
    obtain ⟨uses, reads, scanned⟩ := ih passed
    have open' := scan_open plain
    have reads : CliReads norm false argv uses := open' ▸ reads
    refine ⟨.help :: uses, open' ▸ .help reads, scanned.cons rfl (List.append_nil _).symm (List.append_nil _).symm
      fun _ bad => ?_⟩
    cases bad
  | case5 a argv s plain differs other found => cases passed
  | case6 a argv s plain differs other e found flag ih =>
    obtain ⟨uses, reads, scanned⟩ := ih passed
    have open' := scan_open plain
    have reads : CliReads norm false argv uses := open' ▸ reads
    obtain ⟨member, option, rfl⟩ := cliFound_some found
    have put : cliPuts [e.name] [.name e] = [(e.key, ascii "1")] := by simp [cliPuts, cliPut, flag]
    refine ⟨.name e :: uses, open' ▸ .flag member option flag reads,
      scanned.cons (put ▸ rfl) (List.append_nil _).symm rfl fun _ bad => ?_⟩
    cases bad
  | case7 a s plain differs other e found takes => cases passed
  | case8 a s plain differs other e found takes nxt argv bad => cases passed
  | case9 a s plain differs other e found takes nxt argv good ih =>
    obtain ⟨v, checked, went⟩ := Except.bind_ok.mp passed
    obtain ⟨member, option, rfl⟩ := cliFound_some found
    obtain ⟨fits, rfl⟩ := (cliCheck_ok (normed.sound e member).listed).mp checked
    obtain ⟨uses, reads, scanned⟩ := ih v went
    have open' := scan_open plain
    have reads : CliReads norm false argv uses := open' ▸ reads
    have follows : dashes <+: v → v = dashes := by
      simpa [List.isPrefixOf_iff_prefix] using good
    have takes : isFlag e = false := Bool.eq_false_iff.mpr takes
    have put : cliPuts [e.name] [.name e] = [] := by simp [cliPuts, cliPut, takes]
    let t : CliScan := { s with supplied := s.supplied ++ [e.key] }
    have behind : CliScanned tcl (v :: argv) (.value e :: uses) t _ :=
      scanned.cons rfl (List.append_nil _).symm (List.append_nil _).symm fun _ same => CliUse.value.inj same ▸ fits
    refine ⟨.name e :: .value e :: uses, open' ▸ .value member option takes follows reads,
      behind.cons (put ▸ rfl) (List.append_nil _).symm rfl fun _ bad => ?_⟩
    cases bad

theorem CliNormed.same (normed : CliNormed tcl norm) {e e' : CliEntry} (member : e ∈ norm) (member' : e' ∈ norm)
    (key : e.key = e'.key) : e = e' := List.inj_on_of_nodup_map normed.apart member member' key

/-- An option is told by its name. -/
theorem CliNormed.named (normed : CliNormed tcl norm) {e e' : CliEntry} (member : e ∈ norm) (member' : e' ∈ norm)
    (option : e.kind = .option) (option' : e'.kind = .option) (name : e.name = e'.name) : e = e' := by
  have declared : e.declared = e'.declared := by
    rw [CliEntry.declared, CliEntry.declared, if_pos option, if_pos option', name]
  refine normed.same member member' (Option.some.inj ?_)
  rw [← (normed.sound e member).key, ← (normed.sound e' member').key, declared]

/-- What a word is that stands where an option may. -/
def cliUse (norm : List CliEntry) (ended : Bool) (a : Bytes) : CliUse :=
  if ended || !dashes.isPrefixOf a then .positional
  else if a = dashes then .ends
  else if a = ascii "--help" then .help
  else (cliFound norm a).elim .positional .name

/-- The name of an option is read as that option. -/
theorem cliUse_name (normed : CliNormed tcl norm) {e : CliEntry} (member : e ∈ norm) (option : e.kind = .option) :
    cliUse norm false e.name = .name e := by
  have sound := normed.sound e member
  have front : (false || !dashes.isPrefixOf e.name) = false := by
    simpa [List.isPrefixOf_iff_prefix] using sound.kind.mp option
  have found : cliFound norm e.name = some e := by
    cases search : cliFound norm e.name with
    | none =>
      have absent := List.find?_eq_none.mp search e member
      simp [option] at absent
    | some e' =>
      obtain ⟨member', option', name⟩ := cliFound_some search
      rw [normed.named member' member option' option name]
  rw [cliUse, front, if_neg Bool.false_ne_true, if_neg (sound.dashed option), if_neg sound.other, found]
  rfl

/-- A reading from its first word. -/
theorem CliReads.next (normed : CliNormed tcl norm) {ended : Bool} {a : Bytes}
    (reads : CliReads norm ended (a :: argv) uses) :
    (∃ us, uses = cliUse norm ended a :: us ∧ (∀ e, cliUse norm ended a = .name e → isFlag e = true) ∧
      CliReads norm (ended || cliUse norm ended a == .ends) argv us) ∨
    ∃ e v argv' us, cliUse norm ended a = .name e ∧ isFlag e = false ∧ argv = v :: argv' ∧
      uses = .name e :: .value e :: us ∧ CliReads norm false argv' us := by
  generalize whole : a :: argv = all at reads
  cases reads with
  | done => cases whole
  | @positional _ _ _ uses plain later =>
    obtain ⟨rfl, rfl⟩ := List.cons.inj whole
    have use : cliUse norm ended a = .positional := by
      refine if_pos ?_
      simpa only [Bool.or_eq_true, Bool.not_eq_true', ← Bool.not_eq_true, List.isPrefixOf_iff_prefix] using plain
    have same : (ended || CliUse.positional == .ends) = ended := Bool.or_false ended
    rw [use, same]
    exact .inl ⟨uses, rfl, fun _ bad => CliUse.noConfusion bad, later⟩
  | @ends _ uses later =>
    obtain ⟨rfl, rfl⟩ := List.cons.inj whole
    exact .inl ⟨uses, rfl, fun _ bad => CliUse.noConfusion bad, later⟩
  | @help _ uses later =>
    obtain ⟨rfl, rfl⟩ := List.cons.inj whole
    exact .inl ⟨uses, rfl, fun _ bad => CliUse.noConfusion bad, later⟩
  | @flag e _ uses member option flag later =>
    obtain ⟨rfl, rfl⟩ := List.cons.inj whole
    rw [cliUse_name normed member option]
    exact .inl ⟨uses, rfl, fun _ same => CliUse.name.inj same ▸ flag, later⟩
  | @value e v _ uses member option takes follows later =>
    obtain ⟨rfl, rfl⟩ := List.cons.inj whole
    exact .inr ⟨e, v, _, uses, cliUse_name normed member option, takes, rfl, rfl, later⟩

/-- The words can be read in one way only. -/
theorem CliReads.unique (normed : CliNormed tcl norm) {ended : Bool} {uses' : List CliUse}
    (reads : CliReads norm ended argv uses)
    (other : CliReads norm ended argv uses') : uses' = uses := by
  induction length : argv.length using Nat.strongRecOn generalizing ended argv uses uses' with
  | ind n ih =>
    cases argv with
    | nil =>
      cases reads
      cases other
      rfl
    | cons a argv =>
      rcases reads.next normed with ⟨us, rfl, flags, later⟩ | ⟨e, v, argv', us, use, takes, rfl, rfl, later⟩
      · rcases other.next normed with ⟨us', rfl, -, later'⟩ | ⟨e', v', argv', us', use', takes', -, -, -⟩
        · rw [ih argv.length (by simp [← length]) later later' rfl]
        · rw [flags e' use'] at takes'
          cases takes'
      · rcases other.next normed with ⟨us', rfl, flags', later'⟩ | ⟨e', v', argv'', us', use', -, rest, rfl, later'⟩
        · rw [flags' e use] at takes
          cases takes
        · obtain ⟨rfl, rfl⟩ := List.cons.inj rest
          obtain rfl := CliUse.name.inj (use.symm.trans use')
          rw [ih argv'.length (by rw [← length, List.length_cons, List.length_cons]; omega) later later' rfl]

end Machteld
