import Machteld.Cli.Reading

namespace Machteld

variable {tcl : TclReads} {norm : List CliEntry} {argv : List Bytes} {uses : List CliUse} {res : CliDict}

/-- The entries that take a word of the command line, each with its word. -/
def CliTaken (norm : List CliEntry) (argv : List Bytes) (uses : List CliUse) (e : CliEntry) (w : Bytes) : Prop :=
  (w, .value e) ∈ argv.zip uses ∨ (e, w) ∈ (cliPositionals norm).zip (cliWords argv uses)

/-- What `CliParse` makes of words that are read in this way. -/
structure CliParsed (tcl : TclReads) (norm : List CliEntry) (argv : List Bytes) (uses : List CliUse)
    (res : CliDict) : Prop where
  once : (res.map Prod.fst).Nodup
  keys : ∀ key, key ∈ res.map Prod.fst ↔ key = ascii "help" ∨ ∃ e ∈ norm, e.declared = key
  flags : ∀ e ∈ norm, e.kind = .option → isFlag e = true →
    dictGet e.declared res = some (if uses.contains (.name e) then ascii "1" else cliDefault e)
  values : ∀ e ∈ norm, e.kind = .option → isFlag e = false →
    dictGet e.declared res = some ((cliValues e argv uses).getLast?.getD (cliDefault e))
  ranks : (cliWords argv uses).length ≤ (cliPositionals norm).length
  positionals : ∀ (k : Nat) (e : CliEntry), (cliPositionals norm)[k]? = some e →
    dictGet e.declared res = some ((cliWords argv uses)[k]?.getD (cliDefault e))
  fits : ∀ e w, CliTaken norm argv uses e w → CliFits tcl e w
  required : uses.contains .help = false → ∀ e ∈ norm, cliRequired tcl e = true →
    (∃ w, CliTaken norm argv uses e w) ∨ uses.contains (.name e) ∨ e.kind = .option ∧ (e.attr "default").isSome

/-- The value of `help` that the flag asks for. -/
def cliHelp (uses : List CliUse) : Bytes := if uses.contains .help then ascii "1" else ascii "0"

/-- `expr` hands on every declared key as it is: none of them reads as a
number that is spelled differently. -/
def CliKeysKept (tcl : TclReads) (norm : List CliEntry) : Prop :=
  ∀ e ∈ norm, tcl.exprOf e.declared = some e.declared

/-- A positional that declares the key of the flag was supplied, or has the
value of the flag for its default. -/
def CliHelpKept (norm : List CliEntry) (argv : List Bytes) (uses : List CliUse) : Prop :=
  ∀ (k : Nat) (e : CliEntry), (cliPositionals norm)[k]? = some e → e.declared = ascii "help" →
    k < (cliWords argv uses).length ∨ cliDefault e = cliHelp uses

/-- Positional entries take the words that are left, in their order. Each
word fits its entry, and unless help was asked for a required one has a
word. -/
theorem cliAssign_ok {wantsHelp : Bool} {ps : List CliEntry} {rest rest' : List Bytes} {res' : CliDict}
    (listed : ∀ e ∈ ps, CliListed tcl e) (passed : cliAssign tcl wantsHelp ps rest res = .ok (res', rest')) :
    res' = dictPuts ((ps.zip rest).map fun p => (p.1.key, p.2)) res ∧ rest' = rest.drop ps.length ∧
      (∀ e w, (e, w) ∈ ps.zip rest → CliFits tcl e w) ∧
      (wantsHelp = false → ∀ (k : Nat) (e : CliEntry), ps[k]? = some e → cliRequired tcl e = true →
        k < rest.length) := by
  induction ps generalizing rest res with
  | nil =>
    cases Except.ok.inj passed
    exact ⟨rfl, rfl, fun _ _ bad => absurd bad List.not_mem_nil, fun _ _ _ bad => absurd bad (by simp)⟩
  | cons e ps ih =>
    obtain ⟨first, later⟩ := List.forall_mem_cons.mp listed
    cases rest with
    | nil =>
      obtain ⟨waived, passed⟩ := check_bind_ok.mp passed
      rw [cliRefuse_ok, Bool.and_eq_false_iff] at waived
      obtain ⟨puts, left, fits, required⟩ := ih later passed
      rw [List.zip_nil_right] at puts
      refine ⟨puts, left.trans List.drop_nil, fun _ _ bad => absurd bad List.not_mem_nil,
        fun off k e' at' needed => ?_⟩
      cases k with
      | zero =>
        obtain rfl := Option.some.inj at'
        rcases waived with bad | unneeded
        · rw [off] at bad
          cases bad
        · rw [needed] at unneeded
          cases unneeded
      | succ k => exact absurd (required off k e' at' needed) (Nat.not_lt_zero k)
    | cons w rest =>
      obtain ⟨v, checked, went⟩ := Except.bind_ok.mp passed
      obtain ⟨own, rfl⟩ := (cliCheck_ok first).mp checked
      obtain ⟨puts, left, fits, required⟩ := ih later went
      refine ⟨puts, left, fun e' w' member => ?_, fun off k e' at' needed => ?_⟩
      · rcases List.mem_cons.mp member with same | inside
        · cases same
          exact own
        · exact fits e' w' inside
      · cases k with
        | zero => exact Nat.succ_pos _
        | succ k => exact Nat.succ_lt_succ (required off k e' at' needed)

theorem CliReads.length {ended : Bool} (reads : CliReads norm ended argv uses) : argv.length = uses.length := by
  induction reads with
  | done => rfl
  | positional _ _ ih => exact congrArg (· + 1) ih
  | ends _ ih => exact congrArg (· + 1) ih
  | help _ ih => exact congrArg (· + 1) ih
  | flag _ _ _ _ ih => exact congrArg (· + 1) ih
  | value _ _ _ _ _ ih => exact congrArg (· + 2) ih

/-- The entry of a use. -/
structure CliUse.Of (norm : List CliEntry) (use : CliUse) : Prop where
  name : ∀ e, use = .name e → e ∈ norm ∧ e.kind = .option
  value : ∀ e, use = .value e → e ∈ norm ∧ e.kind = .option ∧ isFlag e = false

/-- Every use is one of an entry of the specification. -/
theorem CliReads.of_mem {ended : Bool} (reads : CliReads norm ended argv uses) : ∀ use ∈ uses, use.Of norm := by
  induction reads with
  | done => exact List.forall_mem_nil _
  | positional _ _ ih =>
    exact List.forall_mem_cons.mpr ⟨⟨fun _ bad => CliUse.noConfusion bad, fun _ bad => CliUse.noConfusion bad⟩, ih⟩
  | ends _ ih =>
    exact List.forall_mem_cons.mpr ⟨⟨fun _ bad => CliUse.noConfusion bad, fun _ bad => CliUse.noConfusion bad⟩, ih⟩
  | help _ ih =>
    exact List.forall_mem_cons.mpr ⟨⟨fun _ bad => CliUse.noConfusion bad, fun _ bad => CliUse.noConfusion bad⟩, ih⟩
  | flag member option _ _ ih =>
    refine List.forall_mem_cons.mpr ⟨⟨fun _ same => ?_, fun _ bad => CliUse.noConfusion bad⟩, ih⟩
    exact CliUse.name.inj same ▸ ⟨member, option⟩
  | value member option takes _ _ ih =>
    refine List.forall_mem_cons.mpr ⟨⟨fun _ same => ?_, fun _ bad => CliUse.noConfusion bad⟩,
      List.forall_mem_cons.mpr ⟨⟨fun _ bad => CliUse.noConfusion bad, fun _ same => ?_⟩, ih⟩⟩
    · exact CliUse.name.inj same ▸ ⟨member, option⟩
    · exact CliUse.value.inj same ▸ ⟨member, option, takes⟩

/-- A put of the loop over the words, from its use. -/
theorem cliPut_some {w v k : Bytes} {use : CliUse} (put : cliPut (w, use) = some (k, v)) :
    (use = .help ∧ k = ascii "help" ∧ v = ascii "1") ∨
      (∃ e, use = .name e ∧ isFlag e = true ∧ k = e.key ∧ v = ascii "1") ∨ ∃ e, use = .value e ∧
        k = e.key ∧ v = w := by
  cases use with
  | positional => cases put
  | ends => cases put
  | help =>
    cases put
    exact .inl ⟨rfl, rfl, rfl⟩
  | name e =>
    change (if isFlag e = true then some (e.key, ascii "1") else none) = _ at put
    split_ifs at put with flag
    cases put
    exact .inr (.inl ⟨e, rfl, flag, rfl, rfl⟩)
  | value e =>
    cases put
    exact .inr (.inr ⟨e, rfl, rfl, rfl⟩)

theorem mem_uses {p : Bytes × CliUse} (member : p ∈ argv.zip uses) : p.2 ∈ uses := (List.of_mem_zip member).2

/-- What the words put under the key of an option that takes values. -/
theorem cliPuts_values (normed : CliNormed tcl norm) {ended : Bool}
    (reads : CliReads norm ended argv uses) {e : CliEntry}
    (member : e ∈ norm) (option : e.kind = .option) (takes : isFlag e = false) :
    dictValues e.key (cliPuts argv uses) = cliValues e argv uses := by
  unfold dictValues cliPuts cliValues
  rw [List.filterMap_filterMap]
  refine List.filterMap_congr fun p inside => ?_
  obtain ⟨w, use⟩ := p
  have of := reads.of_mem use (mem_uses inside)
  cases use with
  | positional => rfl
  | ends => rfl
  | help =>
    have other : ¬ ascii "help" = e.key := fun same => (normed.sound e member).reserved option same.symm
    simp [cliPut, other]
  | name e' =>
    by_cases flag : isFlag e' = true
    · have other : ¬ e'.key = e.key := by
        intro same
        rw [normed.same (of.name e' rfl).1 member same, takes] at flag
        cases flag
      simp [cliPut, flag, other]
    · simp [cliPut, flag]
  | value e' =>
    by_cases same : e'.key = e.key
    · obtain rfl := normed.same (of.value e' rfl).1 member same
      simp [cliPut]
    · have other : ¬ e' = e := fun eq => same (congrArg _ eq)
      simp [cliPut, same, other]

/-- What the words put under a key that one use puts a 1 under. -/
theorem cliPuts_one {ended : Bool} (reads : CliReads norm ended argv uses) {k : Bytes} {use : CliUse}
    (own : ∀ w, cliPut (w, use) = some (k, ascii "1"))
    (only : ∀ w use' v, use' ∈ uses → cliPut (w, use') = some (k, v) → use' = use) :
    (dictValues k (cliPuts argv uses)).getLast? = if uses.contains use then some (ascii "1") else none := by
  have found : ∀ v, v ∈ dictValues k (cliPuts argv uses) ↔ v = ascii "1" ∧ use ∈ uses := by
    intro v
    unfold dictValues cliPuts
    rw [List.filterMap_filterMap, List.mem_filterMap]
    constructor
    · rintro ⟨⟨w, use'⟩, inside, put⟩
      obtain ⟨⟨k', v'⟩, first, second⟩ := Option.bind_eq_some_iff.mp put
      dsimp only at second
      split_ifs at second with same
      obtain rfl := Option.some.inj second
      subst same
      have eq := only w use' _ (mem_uses inside) first
      rw [eq, own w] at first
      exact ⟨(Prod.mk.inj (Option.some.inj first)).2.symm, eq ▸ mem_uses inside⟩
    · rintro ⟨rfl, member⟩
      obtain ⟨i, bound, at'⟩ := List.getElem_of_mem member
      have bound' : i < argv.length := reads.length ▸ bound
      refine ⟨(argv[i], use), List.mem_iff_getElem.mpr ⟨i, ?_, ?_⟩, ?_⟩
      · rw [List.length_zip]
        omega
      · rw [List.getElem_zip, at']
      · rw [own, Option.bind_some, if_pos rfl]
  cases last : (dictValues k (cliPuts argv uses)).getLast? with
  | none =>
    have empty := List.getLast?_eq_none_iff.mp last
    have absent : use ∉ uses := fun member => absurd ((found _).mpr ⟨rfl, member⟩) (empty ▸ List.not_mem_nil)
    rw [if_neg (by simpa using absent)]
  | some v =>
    obtain ⟨rfl, member⟩ := (found v).mp (List.mem_of_getLast? last)
    rw [if_pos (by simpa using member)]

/-- The word of a positional entry is the one at its place. -/
theorem assigned_at {ps : List CliEntry} {rest : List Bytes} {k : Nat} {e : CliEntry}
    (apart : (ps.map CliEntry.key).Nodup)
    (at' : ps[k]? = some e) :
    (dictValues e.key ((ps.zip rest).map fun p => (p.1.key, p.2))).getLast? = rest[k]? := by
  induction ps generalizing rest k with
  | nil => cases at'
  | cons e' ps ih =>
    obtain ⟨fresh, later⟩ := List.nodup_cons.mp apart
    cases rest with
    | nil => rfl
    | cons w rest =>
      rw [List.zip_cons_cons, List.map_cons]
      cases k with
      | zero =>
        obtain rfl := Option.some.inj at'
        have absent : e'.key ∉ ((ps.zip rest).map fun p => (p.1.key, p.2)).map Prod.fst := by
          intro member
          rw [List.map_map] at member
          obtain ⟨p, inside, same⟩ := List.mem_map.mp member
          exact fresh (same ▸ List.mem_map_of_mem (List.of_mem_zip inside).1)
        rw [@dictValues_here _ _ _ e'.key (e'.key, w) _ rfl, dictValues_absent absent]
        rfl
      | succ k =>
        have other : ¬ e'.key = e.key := fun same => fresh (same ▸ List.mem_map_of_mem (List.mem_of_getElem? at'))
        rw [@dictValues_other _ _ _ e.key (e'.key, w) _ other]
        exact ih later at'

/-- Every entry starts with its default, and the flag of help with 0. -/
theorem cliStart_at (normed : CliNormed tcl norm) {e : CliEntry} (member : e ∈ norm) :
    dictGet e.key (cliStart norm) = some (if e.key = ascii "help" then ascii "0" else cliDefault e) := by
  have values : dictValues e.key (norm.map fun e => (e.key, cliDefault e)) = [cliDefault e] := by
    refine dictValues_of_mem ?_ (List.mem_map_of_mem member)
    rw [List.map_map]
    exact normed.apart
  rw [cliStart, dictGet_dictPut, dictGet_dictPuts, values]
  by_cases help : e.key = ascii "help"
  · rw [if_pos help.symm, if_pos help]
  · rw [if_neg fun same => help same.symm, if_neg help]
    rfl

/-- How a parse that passes is made up. -/
theorem cliParse_passes (normed : CliNormed tcl norm) (passed : cliParse tcl argv norm = .ok res) :
    ∃ uses s, CliReads norm false argv uses ∧ cliScan tcl norm argv ⟨cliStart norm, [], false, []⟩ = .ok s ∧
      CliScanned tcl argv uses ⟨cliStart norm, [], false, []⟩ s ∧ cliFinish tcl norm s = .ok res := by
  obtain ⟨s, scan, finish⟩ := Except.bind_ok.mp passed
  obtain ⟨uses, reads, scanned⟩ := cliScan_reads normed scan
  exact ⟨uses, s, reads, scan, scanned, finish⟩

/-- What stands behind a parse that passes. -/
structure CliFinished (tcl : TclReads) (norm : List CliEntry) (argv : List Bytes) (uses : List CliUse)
    (res : CliDict) : Prop where
  reads : CliReads norm false argv uses
  res : res = dictPuts (((cliPositionals norm).zip (cliWords argv uses)).map fun p => (p.1.key, p.2))
    (dictPuts (cliPuts argv uses) (cliStart norm))
  ranks : (cliWords argv uses).length ≤ (cliPositionals norm).length
  fits : ∀ e w, CliTaken norm argv uses e w → CliFits tcl e w
  ranked : uses.contains .help = false → ∀ (k : Nat) (e : CliEntry), (cliPositionals norm)[k]? = some e →
    cliRequired tcl e = true → k < (cliWords argv uses).length
  missing : uses.contains .help = false → ∀ e ∈ norm, cliMissing tcl (cliSupplied uses) e = false

/-- The flag tells whether help was asked for. -/
theorem help_wanted (normed : CliNormed tcl norm) (reads : CliReads norm false argv uses) :
    dictGet (ascii "help") (dictPuts (cliPuts argv uses) (cliStart norm)) = some (cliHelp uses) := by
  have last := cliPuts_one reads (fun _ => rfl) fun w use v member put => by
    rcases cliPut_some put with ⟨rfl, -, -⟩ | ⟨e, rfl, -, same, -⟩ | ⟨e, rfl, same, -⟩
    · rfl
    · obtain ⟨inside, option⟩ := (reads.of_mem _ member).name e rfl
      exact absurd same.symm ((normed.sound e inside).reserved option)
    · obtain ⟨inside, option, -⟩ := (reads.of_mem _ member).value e rfl
      exact absurd same.symm ((normed.sound e inside).reserved option)
  rw [dictGet_dictPuts, last, cliStart, dictGet_dictPut, if_pos rfl, cliHelp]
  split_ifs <;> rfl

/-- What is returned is the dict of some reading of the words, which gives
every word its one use. -/
theorem cliParse_finished (normed : CliNormed tcl norm) (passed : cliParse tcl argv norm = .ok res) :
    ∃ uses, CliFinished tcl norm argv uses res := by
  obtain ⟨uses, s, reads, -, scanned, finish⟩ := cliParse_passes normed passed
  have wanted : (dictGet (ascii "help") s.res == some (ascii "1")) = uses.contains .help := by
    rw [scanned.res, help_wanted normed reads, cliHelp]
    cases uses.contains CliUse.help <;> rfl
  obtain ⟨⟨res', rest'⟩, assigned, finish⟩ := Except.bind_ok.mp finish
  have listed : ∀ e ∈ cliPositionals norm, CliListed tcl e := fun e member =>
    (normed.sound e (List.mem_of_mem_filter member)).listed
  obtain ⟨puts, left, fits, ranked⟩ := cliAssign_ok listed assigned
  rw [wanted] at ranked finish
  have rest : s.rest = cliWords argv uses := scanned.rest.trans (List.nil_append _)
  have supplied : s.supplied = cliSupplied uses := scanned.supplied.trans (List.nil_append _)
  rw [rest] at puts left fits ranked
  rw [scanned.res] at puts
  rw [supplied] at finish
  cases rest' with
  | cons w rest' => cases finish
  | nil =>
    have ranks : (cliWords argv uses).length ≤ (cliPositionals norm).length := List.drop_eq_nil_iff.mp left.symm
    have all : ∀ e w, CliTaken norm argv uses e w → CliFits tcl e w := fun e w taken =>
      taken.elim (scanned.fits w e) (fits e w)
    dsimp only at finish
    cases help : uses.contains .help with
    | true =>
      rw [help, if_pos rfl] at finish
      obtain rfl := Except.ok.inj finish
      exact ⟨uses, reads, puts, ranks, all, fun bad => absurd (help.symm.trans bad) Bool.noConfusion,
        fun bad => absurd (help.symm.trans bad) Bool.noConfusion⟩
    | false =>
      rw [help, if_neg Bool.false_ne_true] at finish
      cases search : norm.find? (cliMissing tcl (cliSupplied uses)) with
      | some e =>
        rw [search] at finish
        cases finish
      | none =>
        rw [search] at finish
        obtain rfl := Except.ok.inj finish
        exact ⟨uses, reads, puts, ranks, all, fun _ => ranked help,
          fun _ e member => Bool.eq_false_iff.mpr (List.find?_eq_none.mp search e member)⟩

theorem assigned_keys {key : Bytes}
    (member : key ∈ (((cliPositionals norm).zip (cliWords argv uses)).map fun p => (p.1.key, p.2)).map Prod.fst) :
    ∃ e ∈ norm, e.kind = .positional ∧ e.key = key := by
  rw [List.map_map] at member
  obtain ⟨p, inside, same⟩ := List.mem_map.mp member
  obtain ⟨listed, kind⟩ := List.mem_filter.mp (List.of_mem_zip inside).1
  exact ⟨p.1, listed, beq_iff_eq.mp kind, same⟩

/-- The result under the key of an option: the words decide, and the default
where they put nothing. -/
theorem CliFinished.option (normed : CliNormed tcl norm)
    (finished : CliFinished tcl norm argv uses res) {e : CliEntry}
    (member : e ∈ norm) (option : e.kind = .option) :
    dictGet e.key res = some ((dictValues e.key (cliPuts argv uses)).getLast?.getD (cliDefault e)) := by
  have absent : e.key ∉ (((cliPositionals norm).zip (cliWords argv uses)).map fun p =>
    (p.1.key, p.2)).map Prod.fst := by
    intro bad
    obtain ⟨e', member', positional, same⟩ := assigned_keys bad
    rw [normed.same member' member same, option] at positional
    cases positional
  rw [finished.res, dictGet_dictPuts, dictValues_absent absent, dictGet_dictPuts, cliStart_at normed member,
    if_neg ((normed.sound e member).reserved option)]
  cases (dictValues e.key (cliPuts argv uses)).getLast? <;> rfl

/-- The result under the key of a positional: its word, and without one what
the flag or the default has put there. -/
theorem CliFinished.positional (normed : CliNormed tcl norm)
    (finished : CliFinished tcl norm argv uses res) {k : Nat}
    {e : CliEntry} (at' : (cliPositionals norm)[k]? = some e) : dictGet e.key res =
      some ((cliWords argv uses)[k]?.getD (if e.key = ascii "help" then cliHelp uses else cliDefault e)) := by
  obtain ⟨member, kind⟩ := List.mem_filter.mp (List.mem_of_getElem? at')
  have kind : e.kind = .positional := beq_iff_eq.mp kind
  have apart : ((cliPositionals norm).map CliEntry.key).Nodup := (List.filter_sublist.map _).nodup normed.apart
  have before : dictGet e.key (dictPuts (cliPuts argv uses) (cliStart norm)) =
      some (if e.key = ascii "help" then cliHelp uses else cliDefault e) := by
    by_cases help : e.key = ascii "help"
    · rw [if_pos help, help]
      exact help_wanted normed finished.reads
    · have absent : e.key ∉ (cliPuts argv uses).map Prod.fst := by
        intro bad
        obtain ⟨⟨key, v⟩, inside, same⟩ := List.mem_map.mp bad
        obtain ⟨⟨w, use⟩, listed, put⟩ := List.mem_filterMap.mp inside
        have of := finished.reads.of_mem use (mem_uses listed)
        have option : ∀ e' ∈ norm, e'.kind = .option → key ≠ e'.key := by
          rintro e' member' option rfl
          rw [normed.same member' member same, kind] at option
          cases option
        rcases cliPut_some put with ⟨-, rfl, -⟩ | ⟨e', use, -, own, -⟩ | ⟨e', use, own, -⟩
        · exact help same.symm
        · exact option e' (of.name e' use).1 (of.name e' use).2 own
        · exact option e' (of.value e' use).1 (of.value e' use).2.1 own
      rw [dictGet_dictPuts, dictValues_absent absent, cliStart_at normed member, if_neg help, if_neg help]
      rfl
  rw [finished.res, dictGet_dictPuts, assigned_at apart at', before]
  cases (cliWords argv uses)[k]? <;> rfl

/-- The keys are those that were declared, and `help`. -/
theorem CliFinished.keys (finished : CliFinished tcl norm argv uses res) (key : Bytes) :
    key ∈ res.map Prod.fst ↔ key = ascii "help" ∨ ∃ e ∈ norm, e.key = key := by
  have start : key ∈ (cliStart norm).map Prod.fst ↔ key = ascii "help" ∨ ∃ e ∈ norm, e.key = key := by
    have declared : key ∈ (dictPuts (norm.map fun e => (e.key, cliDefault e)) []).map Prod.fst ↔
      ∃ e ∈ norm, e.key = key := by
      rw [mem_dictPuts_keys, List.map_map]
      simp
    rw [cliStart, dictPut_keys]
    split_ifs with known
    · rw [declared]
      refine (or_iff_right_of_imp ?_).symm
      rintro rfl
      have inside := known
      rw [mem_dictPuts_keys, List.map_map] at inside
      simpa using inside
    · rw [List.mem_append, List.mem_singleton, declared, or_comm]
  rw [finished.res, mem_dictPuts_keys, mem_dictPuts_keys, start, ← or_assoc]
  refine or_iff_right_of_imp ?_
  rintro (assigned | put)
  · obtain ⟨e, member, -, same⟩ := assigned_keys assigned
    exact .inr ⟨e, member, same⟩
  · obtain ⟨⟨key, v⟩, inside, rfl⟩ := List.mem_map.mp put
    obtain ⟨⟨w, use⟩, listed, put⟩ := List.mem_filterMap.mp inside
    have of := finished.reads.of_mem use (mem_uses listed)
    rcases cliPut_some put with ⟨-, rfl, -⟩ | ⟨e, use, -, rfl, -⟩ | ⟨e, use, rfl, -⟩
    · exact .inl rfl
    · exact .inr ⟨e, (of.name e use).1, rfl⟩
    · exact .inr ⟨e, (of.value e use).1, rfl⟩

/-- A flag is 1 where it was given, and its default otherwise. -/
theorem CliFinished.flags (normed : CliNormed tcl norm)
    (finished : CliFinished tcl norm argv uses res) {e : CliEntry}
    (member : e ∈ norm) (option : e.kind = .option) (flag : isFlag e = true) :
    dictGet e.key res = some (if uses.contains (.name e) then ascii "1" else cliDefault e) := by
  have own : ∀ w, cliPut (w, .name e) = some (e.key, ascii "1") := fun w => if_pos flag
  have last := cliPuts_one finished.reads own fun w use v inside put => by
    have of := finished.reads.of_mem use inside
    rcases cliPut_some put with ⟨-, same, -⟩ | ⟨e', rfl, -, same, -⟩ | ⟨e', rfl, same, -⟩
    · exact absurd same ((normed.sound e member).reserved option)
    · rw [normed.same member (of.name e' rfl).1 same]
    · obtain ⟨member', -, takes⟩ := of.value e' rfl
      rw [← normed.same member member' same, flag] at takes
      cases takes
  rw [finished.option normed member option, last]
  split_ifs <;> rfl

/-- An entry was supplied where one of the uses names it. -/
theorem mem_cliSupplied {key : Bytes} : key ∈ cliSupplied uses ↔ ∃ e, .name e ∈ uses ∧ e.key = key := by
  unfold cliSupplied
  rw [List.mem_filterMap]
  constructor
  · rintro ⟨use, member, supplies⟩
    cases use with
    | name e => exact ⟨e, member, Option.some.inj supplies⟩
    | positional => cases supplies
    | ends => cases supplies
    | help => cases supplies
    | value e => cases supplies
  · rintro ⟨e, member, rfl⟩
    exact ⟨.name e, member, rfl⟩

/-- A required entry has a value, unless help was asked for: a word, a use
of the option, or the option's default. -/
theorem CliFinished.required (normed : CliNormed tcl norm) (finished : CliFinished tcl norm argv uses res)
    (unasked : uses.contains .help = false) {e : CliEntry} (member : e ∈ norm) (needed : cliRequired tcl e = true) :
    (∃ w, CliTaken norm argv uses e w) ∨ uses.contains (.name e) ∨ e.kind = .option ∧
      (e.attr "default").isSome := by
  cases kind : e.kind with
  | positional =>
    obtain ⟨k, at'⟩ :=
      List.mem_iff_getElem?.mp (List.mem_filter.mpr ⟨member, beq_iff_eq.mpr kind⟩ : e ∈ cliPositionals norm)
    have below := finished.ranked unasked k e at' needed
    refine .inl ⟨(cliWords argv uses)[k], .inr (List.mem_iff_getElem?.mpr ⟨k, ?_⟩)⟩
    exact List.getElem?_zip_eq_some.mpr ⟨at', List.getElem?_eq_getElem below⟩
  | option =>
    have supplied := finished.missing unasked e member
    have option : (e.kind == CliKind.option) = true := beq_iff_eq.mpr kind
    simp only [cliMissing, option, needed, Bool.true_and, Bool.and_eq_false_iff, Bool.not_eq_false',
      Option.isNone_eq_false_iff,
      List.contains_iff_mem] at supplied
    rcases supplied with supplied | default
    · obtain ⟨e', named, same⟩ := mem_cliSupplied.mp supplied
      rw [normed.same ((finished.reads.of_mem _ named).name e' rfl).1 member same] at named
      exact .inr (.inl (List.contains_iff_mem.mpr named))
    · exact .inr (.inr ⟨rfl, default⟩)

theorem CliKeysKept.key (kept : CliKeysKept tcl norm) (normed : CliNormed tcl norm) {e : CliEntry}
    (member : e ∈ norm) :
    e.declared = e.key := Option.some.inj ((kept e member).symm.trans (normed.sound e member).key)

/-- Where the result has the declared keys, `expr` has changed none of them:
a key that is handed on again stays, and no two entries share one. -/
theorem CliFinished.keysKept (normed : CliNormed tcl norm) (expr : tcl.ExprSpec)
    (finished : CliFinished tcl norm argv uses res)
    (keys : ∀ key, key ∈ res.map Prod.fst ↔ key = ascii "help" ∨ ∃ e ∈ norm, e.declared = key) :
    CliKeysKept tcl norm := by
  intro e member
  have own := (normed.sound e member).key
  have declared := (finished.keys e.declared).mp ((keys e.declared).mpr (.inr ⟨e, member, rfl⟩))
  have held := (keys e.key).mp ((finished.keys e.key).mpr (.inr ⟨e, member, rfl⟩))
  rcases declared with help | ⟨e', member', same⟩
  · rcases held with key | ⟨e', member', same⟩
    · rwa [key, ← help] at own
    · -- the other entry lands on the key of this one
      have again := (normed.sound e' member').key
      rw [same, expr.again _ _ own] at again
      obtain rfl := normed.same member member' (Option.some.inj again)
      rwa [← same] at own
  · have again := expr.again _ _ (normed.sound e' member').key
    rwa [same] at again

/-- The result is the one specified where neither a key nor the flag is
lost; all the rest of the specification holds in every case. -/
theorem CliFinished.parsed_iff (normed : CliNormed tcl norm) (expr : tcl.ExprSpec)
    (finished : CliFinished tcl norm argv uses res) :
    CliParsed tcl norm argv uses res ↔ CliKeysKept tcl norm ∧ CliHelpKept norm argv uses := by
  constructor
  · intro parsed
    have kept := finished.keysKept normed expr parsed.keys
    refine ⟨kept, fun k e at' help => ?_⟩
    have same := kept.key normed (List.mem_of_mem_filter (List.mem_of_getElem? at'))
    have own := finished.positional normed at'
    rw [← same, if_pos help, parsed.positionals k e at'] at own
    cases word : (cliWords argv uses)[k]? with
    | some w => exact .inl (List.getElem?_eq_some_iff.mp word).1
    | none =>
      rw [word] at own
      exact .inr (Option.some.inj own)
  · rintro ⟨kept, free⟩
    refine ⟨?_, fun key => ?_, fun e member option flag => ?_, fun e member option takes => ?_, finished.ranks,
      fun k e at' => ?_,
      finished.fits, fun unasked e member needed => finished.required normed unasked member needed⟩
    · rw [finished.res, cliStart]
      exact nodup_dictPuts (nodup_dictPuts (nodup_dictPut (nodup_dictPuts List.nodup_nil)))
    · rw [finished.keys key]
      refine or_congr_right (exists_congr fun e => and_congr_right fun member => ?_)
      rw [kept.key normed member]
    · rw [kept.key normed member]
      exact finished.flags normed member option flag
    · rw [kept.key normed member, finished.option normed member option,
        cliPuts_values normed finished.reads member option takes]
    · have same := kept.key normed (List.mem_of_mem_filter (List.mem_of_getElem? at'))
      rw [same, finished.positional normed at']
      by_cases help : e.key = ascii "help"
      · rw [if_pos help]
        rcases free k e at' (same.trans help) with supplied | default
        · rw [List.getElem?_eq_getElem supplied]
          rfl
        · rw [default]
      · rw [if_neg help]

/-- Words that cannot be read are refused as usage. -/
theorem cliScan_raises (normed : CliNormed tcl norm) {s : CliScan} {err : TclError}
    (failed : cliScan tcl norm argv s = .error err) :
    CliRaises "usage" err := by
  fun_induction cliScan tcl norm argv s with
  | case1 s => cases failed
  | case2 a argv s plain ih => exact ih failed
  | case3 argv s plain ih => exact ih failed
  | case4 argv s plain differs ih => exact ih failed
  | case5 a argv s plain differs other found => exact ⟨_, (Except.error.inj failed).symm⟩
  | case6 a argv s plain differs other e found flag ih => exact ih failed
  | case7 a s plain differs other e found takes => exact ⟨_, (Except.error.inj failed).symm⟩
  | case8 a s plain differs other e found takes nxt argv bad => exact ⟨_, (Except.error.inj failed).symm⟩
  | case9 a s plain differs other e found takes nxt argv good ih =>
    rcases Except.bind_error failed with checked | ⟨v, -, later⟩
    · exact cliCheck_raises (normed.sound e (cliFound_some found).1).listed checked
    · exact ih v later

/-- Words that do not fit a positional entry are refused as usage. -/
theorem cliAssign_raises {wantsHelp : Bool} {ps : List CliEntry} {rest : List Bytes} {err : TclError}
    (listed : ∀ e ∈ ps, CliListed tcl e) (failed : cliAssign tcl wantsHelp ps rest res = .error err) :
    CliRaises "usage" err := by
  induction ps generalizing rest res with
  | nil => cases failed
  | cons e ps ih =>
    obtain ⟨first, later⟩ := List.forall_mem_cons.mp listed
    cases rest with
    | nil =>
      rcases Except.bind_error failed with refused | ⟨_, -, behind⟩
      · exact cliRefuse_raises refused
      · exact ih later behind
    | cons w rest =>
      rcases Except.bind_error failed with checked | ⟨_, -, behind⟩
      · exact cliCheck_raises first checked
      · exact ih later behind

/-- Every refusal is a usage error. -/
theorem cliParse_raises (normed : CliNormed tcl norm) {err : TclError}
    (failed : cliParse tcl argv norm = .error err) :
    CliRaises "usage" err := by
  rcases Except.bind_error failed with scan | ⟨s, -, failed⟩
  · exact cliScan_raises normed scan
  rcases Except.bind_error failed with assign | ⟨⟨res, rest⟩, -, failed⟩
  · exact cliAssign_raises (fun e member => (normed.sound e (List.mem_of_mem_filter member)).listed) assign
  cases rest with
  | cons w rest => exact ⟨_, (Except.error.inj failed).symm⟩
  | nil =>
    dsimp only at failed
    split at failed
    · cases failed
    · split at failed
      · exact ⟨_, (Except.error.inj failed).symm⟩
      · cases failed

/-- `CliParse` refuses the words, or reads each of them in its one way and
gives what they say; but a key that `expr` spells differently is lost, and a
positional `help` that is not supplied has the value of the flag instead of
its default. -/
theorem cliParse_spec_iff (expr : tcl.ExprSpec) {spec : Bytes} (accepted : cliNorm tcl spec = .ok norm)
    (argv : List Bytes) :
    (∃ err, cliParse tcl argv norm = .error err ∧ CliRaises "usage" err) ∨
      ∃ res uses, cliParse tcl argv norm = .ok res ∧ CliReads norm false argv uses ∧
        (∀ uses', CliReads norm false argv uses' → uses' = uses) ∧
        (CliParsed tcl norm argv uses res ↔ CliKeysKept tcl norm ∧ CliHelpKept norm argv uses) := by
  have normed := cliNorm_normed expr accepted
  cases parse : cliParse tcl argv norm with
  | error err => exact .inl ⟨err, rfl, cliParse_raises normed parse⟩
  | ok res =>
    obtain ⟨uses, finished⟩ := cliParse_finished normed parse
    exact .inr ⟨res, uses, rfl, finished.reads, fun _ other => finished.reads.unique normed other,
      finished.parsed_iff normed expr⟩

/-- An option that takes a number. -/
def numberNorm : List CliEntry := [⟨ascii "--n", .option, [(ascii "type", ascii "int")], ascii "n", ascii "int"⟩]

/-- A positional `help` with a default. -/
def helpNorm : List CliEntry :=
  [⟨ascii "help", .positional, [(ascii "default", ascii "x")], ascii "help", ascii "string"⟩]

theorem cliParse_spec_sample :
    (∃ err, cliParse plainTcl [ascii "--n", ascii "3"] numberNorm = .error err ∧ CliRaises "usage" err) ∨
      ∃ res uses, cliParse plainTcl [ascii "--n", ascii "3"] numberNorm = .ok res ∧
        CliReads numberNorm false [ascii "--n", ascii "3"] uses ∧
        (∀ uses', CliReads numberNorm false [ascii "--n", ascii "3"] uses' → uses' = uses) ∧
        (CliParsed plainTcl numberNorm [ascii "--n", ascii "3"] uses res ↔
          CliKeysKept plainTcl numberNorm ∧ CliHelpKept numberNorm [ascii "--n", ascii "3"] uses) :=
  @cliParse_spec_iff plainTcl numberNorm plainTcl_expr (ascii "--n {type int}") rfl _

/-- A key that reads as a number is spelled anew. -/
example : (cliNorm plainTcl (ascii "--007 {default x}")).bind (cliParse plainTcl []) =
    .ok [(ascii "7", ascii "x"), (ascii "help", ascii "0")] := rfl

/-- The default of a positional `help` is lost. -/
theorem cliParse_help_default : cliNorm plainTcl (ascii "help {default x}") = .ok helpNorm ∧
    ¬ ((∃ err, cliParse plainTcl [] helpNorm = .error err ∧ CliRaises "usage" err) ∨
      ∃ res uses, cliParse plainTcl [] helpNorm = .ok res ∧ CliReads helpNorm false [] uses ∧
        CliParsed plainTcl helpNorm [] uses res) := by
  refine ⟨rfl, ?_⟩
  have result : cliParse plainTcl [] helpNorm = .ok [(ascii "help", ascii "0")] := rfl
  rw [result]
  rintro (⟨err, bad, -⟩ | ⟨res, uses, same, reads, parsed⟩)
  · cases bad
  · obtain rfl := Except.ok.inj same
    cases reads
    have held := parsed.positionals 0 _ rfl
    exact absurd held (by decide)

end Machteld
