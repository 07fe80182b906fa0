import Machteld.Env.Merge
import Mathlib.Algebra.GroupWithZero.Nat

namespace Machteld

/-- A key of an override and its name. -/
def EnvKey (key : Bytes) (name : List UInt16) : Prop :=
  (0 ∉ key ∧ key ≠ [] ∧ 0x3D ∉ key) ∧ mtUtf8ToWide true key = some name

/-- A value of an override and its text. -/
def EnvValue (value : Bytes) (text : List UInt16) : Prop := 0 ∉ value ∧ mtUtf8ToWide true value = some text

/-- The size of the block with the entries. -/
def envSize (entries : List (List UInt16)) : Nat :=
  (entries.map fun entry => entry.length + 1).sum + if entries.length = 0 then 2 else 1

def envAdded (overrides : List (List UInt16 × List UInt16)) : List (List UInt16) :=
  overrides.map fun override => override.1 ++ wideEquals :: override.2

/-- The names and texts of the overrides. -/
def EnvOverrides (words : List Bytes) (overrides : List (List UInt16 × List UInt16)) : Prop :=
  List.Forall₂ (fun pair override => EnvKey pair.1 override.1 ∧ EnvValue pair.2 override.2)
    (envPairs words) overrides

/-- The entries that the child gets, not yet in order. -/
def envMerged (le : List UInt16 → List UInt16 → Bool) (inherited : List UInt16)
    (overrides : List (List UInt16 × List UInt16)) : List (List UInt16) :=
  envKept le (overrides.map Prod.fst) (envEntries inherited) ++ envAdded overrides

/-- A name that is compared: of an override or of an inherited entry. -/
def EnvNamed (host : EnvHost) (words : List Bytes) (name : List UInt16) : Prop :=
  (∃ key value, (key, value) ∈ envPairs words ∧ EnvKey key name) ∨
    ∃ inherited, host.inherited = some inherited ∧ name ∈ (envEntries inherited).map envName

/-- Whether the memory is one that so many overrides need. -/
def EnvAlloc.Made (count : Nat) : EnvAlloc → Prop
  | .keys => True
  | .key j => j < count
  | .items => True
  | .value j => j < count
  | .entry j => j < count

/-- Why there is no block. -/
inductive EnvFault (host : EnvHost) (le : List UInt16 → List UInt16 → Bool) (cap : Nat) : Option (List Bytes) → Prop
  | list : EnvFault host le cap none
  | odd {words : List Bytes} : words.length % 2 ≠ 0 → EnvFault host le cap (some words)
  | many {words : List Bytes} : cIntMax < words.length / 2 → EnvFault host le cap (some words)
  | key {words : List Bytes} {key value : Bytes} : (key, value) ∈ envPairs words → (¬ ∃ name, EnvKey key name) →
      EnvFault host le cap (some words)
  | same {words : List Bytes} {key key' : Bytes} {name name' : List UInt16} :
      [key, key'].Sublist ((envPairs words).map Prod.fst) → EnvKey key name → EnvKey key' name' →
      sameName le name name' = true → EnvFault host le cap (some words)
  | value {words : List Bytes} {key value : Bytes} : (key, value) ∈ envPairs words →
    (¬ ∃ text, EnvValue value text) →
      EnvFault host le cap (some words)
  | large {words : List Bytes} {key value : Bytes} {name text : List UInt16} : (key, value) ∈ envPairs words →
      EnvKey key name → EnvValue value text → cap < name.length + text.length + 2 →
        EnvFault host le cap (some words)
  | block {words : List Bytes} {inherited : List UInt16} {overrides : List (List UInt16 × List UInt16)} :
      host.inherited = some inherited → EnvOverrides words overrides →
        cap < envSize (envMerged le inherited overrides) →
      EnvFault host le cap (some words)
  | longKey {words : List Bytes} {key value : Bytes} {name : List UInt16} : (key, value) ∈ envPairs words →
      EnvKey key name → cIntMax < name.length → EnvFault host le cap (some words)
  | longEntry {words : List Bytes} {inherited entry : List UInt16} : host.inherited = some inherited →
      entry ∈ envEntries inherited → cIntMax < (envName entry).length → EnvFault host le cap (some words)
  | count {words : List Bytes} {inherited : List UInt16} : host.inherited = some inherited →
      sizeMax - (envPairs words).length < (envEntries inherited).length → EnvFault host le cap (some words)
  | inherited {words : List Bytes} : host.inherited = none → EnvFault host le cap (some words)
  | memory {words : List Bytes} (alloc : EnvAlloc) : alloc.Made (envPairs words).length → host.alloc alloc = false →
      EnvFault host le cap (some words)
  | comparison {words : List Bytes} {n : Nat} {name name' : List UInt16} : EnvNamed host words name →
      EnvNamed host words name' → host.compare n name name' = 0 → EnvFault host le cap (some words)

section

variable {host : EnvHost} {le : List UInt16 → List UInt16 → Bool} {cap : Nat} {words : List Bytes}

theorem mem_envPairs_fst {key : Bytes} (member : key ∈ (envPairs words).map Prod.fst) :
    ∃ value, (key, value) ∈ envPairs words := by
  obtain ⟨pair, inside, rfl⟩ := List.mem_map.mp member
  exact ⟨pair.2, inside⟩

theorem EnvNamed.override {keys : List Bytes} {names : List (List UInt16)} (all : List.Forall₂ EnvKey keys names)
    (inside : keys ⊆ (envPairs words).map Prod.fst) {name : List UInt16} (member : name ∈ names) :
    EnvNamed host words name := by
  obtain ⟨key, member', valid⟩ := forall₂_mem_right all member
  obtain ⟨value, pair⟩ := mem_envPairs_fst (inside member')
  exact .inl ⟨key, value, pair, valid⟩

/-- Names that cannot be compared are a fault. -/
theorem EnvFault.incomparable {names : List (List UInt16)} (named : ∀ name ∈ names, EnvNamed host words name) :
    Incomparable host names → EnvFault host le cap (some words)
  | .inl ⟨name, member, long⟩ => by
    rcases named name member with ⟨key, value, pair, valid⟩ | ⟨inherited, block, inside⟩
    · exact .longKey pair valid long
    · obtain ⟨entry, there, rfl⟩ := List.mem_map.mp inside
      exact .longEntry block there long
  | .inr ⟨_, a, inA, b, inB, failed⟩ => .comparison (named a inA) (named b inB) failed

theorem envKeys_meets (ordinal : OrdinalNames host le) (done rest : List Bytes) (earlier : List (List UInt16))
    (words_keys : (envPairs words).map Prod.fst = done ++ rest) (read : List.Forall₂ EnvKey done earlier)
    (unlike : earlier.Pairwise fun a b => sameName le a b = false) :
    Meets (envKeys host earlier rest) (fun keys => List.Forall₂ EnvKey (done ++ rest) keys ∧
        keys.Pairwise fun a b => sameName le a b = false) (EnvFault host le cap (some words)) := by
  induction rest generalizing done earlier with
  | nil =>
    rw [List.append_nil]
    exact .pure ⟨read, unlike⟩
  | cons key rest ih =>
    have member : key ∈ (envPairs words).map Prod.fst := words_keys ▸ List.mem_append_right _ List.mem_cons_self
    obtain ⟨value, pair⟩ := mem_envPairs_fst member
    rw [envKeys]
    by_cases bad : key.contains 0 = true ∨ key = [] ∨ key.contains 0x3D = true
    · rw [if_pos bad]
      refine envFail_meets (.key pair fun ⟨name, ⟨noNul, nonempty, noEquals⟩, _⟩ => ?_)
      rcases bad with nul | empty | equals
      · exact noNul (List.contains_iff_mem.mp nul)
      · exact nonempty empty
      · exact noEquals (List.contains_iff_mem.mp equals)
    rw [if_neg bad]
    have valid : 0 ∉ key ∧ key ≠ [] ∧ 0x3D ∉ key :=
      ⟨fun nul => bad (.inl (List.contains_iff_mem.mpr nul)), fun empty => bad (.inr (.inl empty)),
        fun equals => bad (.inr (.inr (List.contains_iff_mem.mpr equals)))⟩
    cases memory : host.alloc (.key earlier.length) with
    | false =>
      have below : earlier.length < (envPairs words).length := by
        rw [← List.length_map Prod.fst, words_keys, ← read.length_eq, List.length_append]
        exact Nat.lt_add_of_pos_right (Nat.succ_pos _)
      exact envFail_meets (.memory (.key _) below memory)
    | true =>
      cases converted : mtUtf8ToWide true key with
      | none =>
        refine envFail_meets (.key pair fun ⟨name, _, read⟩ => ?_)
        rw [converted] at read
        cases read
      | some name =>
        have here : EnvKey key name := ⟨valid, converted⟩
        have read' : List.Forall₂ EnvKey (done ++ [key]) (earlier ++ [name]) :=
          List.rel_append read (.cons here .nil)
        refine ((envUnlike_meets ordinal name earlier).mono (fun _ => id) ?_).bind fun _ others => ?_
        · rintro (⟨e, inside, same⟩ | fails)
          · obtain ⟨key', inside', valid'⟩ := forall₂_mem_right read inside
            have both : [key', key].Sublist (done ++ key :: rest) :=
              (List.singleton_sublist.mpr inside').append (List.singleton_sublist.mpr List.mem_cons_self)
            exact .same (words_keys ▸ both) valid' here same
          · have named : ∀ name' ∈ earlier ++ [name], EnvNamed host words name' := by
              refine fun name' inside => EnvNamed.override read' ?_ inside
              rw [words_keys]
              exact List.append_subset.mpr ⟨List.subset_append_left _ _,
                List.cons_subset.mpr ⟨List.mem_append_right _ List.mem_cons_self, List.nil_subset _⟩⟩
            refine EnvFault.incomparable named (fails.mono ?_)
            exact List.cons_subset.mpr ⟨List.mem_append_right _ List.mem_cons_self, List.subset_append_left _ _⟩
        · have next := ih (done ++ [key]) (earlier ++ [name]) (by rw [words_keys, List.append_assoc]; rfl) read'
            (List.pairwise_append.mpr ⟨unlike, List.pairwise_singleton _ _, fun a inside b same => by
              rw [List.mem_singleton.mp same]
              exact others a inside⟩)
          rwa [List.append_assoc] at next

theorem EnvKey.noEquals {key : Bytes} {name : List UInt16} (valid : EnvKey key name) : wideEquals ∉ name :=
  fun member =>
  valid.1.2.2 (mtUtf8ToWide_ascii valid.2 member (by decide))

theorem EnvKey.nonempty {key : Bytes} {name : List UInt16} (valid : EnvKey key name) : name ≠ [] := by
  have plain : cString key = key := List.takeWhile_eq_self_iff.mpr fun c member =>
    bne_iff_ne.mpr fun nul => valid.1.1 (nul ▸ member)
  have read := (mtUtf8ToWide_eq_some valid.2).2
  rw [plain] at read
  exact Utf8.toUnits_ne_nil read valid.1.2.1

theorem takeWhile_until {stop : UInt16} {l : List UInt16} (absent : stop ∉ l) (rest : List UInt16) :
    (l ++ stop :: rest).takeWhile (fun u => u != stop) = l := by
  have plain : ∀ u ∈ l, (u != stop) = true := by
    intro u member
    refine bne_iff_ne.mpr fun same => absent ?_
    rwa [← same]
  have ends : (stop :: rest).head?.any (fun u => u != stop) = false := bne_self_eq_false stop
  exact (takeWhile_append_stop plain ends).1

/-- The name of an override is the name of its entry. -/
theorem envNameLen_added {name : List UInt16} (nonempty : name ≠ []) (noEquals : wideEquals ∉ name)
    (text : List UInt16) : envNameLen (name ++ wideEquals :: text) = name.length := by
  cases name with
  | nil => exact absurd rfl nonempty
  | cons unit rest =>
    have other : unit ≠ wideEquals := fun same => noEquals (same ▸ List.mem_cons_self)
    change (if unit = wideEquals then _ else _) = _
    rw [if_neg other]
    exact congrArg List.length (takeWhile_until noEquals text)

theorem envValues_meets (j : Nat) (pairs : List (List UInt16 × Bytes))
    (room : j + pairs.length ≤ (envPairs words).length)
    (known : ∀ p ∈ pairs, ∃ key, (key, p.2) ∈ envPairs words ∧ EnvKey key p.1) :
    Meets (envValues host cap j pairs) (List.Forall₂ (fun p item =>
        ∃ text, EnvValue p.2 text ∧ item = envItem (p.1 ++ wideEquals :: text)) pairs)
      (EnvFault host le cap (some words)) := by
  induction pairs generalizing j with
  | nil => exact .pure .nil
  | cons p rest ih =>
    obtain ⟨name, value⟩ := p
    obtain ⟨⟨key, pair, valid⟩, others⟩ := List.forall_mem_cons.mp known
    rw [List.length_cons] at room
    have below : j < (envPairs words).length := by omega
    rw [envValues]
    by_cases nul : value.contains 0 = true
    · rw [if_pos nul]
      exact envFail_meets (.value pair fun ⟨_, noNul, _⟩ => noNul (List.contains_iff_mem.mp nul))
    rw [if_neg nul]
    cases memory : host.alloc (.value j) with
    | false => exact envFail_meets (.memory (.value j) below memory)
    | true =>
      cases converted : mtUtf8ToWide true value with
      | none =>
        refine envFail_meets (.value pair fun ⟨text, _, read⟩ => ?_)
        rw [converted] at read
        cases read
      | some text =>
        have here : EnvValue value text := ⟨fun inside => nul (List.contains_iff_mem.mpr inside), converted⟩
        dsimp only
        by_cases large : cap ≤ name.length ∨ cap ≤ text.length ∨ cap < name.length + text.length + 2
        · rw [if_pos large]
          exact envFail_meets (.large pair valid here (show cap < name.length + text.length + 2 by omega))
        rw [if_neg large]
        by_cases memory' : host.alloc (.entry j) = false
        · rw [if_pos memory']
          exact envFail_meets (.memory (.entry j) below memory')
        · rw [if_neg memory']
          refine (ih (j + 1) (by omega) others).bind fun items read => .pure (.cons ⟨text, here, ?_⟩ read)
          rw [envItem, envNameLen_added valid.nonempty valid.noEquals]

theorem envOverrides_of {pairs : List (Bytes × Bytes)} {names : List (List UInt16)} {items : List EnvItem}
    (keys : List.Forall₂ EnvKey (pairs.map Prod.fst) names)
    (values : List.Forall₂ (fun p item => ∃ text, EnvValue p.2 text ∧ item = envItem (p.1 ++ wideEquals :: text))
      (names.zip (pairs.map Prod.snd)) items) :
    ∃ overrides : List (List UInt16 × List UInt16),
      List.Forall₂ (fun pair override => EnvKey pair.1 override.1 ∧ EnvValue pair.2 override.2) pairs overrides ∧
        overrides.map Prod.fst = names ∧ items = (envAdded overrides).map envItem := by
  induction pairs generalizing names items with
  | nil =>
    cases keys
    cases values
    exact ⟨[], .nil, rfl, rfl⟩
  | cons pair pairs ih =>
    cases keys with
    | cons key keys =>
      cases values with
      | cons value values =>
        obtain ⟨text, read, rfl⟩ := value
        obtain ⟨overrides, all, rfl, rfl⟩ := ih keys values
        exact ⟨(_, text) :: overrides, .cons ⟨key, read⟩ all, rfl, rfl⟩

/-- The entries, each with its terminator. -/
def envText (entries : List (List UInt16)) : List UInt16 := entries.flatMap fun entry => entry ++ [0]

theorem envText_length (entries : List (List UInt16)) :
    (envText entries).length = (entries.map fun entry => entry.length + 1).sum := by
  rw [envText, List.length_flatMap]
  simp only [List.length_append, List.length_singleton]

theorem envEmit_meets (items : List EnvItem) (block : List UInt16) (fits : block.length ≤ cap) :
    Meets (envEmit cap block items)
      (fun out => out = block ++ envText (items.map EnvItem.text) ∧ out.length ≤ cap)
      (cap < (block ++ envText (items.map EnvItem.text)).length) := by
  induction items generalizing block with
  | nil => exact .pure ⟨(List.append_nil _).symm, fits⟩
  | cons item items ih =>
    have shape : block ++ envText ((item :: items).map EnvItem.text) =
        block ++ item.text ++ [0] ++ envText (items.map EnvItem.text) := by
      simp [envText, List.append_assoc]
    rw [envEmit, shape]
    by_cases large : cap ≤ block.length ∨ cap - block.length - 1 < item.text.length
    · rw [if_pos large]
      refine envFail_meets ?_
      simp only [List.length_append, List.length_singleton]
      omega
    · rw [if_neg large]
      refine ih _ ?_
      simp only [List.length_append, List.length_singleton]
      omega

/-- A block reads back as the entries that were written. -/
theorem envEntries_envText {entries : List (List UInt16)} (whole : ∀ entry ∈ entries, entry ≠ [] ∧ 0 ∉ entry)
    (rest : List UInt16) : envEntries (envText entries ++ 0 :: rest) = entries := by
  induction entries with
  | nil =>
    rw [envEntries]
    rfl
  | cons entry entries ih =>
    obtain ⟨⟨nonempty, noNul⟩, others⟩ := List.forall_mem_cons.mp whole
    have shape : envText (entry :: entries) ++ 0 :: rest = entry ++ 0 :: (envText entries ++ 0 :: rest) := by
      simp [envText, List.append_assoc]
    have past : (entry ++ 0 :: (envText entries ++ 0 :: rest)).drop (entry.length + 1) =
      envText entries ++ 0 :: rest := by
      rw [← List.drop_drop, List.drop_left]
      rfl
    rw [shape, envEntries, takeWhile_until noNul, if_neg nonempty, past, ih others]

theorem envEntries_mem {block entry : List UInt16} (member : entry ∈ envEntries block) :
    entry ≠ [] ∧ 0 ∉ entry := by
  induction block using envEntries.induct with
  | case1 block empty =>
    rw [envEntries, if_pos empty] at member
    cases member
  | case2 block nonempty ih =>
    rw [envEntries, if_neg nonempty] at member
    rcases List.mem_cons.mp member with rfl | later
    · refine ⟨nonempty, fun inside => ?_⟩
      exact absurd (List.mem_takeWhile_imp inside) (by decide)
    · exact ih later

theorem envMerged_mem {inherited : List UInt16} {overrides : List (List UInt16 × List UInt16)}
    (all : EnvOverrides words overrides) {entry : List UInt16} (member : entry ∈ envMerged le inherited overrides) :
    entry ≠ [] ∧ 0 ∉ entry := by
  rcases List.mem_append.mp member with kept | added
  · exact envEntries_mem (List.mem_of_mem_filter kept)
  · obtain ⟨override, inside, rfl⟩ := List.mem_map.mp added
    obtain ⟨pair, _, key, value⟩ := forall₂_mem_right all inside
    refine ⟨List.append_ne_nil_of_left_ne_nil key.nonempty _, fun nul => ?_⟩
    rcases List.mem_append.mp nul with inName | later
    · exact mtUtf8ToWide_noNul key.2 inName
    · rcases List.mem_cons.mp later with equals | inText
      · exact absurd equals (by decide)
      · exact mtUtf8ToWide_noNul value.2 inText

/-- The block that `CreateProcess` gets: the merged entries in order of
their names, those of one name as they were inherited. -/
structure EnvBlock (le : List UInt16 → List UInt16 → Bool) (cap : Nat) (inherited : List UInt16)
    (overrides : List (List UInt16 × List UInt16)) (block : List UInt16) : Prop where
  entries : (envEntries block).Perm (envMerged le inherited overrides)
  ordered : (envEntries block).Pairwise fun a b => le (envName a) (envName b) = true
  stable : ∀ name, (envEntries block).filter (fun entry => sameName le name (envName entry)) =
    (envMerged le inherited overrides).filter fun entry => sameName le name (envName entry)
  text : block = envText (envEntries block) ++ List.replicate (if (envEntries block).length = 0 then 2 else 1) 0
  closed : [0, 0] <:+ block
  fits : block.length ≤ cap

theorem envText_closed (entries : List (List UInt16)) :
    [0, 0] <:+ envText entries ++ List.replicate (if entries.length = 0 then 2 else 1) 0 := by
  rcases List.eq_nil_or_concat entries with rfl | ⟨before, last, rfl⟩
  · exact List.suffix_refl _
  · refine ⟨envText before ++ last, ?_⟩
    simp [envText, List.append_assoc]

theorem mem_zip_values {pairs : List (Bytes × Bytes)} {names : List (List UInt16)}
    (keys : List.Forall₂ EnvKey (pairs.map Prod.fst) names) :
    ∀ p ∈ names.zip (pairs.map Prod.snd), ∃ key, (key, p.2) ∈ pairs ∧ EnvKey key p.1 := by
  induction pairs generalizing names with
  | nil =>
    cases keys
    exact List.forall_mem_nil _
  | cons pair pairs ih =>
    cases keys with
    | cons key keys =>
      refine List.forall_mem_cons.mpr ⟨⟨pair.1, List.mem_cons_self, key⟩, fun p member => ?_⟩
      obtain ⟨key', inside, valid⟩ := ih keys p member
      exact ⟨key', List.mem_cons_of_mem _ inside, valid⟩

theorem envMerged_names {inherited : List UInt16} {overrides : List (List UInt16 × List UInt16)}
    (all : EnvOverrides words overrides) : ((envMerged le inherited overrides).map envItem).map EnvItem.name ⊆
      overrides.map Prod.fst ++ (envEntries inherited).map envName := by
  intro name member
  obtain ⟨_, inside, rfl⟩ := List.mem_map.mp member
  obtain ⟨entry, merged, rfl⟩ := List.mem_map.mp inside
  rcases List.mem_append.mp merged with kept | added
  · exact List.mem_append_right _ (List.mem_map_of_mem (List.mem_of_mem_filter kept))
  · obtain ⟨override, chosen, rfl⟩ := List.mem_map.mp added
    obtain ⟨pair, _, key, _⟩ := forall₂_mem_right all chosen
    have name : (envItem (override.1 ++ wideEquals :: override.2)).name = override.1 := by
      rw [EnvItem.name, envItem, envNameLen_added key.nonempty key.noEquals, List.take_left]
    rw [name]
    exact List.mem_append_left _ (List.mem_map_of_mem chosen)

theorem envText_size {entries merged : List (List UInt16)} (perm : entries.Perm merged) :
    (envText entries).length + (if entries.length = 0 then 2 else 1) = envSize merged := by
  rw [envText_length, envSize, perm.length_eq, (perm.map fun entry => entry.length + 1).sum_nat]

theorem EnvBlock.of_entries {inherited : List UInt16} {overrides : List (List UInt16 × List UInt16)}
    {entries : List (List UInt16)} (all : EnvOverrides words overrides)
    (perm : entries.Perm (envMerged le inherited overrides))
    (ordered : entries.Pairwise fun a b => le (envName a) (envName b) = true)
    (stable : ∀ name, entries.filter (fun entry => sameName le name (envName entry)) =
      (envMerged le inherited overrides).filter fun entry => sameName le name (envName entry))
    (fits : (envText entries ++ List.replicate (if entries.length = 0 then 2 else 1) 0).length ≤ cap) :
    EnvBlock le cap inherited overrides
      (envText entries ++ List.replicate (if entries.length = 0 then 2 else 1) 0) := by
  have reads : envEntries (envText entries ++ List.replicate (if entries.length = 0 then 2 else 1) 0) =
    entries := by
    have whole : ∀ entry ∈ entries, entry ≠ [] ∧ 0 ∉ entry := fun entry member =>
      envMerged_mem all (perm.subset member)
    split
    · exact envEntries_envText whole [0]
    · exact envEntries_envText whole []
  refine ⟨?_, ?_, ?_, ?_, envText_closed entries, fits⟩
  · rwa [reads]
  · rwa [reads]
  · rwa [reads]
  · rw [reads]

/-- The items sorted are the merged entries sorted. -/
theorem StablySorted.entries {merged : List (List UInt16)} {sorted : List EnvItem}
    (stably : StablySorted le (merged.map envItem) sorted) :
    (sorted.map EnvItem.text).Perm merged ∧
      (sorted.map EnvItem.text).Pairwise (fun a b => le (envName a) (envName b) = true) ∧
      ∀ name, (sorted.map EnvItem.text).filter (fun entry => sameName le name (envName entry)) =
        merged.filter fun entry => sameName le name (envName entry) := by
  have texts : (merged.map envItem).map EnvItem.text = merged := by
    rw [List.map_map]
    exact List.map_id _
  have items : ∀ x ∈ sorted, envName x.text = x.name := by
    intro x member
    obtain ⟨entry, _, rfl⟩ := List.mem_map.mp (stably.perm.subset member)
    rfl
  refine ⟨texts ▸ stably.perm.map EnvItem.text, ?_, fun name => ?_⟩
  · rw [List.pairwise_map]
    refine stably.ordered.imp_of_mem fun {a b} inside inside' order => ?_
    rw [items a inside, items b inside']
    exact order
  · have left : (sorted.map EnvItem.text).filter (fun entry => sameName le name (envName entry)) =
        (sorted.filter fun x => sameName le name x.name).map EnvItem.text := by
      rw [List.filter_map]
      refine congrArg _ (List.filter_congr fun x member => ?_)
      rw [Function.comp_apply, items x member]
    have right : merged.filter (fun entry => sameName le name (envName entry)) =
        ((merged.map envItem).filter fun x => sameName le name x.name).map EnvItem.text := by
      rw [List.filter_map, List.map_map]
      exact (List.map_id _).symm
    rw [left, right, stably.stable]

/-- The environment block: either a fault, or a block within the capacity
with exactly the inherited entries that no override names and one entry for
each override, in order. -/
theorem buildEnvBlock_meets (ordinal : OrdinalNames host le) (pairs : Option (List Bytes)) (cap : Nat) :
    Meets (buildEnvBlock host pairs cap) (fun block => ∃ words inherited overrides, pairs = some words ∧
        words.length % 2 = 0 ∧ host.inherited = some inherited ∧ EnvOverrides words overrides ∧
        (overrides.map Prod.fst).Pairwise (fun a b => sameName le a b = false) ∧
        EnvBlock le cap inherited overrides block) (EnvFault host le cap pairs) := by
  cases pairs with
  | none => exact envFail_meets .list
  | some words =>
    rw [buildEnvBlock]
    by_cases odd : words.length % 2 ≠ 0
    · rw [if_pos odd]
      exact envFail_meets (.odd odd)
    rw [if_neg odd]
    by_cases many : cIntMax < words.length / 2
    · rw [if_pos many]
      exact envFail_meets (.many many)
    rw [if_neg many]
    by_cases memory : host.alloc .keys = false
    · rw [if_pos memory]
      exact envFail_meets (.memory .keys trivial memory)
    rw [if_neg memory]
    refine (@envKeys_meets host le cap words ordinal [] _ [] rfl .nil .nil).bind fun keys read => ?_
    obtain ⟨read, unlike⟩ := read
    rw [List.nil_append] at read
    cases block : host.inherited with
    | none => exact envFail_meets (.inherited block)
    | some inherited =>
      dsimp only
      by_cases count : sizeMax - keys.length < (envEntries inherited).length
      · rw [if_pos count]
        have same : keys.length = (envPairs words).length := by rw [← read.length_eq, List.length_map]
        exact envFail_meets (.count block (same ▸ count))
      rw [if_neg count]
      by_cases memory' : host.alloc .items = false
      · rw [if_pos memory']
        exact envFail_meets (.memory .items trivial memory')
      rw [if_neg memory']
      have faults : Incomparable host (keys ++ (envEntries inherited).map envName) →
          EnvFault host le cap (some words) := by
        refine EnvFault.incomparable fun name member => ?_
        rcases List.mem_append.mp member with inKeys | inEntries
        · exact EnvNamed.override read (List.Subset.refl _) inKeys
        · exact .inr ⟨inherited, block, inEntries⟩
      refine ((envInherited_meets ordinal keys (envEntries inherited)).mono (fun _ => id) faults).bind
        fun kept same => ?_
      subst same
      have room : 0 + (keys.zip ((envPairs words).map Prod.snd)).length ≤ (envPairs words).length := by
        rw [List.length_zip, List.length_map, Nat.zero_add]
        exact Nat.min_le_right _ _
      refine (envValues_meets 0 _ room (mem_zip_values read)).bind fun items values => ?_
      obtain ⟨overrides, all, rfl, rfl⟩ := envOverrides_of read values
      rw [← List.map_append]
      have start : StablySorted le [] ([] : List EnvItem).reverse := ⟨.nil, .nil, fun _ => rfl⟩
      refine ((envSort_meets ordinal [] [] _ start).mono (fun _ => id) ?_).bind fun sorted stably => ?_
      · rw [List.nil_append]
        exact fun fails => faults (fails.mono (envMerged_names all))
      rw [List.nil_append] at stably
      change StablySorted le ((envMerged le inherited overrides).map envItem) sorted at stably
      obtain ⟨perm, ordered, stable⟩ := stably.entries
      have size := envText_size perm
      rw [List.length_map] at size
      refine ((envEmit_meets sorted [] (Nat.zero_le cap)).mono (fun _ => id) fun large => ?_).bind
        fun out written => ?_
      · refine .block block all ?_
        rw [← size]
        rw [List.nil_append] at large
        omega
      · obtain ⟨rfl, fits⟩ := written
        rw [List.nil_append] at fits ⊢
        rw [envClose]
        by_cases full : cap - (envText (sorted.map EnvItem.text)).length < if sorted.length = 0 then 2 else 1
        · rw [if_pos full]
          exact envFail_meets (.block block all (by omega))
        · rw [if_neg full, ← List.length_map EnvItem.text]
          refine .pure ⟨words, inherited, overrides, rfl, by omega, rfl, all, unlike, ?_⟩
          refine .of_entries all perm ordered stable ?_
          rw [List.length_append, List.length_replicate, List.length_map]
          omega

end

def asciiUpper (name : List UInt16) : List Nat :=
  name.map fun u => if 0x61 ≤ u.toNat ∧ u.toNat ≤ 0x7A then u.toNat - 0x20 else u.toNat

def asciiLe (a b : List UInt16) : Bool := (compare (asciiUpper a) (asciiUpper b)).isLE

/-- A host that compares ASCII names and inherits a drive's directory. -/
def envSampleHost : EnvHost where
  inherited := some [0x3D, 0x43, 0x3A, 0x3D, 0x43, 0, 0x61, 0x3D, 0x31, 0, 0]
  alloc _ := true
  compare _ a b := if asciiLe a b then if asciiLe b a then cstrEqual else 1 else cstrGreaterThan

theorem envSample_ordinal : OrdinalNames envSampleHost asciiLe where
  total a b := by
    unfold asciiLe
    have swapped : compare (asciiUpper b) (asciiUpper a) = _ := Std.OrientedCmp.eq_swap
    rw [swapped]
    cases compare (asciiUpper a) (asciiUpper b)
    · exact .inl rfl
    · exact .inl rfl
    · exact .inr rfl
  trans _ _ _ below above := Std.TransCmp.isLE_trans below above
  equal n a b _ := by
    simp only [envSampleHost]
    cases asciiLe a b <;> cases asciiLe b a <;> decide
  greater n a b _ := by
    simp only [envSampleHost]
    cases asciiLe a b <;> cases asciiLe b a <;> decide

theorem buildEnvBlock_meets_sample : Meets (buildEnvBlock envSampleHost (some [ascii "A", ascii "2"]) 64)
    (fun block => ∃ words inherited overrides, some [ascii "A", ascii "2"] = some words ∧ words.length % 2 = 0 ∧
      envSampleHost.inherited = some inherited ∧ EnvOverrides words overrides ∧
      (overrides.map Prod.fst).Pairwise (fun a b => sameName asciiLe a b = false) ∧
      EnvBlock asciiLe 64 inherited overrides block)
    (EnvFault envSampleHost asciiLe 64 (some [ascii "A", ascii "2"])) :=
  buildEnvBlock_meets envSample_ordinal _ _

end Machteld
