import Machteld.Log.Write

namespace Machteld

/-- Where a reader of the fields is. -/
inductive LogPlace
  | gap
  | key (k : Bytes)
  | value (k : Bytes)
  | word (k v : Bytes)
  | quoted (k v : Bytes)
  | escape (k v : Bytes)

/-- A reader of what stands behind the message: a key goes up to the first
equals sign, and a value is spelled as `LogQuote` spells it. -/
def logReadFrom : LogPlace → Bytes → Option (List (Bytes × Bytes))
  | .gap, [] => some []
  | .word k v, [] => some [(k, v)]
  | _, [] => none
  | .gap, c :: s => if c = space then logReadFrom (.key []) s else none
  | .key k, c :: s => if c = 0x3D then logReadFrom (.value k) s else logReadFrom (.key (k ++ [c])) s
  | .value k, c :: s => if c = dquote then logReadFrom (.quoted k []) s else logReadFrom (.word k [c]) s
  | .word k v, c :: s =>
    if c = space then (logReadFrom (.key []) s).map ((k, v) :: ·) else logReadFrom (.word k (v ++ [c])) s
  | .quoted k v, c :: s =>
    if c = backslash then logReadFrom (.escape k v) s
    else if c = dquote then (logReadFrom .gap s).map ((k, v) :: ·)
    else logReadFrom (.quoted k (v ++ [c])) s
  | .escape k v, c :: s => logReadFrom (.quoted k (v ++ [c])) s

def logRead (text : Bytes) : Option (List (Bytes × Bytes)) := logReadFrom .gap text

variable {k v : Bytes} {pairs : List (Bytes × Bytes)}

theorem logReadFrom_key (k : Bytes) {name : Bytes} (plain : 0x3D ∉ name) (s : Bytes) :
    logReadFrom (.key k) (name ++ 0x3D :: s) = logReadFrom (.value (k ++ name)) s := by
  induction name generalizing k with
  | nil => rw [List.append_nil, List.nil_append, logReadFrom, if_pos rfl]
  | cons c name ih =>
    obtain ⟨other, later⟩ := List.ne_and_not_mem_of_not_mem_cons plain
    rw [List.cons_append, logReadFrom, if_neg other.symm, ih _ later, List.append_assoc]
    rfl

theorem logReadFrom_quoted (k v : Bytes) (text s : Bytes) : logReadFrom (.quoted k v)
    ((text.flatMap fun c => if c = backslash ∨ c = dquote then [backslash, c] else [c]) ++ dquote :: s) =
      (logReadFrom .gap s).map ((k, v ++ text) :: ·) := by
  induction text generalizing v with
  | nil =>
    rw [List.flatMap_nil, List.nil_append, logReadFrom, if_neg (by decide), if_pos rfl, List.append_nil]
  | cons c text ih =>
    rw [List.flatMap_cons, List.append_assoc]
    by_cases escaped : c = backslash ∨ c = dquote
    · rw [if_pos escaped, List.cons_append, logReadFrom, if_pos rfl, List.cons_append, logReadFrom,
        List.nil_append, ih,
        List.append_assoc]
      rfl
    · rw [if_neg escaped, List.cons_append, List.nil_append, logReadFrom, if_neg fun same => escaped (.inl same),
        if_neg fun same => escaped (.inr same), ih, List.append_assoc]
      rfl

/-- What follows a field: nothing, or a space. -/
def LogEnds (s : Bytes) : Prop := s = [] ∨ ∃ rest, s = space :: rest

theorem logReadFrom_word (k v : Bytes) {text s : Bytes} (plain : space ∉ text) (ends : LogEnds s) :
    logReadFrom (.word k v) (text ++ s) = (logReadFrom .gap s).map ((k, v ++ text) :: ·) := by
  induction text generalizing v with
  | nil =>
    rw [List.nil_append, List.append_nil]
    rcases ends with rfl | ⟨rest, rfl⟩
    · rfl
    · rw [logReadFrom, if_pos rfl, logReadFrom, if_pos rfl]
  | cons c text ih =>
    obtain ⟨other, later⟩ := List.ne_and_not_mem_of_not_mem_cons plain
    rw [List.cons_append, logReadFrom, if_neg other.symm, ih _ later, List.append_assoc]
    rfl

/-- A value is told apart from the field behind it. -/
theorem logReadFrom_value (k v : Bytes) {s : Bytes} (ends : LogEnds s) :
    logReadFrom (.value k) (logQuote v ++ s) = (logReadFrom .gap s).map ((k, v) :: ·) := by
  unfold logQuote
  by_cases empty : v = []
  · subst empty
    rw [if_pos rfl, List.cons_append, logReadFrom, if_pos rfl]
    exact logReadFrom_quoted k [] [] s
  rw [if_neg empty]
  by_cases marked : (v.any fun c => c == space || c == dquote || c == tab) = true
  · rw [if_pos marked, List.cons_append, List.cons_append, logReadFrom, if_pos rfl, List.append_assoc]
    exact logReadFrom_quoted k [] v s
  · rw [if_neg marked]
    have plain : ∀ c ∈ v, c ≠ space ∧ c ≠ dquote := by
      intro c member
      refine ⟨fun same => marked ?_, fun same => marked ?_⟩
      · exact List.any_eq_true.mpr ⟨c, member, by simp [same]⟩
      · exact List.any_eq_true.mpr ⟨c, member, by simp [same]⟩
    cases v with
    | nil => exact absurd rfl empty
    | cons c v =>
      rw [List.cons_append, logReadFrom, if_neg (plain c (List.mem_cons_self ..)).2]
      exact logReadFrom_word k [c] (fun bad => (plain space (List.mem_cons_of_mem c bad)).1 rfl) ends

theorem logFields_ends (pairs : List (Bytes × Bytes)) : LogEnds (logFields pairs) := by
  cases pairs with
  | nil => exact .inl rfl
  | cons p pairs => exact .inr ⟨_, rfl⟩

theorem logFields_cons (p : Bytes × Bytes) (pairs : List (Bytes × Bytes)) :
    logFields (p :: pairs) = space :: (p.1 ++ 0x3D :: (logQuote p.2 ++ logFields pairs)) := by
  simp [logFields]

/-- Whatever is read from within a field belongs to its key. -/
theorem logReadFrom_first {place : LogPlace} (inside : ∃ v, place = .value k ∨ place = .word k v ∨
      place = .quoted k v ∨ place = .escape k v)
    {s : Bytes} {read : List (Bytes × Bytes)} (passed : logReadFrom place s = some read) :
    ∃ v later, read = (k, v) :: later := by
  induction s generalizing place with
  | nil =>
    obtain ⟨v, rfl | rfl | rfl | rfl⟩ := inside
    · cases passed
    · exact ⟨v, [], (Option.some.inj passed).symm⟩
    · cases passed
    · cases passed
  | cons c s ih =>
    obtain ⟨v, rfl | rfl | rfl | rfl⟩ := inside
    · rw [logReadFrom] at passed
      split_ifs at passed
      · exact ih ⟨[], .inr (.inr (.inl rfl))⟩ passed
      · exact ih ⟨[c], .inr (.inl rfl)⟩ passed
    · rw [logReadFrom] at passed
      split_ifs at passed
      · obtain ⟨later, -, rfl⟩ := Option.map_eq_some_iff.mp passed
        exact ⟨v, later, rfl⟩
      · exact ih ⟨v ++ [c], .inr (.inl rfl)⟩ passed
    · rw [logReadFrom] at passed
      split_ifs at passed
      · exact ih ⟨v, .inr (.inr (.inr rfl))⟩ passed
      · obtain ⟨later, -, rfl⟩ := Option.map_eq_some_iff.mp passed
        exact ⟨v, later, rfl⟩
      · exact ih ⟨v ++ [c], .inr (.inr (.inl rfl))⟩ passed
    · exact ih ⟨v ++ [c], .inr (.inr (.inl rfl))⟩ passed

/-- The fields can be read where no key has an equals sign in it, and only
there. -/
theorem logRead_logFields_iff : logRead (logFields pairs) = some pairs ↔ ∀ p ∈ pairs, 0x3D ∉ p.1 := by
  induction pairs with
  | nil => exact iff_of_true rfl (List.forall_mem_nil _)
  | cons p pairs ih =>
    rw [List.forall_mem_cons, logFields_cons, logRead, logReadFrom, if_pos rfl]
    by_cases plain : 0x3D ∉ p.1
    · rw [logReadFrom_key [] plain, List.nil_append, logReadFrom_value p.1 p.2
        (logFields_ends pairs), ← ih, logRead]
      cases logReadFrom .gap (logFields pairs) with
      | none => simp
      | some read => simp [plain]
    · refine iff_of_false (fun read => ?_) fun all => plain all.1
      obtain ⟨front, back, split, bare⟩ := List.eq_append_cons_of_mem (not_not.mp plain)
      rw [split, List.append_assoc, List.cons_append, logReadFrom_key [] bare, List.nil_append] at read
      obtain ⟨v, later, same⟩ := logReadFrom_first ⟨[], .inl rfl⟩ read
      have key : p.1 = front := congrArg Prod.fst (List.cons.inj same).1
      have shorter := congrArg List.length (key.symm.trans split)
      rw [List.length_append, List.length_cons] at shorter
      omega

/-- `LogQuote` tells values apart. -/
theorem logQuote_injective {v w : Bytes} (same : logQuote v = logQuote w) : v = w := by
  have first := logReadFrom_value [] v (.inl rfl)
  rw [same, logReadFrom_value [] w (.inl rfl)] at first
  cases first
  rfl

theorem mem_logQuote {c : UInt8} (other : c ≠ backslash ∧ c ≠ dquote) : c ∈ logQuote v ↔ c ∈ v := by
  unfold logQuote
  by_cases empty : v = []
  · subst empty
    simp [other.2]
  rw [if_neg empty]
  split_ifs
  · have inner : (c ∈ v.flatMap fun d => if d = backslash ∨ d = dquote then [backslash, d] else [d]) ↔ c ∈ v := by
      rw [List.mem_flatMap]
      constructor
      · rintro ⟨d, member, inside⟩
        split_ifs at inside with escaped
        · rcases List.mem_cons.mp inside with rfl | inside
          · exact absurd rfl other.1
          · exact List.mem_singleton.mp inside ▸ member
        · exact List.mem_singleton.mp inside ▸ member
      · intro member
        refine ⟨c, member, ?_⟩
        rw [if_neg (not_or.mpr other)]
        exact List.mem_singleton_self c
    rw [List.cons_append, List.mem_cons, List.mem_append, inner, List.mem_singleton]
    simp [other.2]
  · rfl

theorem lf_notMem_logFields : lf ∉ logFields pairs ↔ ∀ p ∈ pairs, lf ∉ p.1 ∧ lf ∉ p.2 := by
  induction pairs with
  | nil => exact iff_of_true List.not_mem_nil (List.forall_mem_nil _)
  | cons p pairs ih =>
    have quote : lf ∈ logQuote p.2 ↔ lf ∈ p.2 := mem_logQuote (by decide)
    have apart : lf ≠ space ∧ lf ≠ 0x3D := by decide
    rw [logFields_cons, List.forall_mem_cons, ← ih]
    simp only [List.mem_cons, List.mem_append, quote, apart.1, apart.2, false_or, not_or]
    tauto

theorem zeroPadded_plain (width n : Nat) : lf ∉ zeroPadded width n := by
  unfold zeroPadded
  rw [List.mem_append]
  rintro (zeros | digit)
  · exact absurd (List.eq_of_mem_replicate zeros) (by decide)
  · obtain ⟨d, inside, same⟩ := List.mem_map.mp digit
    have shown := digit_byte (Nat.isDigit_of_mem_toDigits (by decide) (by decide) inside)
    have digit := Char.isDigit_iff_toNat.mp (Nat.isDigit_of_mem_toDigits (by decide) (by decide) inside)
    have ten := congrArg UInt8.toNat same
    rw [shown.1] at ten
    have low : '0'.toNat = 48 := rfl
    have value : lf.toNat = 10 := rfl
    omega

theorem logHead_plain {level : Bytes} (known : level ∈ logLevels) (t : LocalTime) : lf ∉ logHead t level := by
  have word : lf ∉ logLevelWord level := by
    simp only [logLevels, List.map_cons, List.map_nil, List.mem_cons, List.not_mem_nil, or_false] at known
    rcases known with rfl | rfl | rfl | rfl <;> decide
  have apart : lf ≠ 0x2D ∧ lf ≠ 0x54 ∧ lf ≠ 0x3A ∧ lf ≠ 0x2E ∧ lf ≠ space := by decide
  simp only [logHead, logStamp, List.mem_append, List.mem_cons, List.not_mem_nil, zeroPadded_plain, word, apart,
    or_false, not_false_iff]

/-- A text that is one line, with fields that can be read behind the
message. -/
structure LogRecord (t : LocalTime) (level msg : Bytes) (pairs : List (Bytes × Bytes)) (text : Bytes) : Prop where
  line : ∃ body, text = body ++ [lf] ∧ lf ∉ body
  read : ∃ tail, text = logHead t level ++ (msg ++ (tail ++ [lf])) ∧ logRead tail = some pairs

/-- No line breaks, and no equals sign in a key. -/
def LogPlain (msg : Bytes) (pairs : List (Bytes × Bytes)) : Prop :=
  lf ∉ msg ∧ ∀ p ∈ pairs, lf ∉ p.1 ∧ lf ∉ p.2 ∧ 0x3D ∉ p.1

/-- Values are told apart by their spelling, and a call that passes writes
one readable record where no text it is given has a line break in it and no
key an equals sign, and only there. -/
theorem logWrite_record_iff {sink : Bytes → Bytes → Bool} {t : LocalTime} {s : LogState} {level msg : Bytes}
    {fields : List Bytes}
    (known : level ∈ logLevels) (even : fields.length % 2 = 0)
    (wrote : (logWrite sink t s level msg fields).1 = 1) :
    Function.Injective logQuote ∧ ∃ text, logWrite sink t s level msg fields = (1, s, some text) ∧
      (LogRecord t level msg (logPairs fields) text ↔ LogPlain msg (logPairs fields)) := by
  refine ⟨fun v w => logQuote_injective, ?_⟩
  unfold logWrite at wrote ⊢
  by_cases below : logRank level < logRank s.level
  · rw [if_pos below] at wrote
    cases wrote
  rw [if_neg below] at wrote ⊢
  dsimp only at wrote ⊢
  cases taken : sink (logChan s) (logLine t level msg fields ++ [lf]) with
  | false =>
    rw [taken, if_neg Bool.false_ne_true] at wrote
    cases wrote
  | true =>
    rw [if_pos rfl]
    refine ⟨_, rfl, ?_⟩
    have shape : logLine t level msg fields ++ [lf] = logHead t level ++
      (msg ++ (logFields (logPairs fields) ++ [lf])) := by
      rw [logLine, logTail, if_pos even, List.append_assoc, List.append_assoc]
    have whole : lf ∉ logLine t level msg fields ↔ lf ∉ msg ∧ ∀ p ∈ logPairs fields, lf ∉ p.1 ∧ lf ∉ p.2 := by
      rw [logLine, logTail, if_pos even, List.mem_append, List.mem_append, ← lf_notMem_logFields]
      simp only [logHead_plain known t, false_or, not_or]
    constructor
    · rintro ⟨⟨body, same, plain⟩, tail, same', read⟩
      rw [← List.append_cancel_right same, whole] at plain
      rw [shape] at same'
      have same' := List.append_cancel_right (List.append_cancel_left (List.append_cancel_left same'))
      rw [← same', logRead_logFields_iff] at read
      exact ⟨plain.1, fun p member => ⟨(plain.2 p member).1, (plain.2 p member).2, read p member⟩⟩
    · intro plain
      refine ⟨⟨_, rfl, whole.mpr ⟨plain.1, fun p member => ⟨(plain.2 p member).1, (plain.2 p member).2.1⟩⟩⟩, _,
        shape, ?_⟩
      exact logRead_logFields_iff.mpr fun p member => (plain.2 p member).2.2

/-- A sink that takes every text. -/
def openSink : Bytes → Bytes → Bool := fun _ _ => true

def sampleTime : LocalTime := ⟨2026, 1, 2, 3, 4, 5, 6⟩

theorem logWrite_record_sample :
    Function.Injective logQuote ∧ ∃ text, logWrite openSink sampleTime .start (ascii "info") (ascii "hello")
      [ascii "k", ascii "two words"] =
        (1, .start, some text) ∧
      (LogRecord sampleTime (ascii "info") (ascii "hello") (logPairs [ascii "k", ascii "two words"]) text ↔
        LogPlain (ascii "hello") (logPairs [ascii "k", ascii "two words"])) :=
  logWrite_record_iff (by decide) rfl rfl

/-- A value with a line break in it makes two lines. -/
theorem logWrite_two_lines :
    ∃ text, logWrite openSink sampleTime .start (ascii "info") (ascii "hello")
      [ascii "k", [0x61, lf, 0x62]] = (1, .start, some text) ∧
      ¬ LogRecord sampleTime (ascii "info") (ascii "hello") (logPairs [ascii "k", [0x61, lf, 0x62]]) text := by
  refine ⟨_, rfl, ?_⟩
  rintro ⟨⟨body, same, plain⟩, -⟩
  have inside : lf ∈ logLine sampleTime (ascii "info") (ascii "hello") [ascii "k", [0x61, lf, 0x62]] := by decide
  exact plain (List.append_cancel_right same ▸ inside)

end Machteld
