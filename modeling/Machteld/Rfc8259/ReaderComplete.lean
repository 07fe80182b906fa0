import Machteld.Rfc8259.ReaderSound

namespace Machteld.Rfc8259

theorem skipWs_cons {c : UInt8} (plain : ¬ IsWs c) (s : Bytes) : skipWs (c :: s) = c :: s := by
  simp [skipWs, plain]

theorem Ws.skip {w : Bytes} (ws : Ws w) (s : Bytes) : skipWs (w ++ s) = skipWs s :=
  List.dropWhile_append_of_pos fun c member => decide_eq_true (ws c member)

/-- What may follow a number: not a character the number could go on with.
-/
def Stops (rest : Bytes) : Prop := ∀ c s, rest = c :: s → ¬ IsNumberChar c

/-- What follows an item of a container. -/
def AtPunctuation (rest : Bytes) : Prop := ∃ c s, rest = c :: s ∧ (c = 0x2C ∨ c = 0x5D ∨ c = 0x7D)

theorem IsWs.not_number {c : UInt8} (ws : IsWs c) : ¬ IsNumberChar c := by
  rcases ws with rfl | rfl | rfl | rfl <;> decide

theorem AtPunctuation.skip {rest : Bytes} (punctuation : AtPunctuation rest) : skipWs rest = rest := by
  obtain ⟨c, s, rfl, rfl | rfl | rfl⟩ := punctuation <;> exact skipWs_cons (by decide) s

/-- A number ends where white space or punctuation follows. -/
theorem AtPunctuation.stops {rest : Bytes} (punctuation : AtPunctuation rest) {w : Bytes} (ws : Ws w) :
    Stops (w ++ rest) := by
  intro c s same
  cases w with
  | nil =>
    obtain ⟨d, t, rfl, isMark⟩ := punctuation
    obtain ⟨rfl, _⟩ := List.cons.inj same
    rcases isMark with rfl | rfl | rfl <;> decide
  | cons d w =>
    obtain ⟨rfl, _⟩ := List.cons.inj same
    exact (ws _ (List.mem_cons_self ..)).not_number

theorem readHex4_complete {a b c d : UInt8} {n : Nat} (value : hex4 a b c d = some n) (rest : Bytes) :
    readHex4 (a :: b :: c :: d :: rest) = some (n, rest) := by
  simp [readHex4, value]

theorem readEscape_short {e v : UInt8} (known : shortEscape e = some v) (rest : Bytes) :
    readEscape (e :: rest) = some ([v], rest) := by
  have other : e ≠ 0x75 := by
    rintro rfl
    cases known
  simp [readEscape, other, known]

theorem readEscape_unicode {a b c d : UInt8} {n : Nat} (value : hex4 a b c d = some n)
    (scalar : ¬ Utf8.IsSurrogate n) (rest : Bytes) :
    readEscape (0x75 :: a :: b :: c :: d :: rest) = some (Utf8.encode n, rest) := by
  have notHigh : ¬ (0xD800 ≤ n ∧ n < 0xDC00) := fun bad => scalar ⟨bad.1, by omega⟩
  simp only [readEscape, if_pos, readHex4_complete value, Option.bind_some, if_neg notHigh, if_neg scalar]

theorem readEscape_pair {a b c d a' b' c' d' : UInt8} {hi lo : Nat} (high : hex4 a b c d = some hi)
    (isHigh : 0xD800 ≤ hi ∧ hi < 0xDC00) (low : hex4 a' b' c' d' = some lo) (isLow : 0xDC00 ≤ lo ∧ lo < 0xE000)
    (rest : Bytes) :
    readEscape (0x75 :: a :: b :: c :: d :: backslash :: 0x75 :: a' :: b' :: c' :: d' :: rest) =
      some (Utf8.encode (0x10000 + (hi - 0xD800) * 1024 + (lo - 0xDC00)), rest) := by
  simp only [readEscape, if_pos, readHex4_complete high, Option.bind_some, if_pos isHigh, readLow, and_self,
    readHex4_complete low, if_pos isLow]

/-- Every spelling of a string is read back as its text, up to the closing quote.
-/
theorem Chars.read {raw text : Bytes} (chars : Chars raw text) {k : Nat} (enough : raw.length < k) (rest : Bytes) :
    readChars k (raw ++ dquote :: rest) = some (text, rest) := by
  have slashNotQuote : backslash ≠ dquote := by decide
  induction chars generalizing k with
  | nil =>
    obtain ⟨k, rfl⟩ := Nat.exists_eq_succ_of_ne_zero (Nat.ne_of_gt enough)
    simp [readChars]
  | @plain c raw text high notQuote notSlash chars ih =>
    obtain ⟨k, rfl⟩ := Nat.exists_eq_succ_of_ne_zero (Nat.ne_of_gt (Nat.zero_lt_of_lt enough))
    have later := ih (k := k) (by simp only [List.length_cons] at enough; omega)
    simp only [List.cons_append, readChars, if_neg notQuote, if_neg notSlash, if_neg (Nat.not_lt.mpr high), later,
      Option.map_some]
  | @short e v raw text known chars ih =>
    obtain ⟨k, rfl⟩ := Nat.exists_eq_succ_of_ne_zero (Nat.ne_of_gt (Nat.zero_lt_of_lt enough))
    have later := ih (k := k) (by simp only [List.length_cons] at enough; omega)
    simp only [List.cons_append, readChars, if_neg slashNotQuote, if_pos, readEscape_short known, Option.bind_some,
      later, Option.map_some, List.nil_append]
  | @unicode a b c d n raw text value scalar chars ih =>
    obtain ⟨k, rfl⟩ := Nat.exists_eq_succ_of_ne_zero (Nat.ne_of_gt (Nat.zero_lt_of_lt enough))
    have later := ih (k := k) (by simp only [List.length_cons] at enough; omega)
    simp only [List.cons_append, readChars, if_neg slashNotQuote, if_pos, readEscape_unicode value scalar,
      Option.bind_some, later, Option.map_some]
  | @pair a b c d a' b' c' d' hi lo raw text high isHigh low isLow chars ih =>
    obtain ⟨k, rfl⟩ := Nat.exists_eq_succ_of_ne_zero (Nat.ne_of_gt (Nat.zero_lt_of_lt enough))
    have later := ih (k := k) (by simp only [List.length_cons] at enough; omega)
    simp only [List.cons_append, readChars, if_neg slashNotQuote, if_pos, readEscape_pair high isHigh low isLow,
      Option.bind_some, later, Option.map_some]

theorem Quoted.read {text s : Bytes} (quoted : Quoted text s) (rest : Bytes) :
    ∃ inside, s ++ rest = dquote :: inside ∧ readChars (inside.length + 1) inside = some (text, rest) := by
  obtain ⟨raw, rfl, chars⟩ := quoted
  refine ⟨raw ++ dquote :: rest, by simp, chars.read ?_ rest⟩
  simp only [List.length_append]
  omega

/-- A name with white space around it is read up to what follows its colon.
-/
theorem readName_complete {key name : Bytes} (padded : Padded (Quoted key) name) (rest : Bytes) :
    ∃ s, skipWs (name ++ 0x3A :: rest) = dquote :: s ∧ readName (dquote :: s) = some (key, skipWs rest) := by
  obtain ⟨before, core, after, rfl, wsBefore, quoted, wsAfter⟩ := padded
  obtain ⟨inside, same, read⟩ := quoted.read (after ++ 0x3A :: rest)
  have start : skipWs (before ++ (core ++ after) ++ 0x3A :: rest) = dquote :: inside := by
    rw [List.append_assoc, wsBefore.skip, List.append_assoc, same, skipWs_cons (by decide)]
  refine ⟨inside, start, ?_⟩
  simp only [readName, if_pos, read, Option.bind_some, wsAfter.skip, skipWs_cons (show ¬ IsWs 0x3A by decide)]

theorem readWord_complete (word : Bytes) (t : Json) (rest : Bytes) :
    readWord word t (word ++ rest) = some (t, rest) := by
  simp [readWord]

section

variable {isNumber : Bytes → Bool}

/-- The longest run of number characters is the number itself. -/
theorem takeWhile_number {s rest : Bytes} (chars : ∀ c ∈ s, IsNumberChar c) (stops : Stops rest) :
    ((s ++ rest).takeWhile fun c => decide (IsNumberChar c)) = s ∧
      ((s ++ rest).dropWhile fun c => decide (IsNumberChar c)) = rest := by
  have all : ∀ c ∈ s, decide (IsNumberChar c) = true := fun c member => decide_eq_true (chars c member)
  refine takeWhile_append_stop all ?_
  cases rest with
  | nil => rfl
  | cons c rest => exact decide_eq_false (stops c rest rfl)

theorem readNumber_complete (exact : ∀ s, isNumber s = true ↔ Number s) {s rest : Bytes} (number : Number s)
    (stops : Stops rest) : readNumber isNumber (s ++ rest) = some (.number s, rest) := by
  obtain ⟨taken, dropped⟩ := takeWhile_number number.chars.2 stops
  simp only [readNumber, taken, dropped, if_pos ((exact s).mpr number)]

/-- The first byte tells the kinds of value apart. -/
theorem IsNumberChar.not_mark {c : UInt8} (char : IsNumberChar c) :
    c ≠ dquote ∧ c ≠ 0x5B ∧ c ≠ 0x7B ∧ c ≠ 0x6E ∧ c ≠ 0x74 ∧ c ≠ 0x66 ∧ c ≠ 0x5D ∧ ¬ IsWs c := by
  refine ⟨?_, ?_, ?_, ?_, ?_, ?_, ?_, fun ws => ws.not_number char⟩ <;> rintro rfl <;> exact absurd char (by decide)

/-- A value starts with a byte that is neither white space nor a closing bracket.
-/
theorem Value.head {t : Json} {s : Bytes} (value : Value t s) : ∃ c rest, s = c :: rest ∧ c ≠ 0x5D ∧ ¬ IsWs c := by
  cases t with
  | null => exact ⟨_, _, value, by decide, by decide⟩
  | bool b => cases b <;> exact ⟨_, _, value, by decide, by decide⟩
  | number literal =>
    obtain ⟨rfl, number⟩ := value
    obtain ⟨nonempty, chars⟩ := number.chars
    obtain ⟨c, rest, rfl⟩ := List.exists_cons_of_ne_nil nonempty
    have mark := (chars c (List.mem_cons_self ..)).not_mark
    exact ⟨c, rest, rfl, mark.2.2.2.2.2.2.1, mark.2.2.2.2.2.2.2⟩
  | string text =>
    obtain ⟨raw, rfl, _⟩ := value
    exact ⟨_, _, rfl, by decide, by decide⟩
  | array items =>
    obtain ⟨body, rfl, _⟩ := value
    exact ⟨_, _, rfl, by decide, by decide⟩
  | object members =>
    obtain ⟨body, rfl, _⟩ := value
    exact ⟨_, _, rfl, by decide, by decide⟩

/-- The reader gets every spelling of `t` that fits its bound. -/
def Reads (isNumber : Bytes → Bool) (t : Json) (k : Nat) : Prop :=
  ∀ s, Value t s → s.length ≤ k → ∀ rest, Stops rest → readValue isNumber k (s ++ rest) = some (t, rest)

/-- An item with its whitespace, up to the mark behind it. -/
theorem Reads.padded {t : Json} {k : Nat} (reads : Reads isNumber t k) {s : Bytes} (padded : Padded (Value t) s)
    (enough : s.length ≤ k) {rest : Bytes} (punctuation : AtPunctuation rest) :
    ∃ c tail after, skipWs (s ++ rest) = c :: tail ∧ c ≠ 0x5D ∧
      readValue isNumber k (c :: tail) = some (t, after) ∧ skipWs after = rest := by
  obtain ⟨before, core, after, rfl, wsBefore, value, wsAfter⟩ := padded
  obtain ⟨c, tail, rfl, notClosing, notWs⟩ := value.head
  refine ⟨c, tail ++ (after ++ rest), after ++ rest, ?_, notClosing, ?_, by rw [wsAfter.skip, punctuation.skip]⟩
  · rw [List.append_assoc, wsBefore.skip, List.append_assoc]
    exact skipWs_cons notWs _
  · have short : (c :: tail).length ≤ k := by simp only [List.length_append] at enough; omega
    exact reads _ value short _ (punctuation.stops wsAfter)

theorem MoreItems.punctuation {list : List Json} {more : Bytes} (inside : MoreItems list more) (rest : Bytes) :
    AtPunctuation (more ++ 0x5D :: rest) := by
  cases list with
  | nil =>
    obtain rfl : more = [] := inside
    exact ⟨_, _, rfl, by simp⟩
  | cons item list =>
    obtain ⟨first, later, rfl, _⟩ := inside
    exact ⟨_, _, rfl, by simp⟩

theorem MoreMembers.punctuation {list : List (Bytes × Json)} {more : Bytes} (inside : MoreMembers list more)
    (rest : Bytes) : AtPunctuation (more ++ 0x7D :: rest) := by
  cases list with
  | nil =>
    obtain rfl : more = [] := inside
    exact ⟨_, _, rfl, by simp⟩
  | cons member list =>
    obtain ⟨name, first, later, rfl, _⟩ := inside
    exact ⟨_, _, rfl, by simp⟩

theorem Padded.positive {t : Json} {s : Bytes} (padded : Padded (Value t) s) : 0 < s.length := by
  obtain ⟨before, core, after, rfl, _, value, _⟩ := padded
  obtain ⟨c, tail, rfl, _⟩ := value.head
  simp only [List.length_append, List.length_cons]
  omega

mutual

/-- Every text of a value is read as the value, whatever follows it, with
fuel for each byte. The induction is on the fuel, with a case for each kind
of value. -/
theorem readValue_complete (exact : ∀ s, isNumber s = true ↔ Number s) :
    ∀ (t : Json) (k : Nat), Reads isNumber t k
  | _, 0, s, value, enough, _, _ => by
    obtain ⟨c, tail, rfl, _⟩ := value.head
    simp at enough
  | .null, k + 1, s, value, _, rest, _ => by
    obtain rfl : s = ascii "null" := value
    exact readWord_complete (ascii "null") .null rest
  | .bool true, k + 1, s, value, _, rest, _ => by
    obtain rfl : s = ascii "true" := value
    exact readWord_complete (ascii "true") (.bool true) rest
  | .bool false, k + 1, s, value, _, rest, _ => by
    obtain rfl : s = ascii "false" := value
    exact readWord_complete (ascii "false") (.bool false) rest
  | .number literal, k + 1, s, value, _, rest, stops => by
    obtain ⟨rfl, number⟩ := value
    have read := readNumber_complete exact number stops
    obtain ⟨nonempty, chars⟩ := number.chars
    obtain ⟨c, tail, rfl⟩ := List.exists_cons_of_ne_nil nonempty
    obtain ⟨notQuote, notBracket, notBrace, notN, notT, notF, _⟩ := (chars c (List.mem_cons_self ..)).not_mark
    simp only [List.cons_append] at read
    simp only [List.cons_append, readValue, if_neg notQuote, if_neg notBracket, if_neg notBrace, if_neg notN,
      if_neg notT, if_neg notF, read]
  | .string text, k + 1, s, value, _, rest, _ => by
    obtain ⟨inside, same, read⟩ := Quoted.read value rest
    rw [same]
    simp only [readValue, if_pos, read, Option.map_some]
  | .array list, k + 1, s, value, enough, rest, _ => by
    obtain ⟨body, rfl, inside⟩ := value
    have short : body.length + 1 ≤ k := by
      simp only [List.length_cons, List.length_append, List.length_nil] at enough
      omega
    have read := readItems_complete exact list k body inside short rest
    have notQuote : (0x5B : UInt8) ≠ dquote := by decide
    simp only [List.cons_append, List.append_assoc, List.nil_append, readValue, if_neg notQuote, if_pos, read,
      Option.map_some]
  | .object list, k + 1, s, value, enough, rest, _ => by
    obtain ⟨body, rfl, inside⟩ := value
    have short : body.length + 1 ≤ k := by
      simp only [List.length_cons, List.length_append, List.length_nil] at enough
      omega
    have read := readMembers_complete exact list k body inside short rest
    have notQuote : (0x7B : UInt8) ≠ dquote := by decide
    have notBracket : (0x7B : UInt8) ≠ 0x5B := by decide
    simp only [List.cons_append, List.append_assoc, List.nil_append, readValue, if_neg notQuote, if_neg notBracket,
      if_pos, read, Option.map_some]

/-- The items up to the closing bracket, the first of them without a comma.
-/
theorem readItems_complete (exact : ∀ s, isNumber s = true ↔ Number s) :
    ∀ (list : List Json) (k : Nat) (body : Bytes), Items list body → body.length + 1 ≤ k → ∀ rest,
      readItems isNumber k (skipWs (body ++ 0x5D :: rest)) = some (list, rest)
  | _, 0, _, _, enough, _ => by simp at enough
  | [], k + 1, body, inside, _, rest => by
    rw [Ws.skip inside, skipWs_cons (by decide)]
    simp [readItems]
  | item :: list, k + 1, body, inside, enough, rest => by
    obtain ⟨first, more, rfl, padded, later⟩ := inside
    have positive := padded.positive
    simp only [List.length_append] at enough
    obtain ⟨c, tail, after, start, notClosing, head, mid⟩ :=
      (readValue_complete exact item k).padded padded (by omega) (later.punctuation rest)
    have tailRead := readMoreItems_complete exact list k more later (by omega) rest
    rw [List.append_assoc, start]
    simp only [readItems, if_neg notClosing, head, Option.bind_some, mid, tailRead, Option.map_some]

theorem readMoreItems_complete (exact : ∀ s, isNumber s = true ↔ Number s) :
    ∀ (list : List Json) (k : Nat) (more : Bytes), MoreItems list more → more.length + 1 ≤ k → ∀ rest,
      readMoreItems isNumber k (more ++ 0x5D :: rest) = some (list, rest)
  | _, 0, _, _, enough, _ => by simp at enough
  | [], k + 1, more, inside, _, rest => by
    obtain rfl : more = [] := inside
    simp [readMoreItems]
  | item :: list, k + 1, more, inside, enough, rest => by
    obtain ⟨first, more, rfl, padded, later⟩ := inside
    simp only [List.length_cons, List.length_append] at enough
    obtain ⟨c, tail, after, start, _, head, mid⟩ :=
      (readValue_complete exact item k).padded padded (by omega) (later.punctuation rest)
    have positive := padded.positive
    have tailRead := readMoreItems_complete exact list k more later (by omega) rest
    have notClosing : (0x2C : UInt8) ≠ 0x5D := by decide
    simp only [List.cons_append, List.append_assoc, readMoreItems, if_neg notClosing, if_pos, start, head,
      Option.bind_some, mid, tailRead, Option.map_some]

/-- The members up to the closing brace, the first of them without a comma.
-/
theorem readMembers_complete (exact : ∀ s, isNumber s = true ↔ Number s) :
    ∀ (list : List (Bytes × Json)) (k : Nat) (body : Bytes), Members list body → body.length + 1 ≤ k → ∀ rest,
      readMembers isNumber k (skipWs (body ++ 0x7D :: rest)) = some (list, rest)
  | _, 0, _, _, enough, _ => by simp at enough
  | [], k + 1, body, inside, _, rest => by
    rw [Ws.skip inside, skipWs_cons (by decide)]
    simp [readMembers]
  | (key, item) :: list, k + 1, body, inside, enough, rest => by
    obtain ⟨name, first, more, rfl, named, padded, later⟩ := inside
    simp only [List.length_append, List.length_cons] at enough
    obtain ⟨s, begins, readsName⟩ := readName_complete named (first ++ (more ++ 0x7D :: rest))
    obtain ⟨c, tail, after, start, _, head, mid⟩ :=
      (readValue_complete exact item k).padded padded (by omega) (later.punctuation rest)
    have tailRead := readMoreMembers_complete exact list k more later (by omega) rest
    have notClosing : dquote ≠ 0x7D := by decide
    have shape : name ++ 0x3A :: (first ++ more) ++ 0x7D :: rest =
        name ++ 0x3A :: (first ++ (more ++ 0x7D :: rest)) := by simp
    rw [shape, begins]
    simp only [readMembers, if_neg notClosing, readsName, start, Option.bind_some, head, mid, tailRead,
      Option.map_some]

theorem readMoreMembers_complete (exact : ∀ s, isNumber s = true ↔ Number s) :
    ∀ (list : List (Bytes × Json)) (k : Nat) (more : Bytes), MoreMembers list more → more.length + 1 ≤ k → ∀ rest,
      readMoreMembers isNumber k (more ++ 0x7D :: rest) = some (list, rest)
  | _, 0, _, _, enough, _ => by simp at enough
  | [], k + 1, more, inside, _, rest => by
    obtain rfl : more = [] := inside
    simp [readMoreMembers]
  | (key, item) :: list, k + 1, more, inside, enough, rest => by
    obtain ⟨name, first, more, rfl, named, padded, later⟩ := inside
    simp only [List.length_append, List.length_cons] at enough
    obtain ⟨s, begins, readsName⟩ := readName_complete named (first ++ (more ++ 0x7D :: rest))
    obtain ⟨c, tail, after, start, _, head, mid⟩ :=
      (readValue_complete exact item k).padded padded (by omega) (later.punctuation rest)
    have tailRead := readMoreMembers_complete exact list k more later (by omega) rest
    have notClosing : (0x2C : UInt8) ≠ 0x7D := by decide
    have shape : name ++ 0x3A :: (first ++ more) ++ 0x7D :: rest =
        name ++ 0x3A :: (first ++ (more ++ 0x7D :: rest)) := by simp
    rw [List.cons_append, shape]
    simp only [readMoreMembers, if_neg notClosing, if_pos, begins, readsName, start, Option.bind_some, head, mid,
      tailRead, Option.map_some]

end

theorem stops_of_ws {w : Bytes} (ws : Ws w) : Stops w := by
  rintro c s rfl
  exact (ws c (List.mem_cons_self ..)).not_number

/-- A text of a document is read as the document, the white space around it
included. -/
theorem readText_complete (exact : ∀ s, isNumber s = true ↔ Number s) {s : Bytes} {t : Json} (text : Text t s) :
    readText isNumber s = some t := by
  obtain ⟨whole, before, core, after, rfl, wsBefore, value, wsAfter⟩ := text
  have bound : core.length ≤ (before ++ (core ++ after)).length := by simp only [List.length_append]; omega
  have read := readValue_complete exact t _ core value bound after (stops_of_ws wsAfter)
  have start : skipWs (before ++ (core ++ after)) = core ++ after := by
    obtain ⟨c, tail, rfl, _, notWs⟩ := value.head
    rw [wsBefore.skip]
    exact skipWs_cons notWs _
  have finished : skipWs after = [] := by simpa [skipWs] using wsAfter.skip []
  simp only [readText, if_pos whole, start, read, Option.bind_some, finished, if_pos]

theorem readText_iff (exact : ∀ s, isNumber s = true ↔ Number s) (s : Bytes) (t : Json) :
    readText isNumber s = some t ↔ Text t s :=
  ⟨readText_sound exact, readText_complete exact⟩

end

end Machteld.Rfc8259
