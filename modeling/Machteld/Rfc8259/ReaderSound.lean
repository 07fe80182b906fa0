import Machteld.Rfc8259.Reader

namespace Machteld.Rfc8259

theorem skipWs_split (s : Bytes) : ∃ w, s = w ++ skipWs s ∧ Ws w := by
  refine ⟨s.takeWhile fun c => decide (IsWs c), List.takeWhile_append_dropWhile.symm, fun c member => ?_⟩
  have kept := List.mem_takeWhile_imp member
  exact of_decide_eq_true kept

theorem readHex4_sound {s rest : Bytes} {n : Nat} (read : readHex4 s = some (n, rest)) :
    ∃ a b c d, s = a :: b :: c :: d :: rest ∧ hex4 a b c d = some n := by
  unfold readHex4 at read
  split at read
  · rename_i a b c d s
    obtain ⟨m, value, same⟩ := Option.map_eq_some_iff.mp read
    simp only [Prod.mk.injEq] at same
    obtain ⟨rfl, rfl⟩ := same
    exact ⟨a, b, c, d, rfl, value⟩
  · cases read

/-- An escape that is read is one of the grammar, two of them where a
surrogate pair is spelled. -/
theorem readEscape_sound {s rest t : Bytes} (read : readEscape s = some (t, rest)) :
    ∃ used, s = used ++ rest ∧ ∀ raw text, Chars raw text → Chars (backslash :: (used ++ raw)) (t ++ text) := by
  cases s with
  | nil => cases read
  | cons e s =>
    simp only [readEscape] at read
    split_ifs at read with unicode
    · obtain ⟨⟨n, mid⟩, first, next⟩ := Option.bind_eq_some_iff.mp read
      obtain ⟨a, b, c, d, rfl, value⟩ := readHex4_sound first
      clear read
      split_ifs at next with isHigh surrogate
      · rcases mid with _ | ⟨x, _ | ⟨y, mid⟩⟩
        · cases next
        · cases next
        · simp only [readLow] at next
          split_ifs at next with mark
          obtain ⟨⟨lo, last⟩, second, final⟩ := Option.bind_eq_some_iff.mp next
          obtain ⟨a', b', c', d', rfl, low⟩ := readHex4_sound second
          clear next
          split_ifs at final with isLow
          simp only [Option.some.injEq, Prod.mk.injEq] at final
          obtain ⟨rfl, rfl⟩ := final
          obtain ⟨rfl, rfl⟩ := mark
          exact ⟨[e, a, b, c, d, backslash, 0x75, a', b', c', d'], rfl, fun raw text chars =>
            unicode ▸ Chars.pair value isHigh low isLow chars⟩
      · simp only [Option.some.injEq, Prod.mk.injEq] at next
        obtain ⟨rfl, rfl⟩ := next
        exact ⟨[e, a, b, c, d], rfl, fun raw text chars => unicode ▸ Chars.unicode value surrogate chars⟩
    · obtain ⟨v, known, same⟩ := Option.map_eq_some_iff.mp read
      simp only [Prod.mk.injEq] at same
      obtain ⟨rfl, rfl⟩ := same
      exact ⟨[e], rfl, fun raw text chars => Chars.short known chars⟩

/-- What is read as a string was spelled by the bytes up to the quote. -/
theorem readChars_sound {k : Nat} {s text rest : Bytes} (read : readChars k s = some (text, rest)) :
    ∃ raw, s = raw ++ dquote :: rest ∧ Chars raw text := by
  induction k generalizing s text rest with
  | zero => cases read
  | succ k ih =>
    match s with
    | c :: s =>
      simp only [readChars] at read
      split_ifs at read with quote slash low
      · simp only [Option.some.injEq, Prod.mk.injEq] at read
        obtain ⟨rfl, rfl⟩ := read
        exact ⟨[], by rw [quote]; rfl, Chars.nil⟩
      · obtain ⟨⟨t, mid⟩, escaped, read⟩ := Option.bind_eq_some_iff.mp read
        obtain ⟨⟨more, last⟩, later, same⟩ := Option.map_eq_some_iff.mp read
        simp only [Prod.mk.injEq] at same
        obtain ⟨rfl, rfl⟩ := same
        obtain ⟨used, rfl, spelled⟩ := readEscape_sound escaped
        obtain ⟨raw, rfl, chars⟩ := ih later
        exact ⟨backslash :: (used ++ raw), by rw [slash]; simp, spelled raw more chars⟩
      · obtain ⟨⟨more, last⟩, later, same⟩ := Option.map_eq_some_iff.mp read
        simp only [Prod.mk.injEq] at same
        obtain ⟨rfl, rfl⟩ := same
        obtain ⟨raw, rfl, chars⟩ := ih later
        exact ⟨c :: raw, rfl, Chars.plain (Nat.le_of_not_lt low) quote slash chars⟩

theorem readWord_sound {word s rest : Bytes} {t t' : Json} (read : readWord word t s = some (t', rest)) :
    t' = t ∧ s = word ++ rest := by
  unfold readWord at read
  split_ifs at read with starts
  simp only [Option.some.injEq, Prod.mk.injEq] at read
  obtain ⟨rfl, rfl⟩ := read
  obtain ⟨rest, rfl⟩ := starts
  exact ⟨rfl, by rw [List.drop_left]⟩

/-- What is read as a name stands before a colon. -/
theorem readName_sound {s key rest : Bytes} (read : readName s = some (key, rest)) :
    ∃ name w, s = name ++ 0x3A :: (w ++ rest) ∧ Padded (Quoted key) name ∧ Ws w := by
  cases s with
  | nil => cases read
  | cons c s =>
    simp only [readName] at read
    split_ifs at read with quote
    obtain ⟨⟨text, mid⟩, inside, next⟩ := Option.bind_eq_some_iff.mp read
    obtain ⟨raw, rfl, chars⟩ := readChars_sound inside
    obtain ⟨w, same, ws⟩ := skipWs_split mid
    clear read
    dsimp only at next
    cases later : skipWs mid with
    | nil =>
      rw [later] at next
      cases next
    | cons d tail =>
      rw [later] at next same
      dsimp only at next
      split_ifs at next with colon
      simp only [Option.some.injEq, Prod.mk.injEq] at next
      obtain ⟨rfl, rfl⟩ := next
      obtain ⟨w', same', ws'⟩ := skipWs_split tail
      refine ⟨dquote :: (raw ++ [dquote]) ++ w, w', ?_, ⟨[], _, w, rfl, .nil, ⟨raw, rfl, chars⟩, ws⟩, ws'⟩
      rw [← same', same, quote, colon]
      simp

/-- What each of the five readers promises of the bytes it has used. -/
structure Sound (isNumber : Bytes → Bool) (k : Nat) : Prop where
  value : ∀ {s t rest}, readValue isNumber k s = some (t, rest) → ∃ used, s = used ++ rest ∧ Value t used
  items : ∀ {s list rest}, readItems isNumber k s = some (list, rest) →
    ∃ body, s = body ++ 0x5D :: rest ∧ Items list body
  moreItems : ∀ {s list rest}, readMoreItems isNumber k s = some (list, rest) →
    ∃ more, s = more ++ 0x5D :: rest ∧ MoreItems list more
  members : ∀ {s list rest}, readMembers isNumber k s = some (list, rest) →
    ∃ body, s = body ++ 0x7D :: rest ∧ Members list body
  moreMembers : ∀ {s list rest}, readMoreMembers isNumber k s = some (list, rest) →
    ∃ more, s = more ++ 0x7D :: rest ∧ MoreMembers list more

section

variable {isNumber : Bytes → Bool}

theorem readNumber_sound (exact : ∀ s, isNumber s = true ↔ Number s) {s rest : Bytes} {t : Json}
    (read : readNumber isNumber s = some (t, rest)) : ∃ used, s = used ++ rest ∧ Value t used := by
  simp only [readNumber] at read
  split_ifs at read with number
  simp only [Option.some.injEq, Prod.mk.injEq] at read
  obtain ⟨rfl, rfl⟩ := read
  exact ⟨_, List.takeWhile_append_dropWhile.symm, rfl, (exact _).mp number⟩

theorem Sound.zero : Sound isNumber 0 := ⟨nofun, nofun, nofun, nofun, nofun⟩

/-- An array or an object is entered through the whitespace of its body. -/
theorem enter_items {list : List Json} {s body rest : Bytes} (split : skipWs s = body ++ 0x5D :: rest)
    (inside : Items list body) : ∃ body, s = body ++ 0x5D :: rest ∧ Items list body := by
  obtain ⟨w, same, ws⟩ := skipWs_split s
  refine ⟨w ++ body, by rw [same, split, List.append_assoc], ?_⟩
  match list, inside with
  | [], inside => exact List.forall_mem_append.mpr ⟨ws, inside⟩
  | item :: list, inside =>
    obtain ⟨_, more, rfl, ⟨before, core, after, rfl, wsBefore, value, wsAfter⟩, later⟩ := inside
    exact ⟨w ++ (before ++ (core ++ after)), more, by simp,
      ⟨w ++ before, core, after, by simp, List.forall_mem_append.mpr ⟨ws, wsBefore⟩, value, wsAfter⟩, later⟩

/-- White space behind an opening brace belongs to the members. -/
theorem enter_members {list : List (Bytes × Json)} {s body rest : Bytes} (split : skipWs s = body ++ 0x7D :: rest)
    (inside : Members list body) : ∃ body, s = body ++ 0x7D :: rest ∧ Members list body := by
  obtain ⟨w, same, ws⟩ := skipWs_split s
  refine ⟨w ++ body, by rw [same, split, List.append_assoc], ?_⟩
  match list, inside with
  | [], inside => exact List.forall_mem_append.mpr ⟨ws, inside⟩
  | (key, item) :: list, inside =>
    obtain ⟨_, first, more, rfl, ⟨before, core, after, rfl, wsBefore, quoted, wsAfter⟩, later⟩ := inside
    exact ⟨w ++ (before ++ (core ++ after)), first, more, by simp,
      ⟨w ++ before, core, after, by simp, List.forall_mem_append.mpr ⟨ws, wsBefore⟩, quoted, wsAfter⟩, later⟩

/-- What a reader with more fuel reads as a value was spelled by the bytes
it has used, where the reader of its parts is sound. This is the step of the
induction on the fuel. -/
theorem Sound.value_succ (exact : ∀ s, isNumber s = true ↔ Number s) {k : Nat} (sound : Sound isNumber k)
    {s rest : Bytes} {t : Json} (read : readValue isNumber (k + 1) s = some (t, rest)) :
    ∃ used, s = used ++ rest ∧ Value t used := by
  match s with
  | c :: s =>
    simp only [readValue] at read
    split_ifs at read with quote bracket brace
    · obtain ⟨⟨text, last⟩, inside, same⟩ := Option.map_eq_some_iff.mp read
      simp only [Prod.mk.injEq] at same
      obtain ⟨rfl, rfl⟩ := same
      obtain ⟨raw, rfl, chars⟩ := readChars_sound inside
      exact ⟨dquote :: (raw ++ [dquote]), by simp [quote], raw, rfl, chars⟩
    · obtain ⟨⟨list, last⟩, inside, same⟩ := Option.map_eq_some_iff.mp read
      simp only [Prod.mk.injEq] at same
      obtain ⟨rfl, rfl⟩ := same
      obtain ⟨core, split, spelled⟩ := sound.items inside
      obtain ⟨body, rfl, all⟩ := enter_items split spelled
      exact ⟨0x5B :: (body ++ [0x5D]), by simp [bracket], body, rfl, all⟩
    · obtain ⟨⟨list, last⟩, inside, same⟩ := Option.map_eq_some_iff.mp read
      simp only [Prod.mk.injEq] at same
      obtain ⟨rfl, rfl⟩ := same
      obtain ⟨core, split, spelled⟩ := sound.members inside
      obtain ⟨body, rfl, all⟩ := enter_members split spelled
      exact ⟨0x7B :: (body ++ [0x7D]), by simp [brace], body, rfl, all⟩
    all_goals first
      | exact readNumber_sound exact read
      | obtain ⟨rfl, whole⟩ := readWord_sound read
        exact ⟨_, whole, rfl⟩

/-- A value, the whitespace behind it and the rest of its container. -/
theorem Sound.item {k : Nat} (sound : Sound isNumber k) {s mid : Bytes} {item : Json}
    (read : readValue isNumber k s = some (item, mid)) :
    ∃ first, s = first ++ skipWs mid ∧ ∀ w, Ws w → Padded (Value item) (w ++ first) := by
  obtain ⟨used, same, value⟩ := sound.value read
  obtain ⟨after, split, ws⟩ := skipWs_split mid
  refine ⟨used ++ after, ?_, fun w wsBefore => ⟨w, used, after, rfl, wsBefore, value, ws⟩⟩
  rw [same]
  calc used ++ mid = used ++ (after ++ skipWs mid) := by rw [← split]
    _ = used ++ after ++ skipWs mid := (List.append_assoc ..).symm

/-- The same for the items behind an opening bracket. -/
theorem Sound.items_succ {k : Nat} (sound : Sound isNumber k) {s rest : Bytes} {list : List Json}
    (read : readItems isNumber (k + 1) s = some (list, rest)) :
    ∃ body, s = body ++ 0x5D :: rest ∧ Items list body := by
  match s with
  | c :: s =>
    simp only [readItems] at read
    split_ifs at read with closing
    · simp only [Option.some.injEq, Prod.mk.injEq] at read
      obtain ⟨rfl, rfl⟩ := read
      exact ⟨[], by rw [closing]; rfl, Ws.nil⟩
    · obtain ⟨⟨item, mid⟩, head, read⟩ := Option.bind_eq_some_iff.mp read
      obtain ⟨⟨tail, last⟩, later, same⟩ := Option.map_eq_some_iff.mp read
      simp only [Prod.mk.injEq] at same
      obtain ⟨rfl, rfl⟩ := same
      obtain ⟨first, split, padded⟩ := sound.item head
      obtain ⟨more, rest', spelled⟩ := sound.moreItems later
      exact ⟨first ++ more, by rw [split, rest', List.append_assoc], first, more, rfl, padded [] .nil, spelled⟩

/-- The same for the items behind a comma. -/
theorem Sound.moreItems_succ {k : Nat} (sound : Sound isNumber k) {s rest : Bytes} {list : List Json}
    (read : readMoreItems isNumber (k + 1) s = some (list, rest)) :
    ∃ more, s = more ++ 0x5D :: rest ∧ MoreItems list more := by
  match s with
  | c :: s =>
    simp only [readMoreItems] at read
    split_ifs at read with closing comma
    · simp only [Option.some.injEq, Prod.mk.injEq] at read
      obtain ⟨rfl, rfl⟩ := read
      exact ⟨[], by rw [closing]; rfl, rfl⟩
    · obtain ⟨⟨item, mid⟩, head, read⟩ := Option.bind_eq_some_iff.mp read
      obtain ⟨⟨tail, last⟩, later, same⟩ := Option.map_eq_some_iff.mp read
      simp only [Prod.mk.injEq] at same
      obtain ⟨rfl, rfl⟩ := same
      obtain ⟨w, outer, ws⟩ := skipWs_split s
      obtain ⟨first, split, padded⟩ := sound.item head
      obtain ⟨more, rest', spelled⟩ := sound.moreItems later
      refine ⟨0x2C :: (w ++ first ++ more), ?_, w ++ first, more, rfl, padded w ws, spelled⟩
      rw [outer, split, rest', comma]
      simp

/-- The same for the members behind an opening brace. -/
theorem Sound.members_succ {k : Nat} (sound : Sound isNumber k) {s rest : Bytes} {list : List (Bytes × Json)}
    (read : readMembers isNumber (k + 1) s = some (list, rest)) :
    ∃ body, s = body ++ 0x7D :: rest ∧ Members list body := by
  match s with
  | c :: s =>
    simp only [readMembers] at read
    split_ifs at read with closing
    · simp only [Option.some.injEq, Prod.mk.injEq] at read
      obtain ⟨rfl, rfl⟩ := read
      exact ⟨[], by rw [closing]; rfl, Ws.nil⟩
    · obtain ⟨⟨key, start⟩, name, read⟩ := Option.bind_eq_some_iff.mp read
      obtain ⟨⟨item, mid⟩, head, read⟩ := Option.bind_eq_some_iff.mp read
      obtain ⟨⟨tail, last⟩, later, same⟩ := Option.map_eq_some_iff.mp read
      simp only [Prod.mk.injEq] at same
      obtain ⟨rfl, rfl⟩ := same
      obtain ⟨named, w, outer, quoted, ws⟩ := readName_sound name
      obtain ⟨first, split, padded⟩ := sound.item head
      obtain ⟨more, rest', spelled⟩ := sound.moreMembers later
      dsimp only at split rest'
      refine ⟨named ++ 0x3A :: (w ++ first ++ more), ?_, named, w ++ first, more, rfl, quoted, padded w ws, spelled⟩
      rw [outer, split, rest']
      simp

/-- The same for the members behind a comma. -/
theorem Sound.moreMembers_succ {k : Nat} (sound : Sound isNumber k) {s rest : Bytes} {list : List (Bytes × Json)}
    (read : readMoreMembers isNumber (k + 1) s = some (list, rest)) :
    ∃ more, s = more ++ 0x7D :: rest ∧ MoreMembers list more := by
  match s with
  | c :: s =>
    simp only [readMoreMembers] at read
    split_ifs at read with closing comma
    · simp only [Option.some.injEq, Prod.mk.injEq] at read
      obtain ⟨rfl, rfl⟩ := read
      exact ⟨[], by rw [closing]; rfl, rfl⟩
    · obtain ⟨⟨key, start⟩, name, read⟩ := Option.bind_eq_some_iff.mp read
      obtain ⟨⟨item, mid⟩, head, read⟩ := Option.bind_eq_some_iff.mp read
      obtain ⟨⟨tail, last⟩, later, same⟩ := Option.map_eq_some_iff.mp read
      simp only [Prod.mk.injEq] at same
      obtain ⟨rfl, rfl⟩ := same
      obtain ⟨v, outermost, wsName⟩ := skipWs_split s
      obtain ⟨named, w, outer, ⟨before, core, after, rfl, wsBefore, quoted, wsAfter⟩, ws⟩ := readName_sound name
      obtain ⟨first, split, padded⟩ := sound.item head
      obtain ⟨more, rest', spelled⟩ := sound.moreMembers later
      dsimp only at split rest'
      refine ⟨0x2C :: (v ++ (before ++ (core ++ after)) ++ 0x3A :: (w ++ first ++ more)), ?_,
        v ++ (before ++ (core ++ after)), w ++ first, more, rfl,
        ⟨v ++ before, core, after, by simp, List.forall_mem_append.mpr ⟨wsName, wsBefore⟩, quoted, wsAfter⟩,
        padded w ws, spelled⟩
      rw [outermost, outer, split, rest', comma]
      simp

theorem sound (exact : ∀ s, isNumber s = true ↔ Number s) (k : Nat) : Sound isNumber k := by
  induction k with
  | zero => exact Sound.zero
  | succ k ih =>
    exact ⟨ih.value_succ exact, ih.items_succ, ih.moreItems_succ, ih.members_succ, ih.moreMembers_succ⟩

/-- Whatever the reader returns, the text spells it. -/
theorem readText_sound (exact : ∀ s, isNumber s = true ↔ Number s) {s : Bytes} {t : Json}
    (read : readText isNumber s = some t) : Text t s := by
  unfold readText at read
  split_ifs at read with whole
  obtain ⟨⟨tree, rest⟩, head, read⟩ := Option.bind_eq_some_iff.mp read
  dsimp only at read
  split_ifs at read with finished
  obtain rfl := Option.some.inj read
  obtain ⟨before, outer, wsBefore⟩ := skipWs_split s
  obtain ⟨used, split, value⟩ := (sound exact _).value head
  obtain ⟨after, inner, wsAfter⟩ := skipWs_split rest
  rw [finished, List.append_nil] at inner
  exact ⟨whole, before, used, after, by rw [outer, split, inner], wsBefore, value, wsAfter⟩

end

end Machteld.Rfc8259
