import Machteld.Json.FailClosed
import Machteld.Json.Line

namespace Machteld

open Rfc8259

/-- What the strict channel takes at a time: U+0000 or a scalar value. -/
def Piece (p : Bytes) : Prop := p = [0xC0, 0x80] ∨ ∃ n, Utf8.IsScalar n ∧ p = Utf8.encode n

/-- A string without unpaired surrogates, which the strict channel can
write. -/
inductive Writable : Bytes → Prop
  | nil : Writable []
  | cons {p rest : Bytes} (piece : Piece p) (later : Writable rest) : Writable (p ++ rest)

/-- `puts` of each text on a channel with `-translation lf`. -/
def sendLines (texts : List Bytes) : Option Bytes :=
  (texts.mapM channelWrite).map fun lines => lines.flatMap fun line => line ++ [lf]

/-- The lines `gets` finds in a stream up to its end. -/
def splitLines : Bytes → Bytes → List Bytes
  | line, [] => if line = [] then [] else [line]
  | line, c :: cs => if c = lf then line :: splitLines [] cs else splitLines (line ++ [c]) cs

/-- The loop of both ends: `gets` each line and leave out the empty ones. -/
def receiveLines (stream : Bytes) : Option (List Bytes) :=
  ((splitLines [] stream).mapM channelRead).map fun texts => texts.filter (· ≠ [])

/-- A piece of a writable string is an ASCII byte or has none in it. -/
theorem Piece.parts {p : Bytes} (piece : Piece p) :
    (∃ c : UInt8, c.toNat < 0x80 ∧ p = [c]) ∨ p ≠ [] ∧ ∀ c ∈ p, 0x80 ≤ c.toNat := by
  rcases piece with rfl | ⟨n, scalar, rfl⟩
  · have high : [0xC0, 0x80].all (fun c : UInt8 => decide (0x80 ≤ c.toNat)) = true := rfl
    exact Or.inr ⟨by decide, fun c member => of_decide_eq_true (List.all_eq_true.mp high c member)⟩
  · by_cases small : n < 0x80
    · exact Or.inl ⟨UInt8.ofNat n, by rw [Utf8.toNat_ofNat_lt (by omega)]; exact small, Utf8.encode_ascii small⟩
    · exact Or.inr ⟨Utf8.encode_ne_nil n, fun c member => Utf8.high_of_mem_encode (by omega) scalar.1 member⟩

theorem Piece.ascii {c : UInt8} (small : c.toNat < 0x80) : Piece [c] :=
  Or.inr ⟨c.toNat, ⟨by omega, fun surrogate => absurd surrogate.1 (by omega)⟩, by
    rw [Utf8.encode_ascii small, UInt8.ofNat_toNat]⟩

theorem Writable.append {a b : Bytes} (left : Writable a) (right : Writable b) : Writable (a ++ b) := by
  induction left with
  | nil => exact right
  | cons piece _ ih =>
    rw [List.append_assoc]
    exact .cons piece ih

theorem Writable.ascii {s : Bytes} (small : ∀ c ∈ s, c.toNat < 0x80) : Writable s := by
  induction s with
  | nil => exact .nil
  | cons c s ih =>
    obtain ⟨here, later⟩ := List.forall_mem_cons.mp small
    exact .cons (Piece.ascii here) (ih later)

/-- No piece goes across an ASCII byte. -/
theorem Writable.split {s : Bytes} (writable : Writable s) {a b : Bytes} {c : UInt8} (small : c.toNat < 0x80)
    (same : s = a ++ c :: b) : Writable a ∧ Writable (c :: b) := by
  induction writable generalizing a with
  | nil => simp at same
  | @cons p rest piece later ih =>
    rcases List.append_eq_append_iff.mp same with ⟨a', rfl, restSame⟩ | ⟨c', pSame, tailSame⟩
    · obtain ⟨left, right⟩ := ih restSame
      exact ⟨.cons piece left, right⟩
    · cases c' with
      | nil =>
        have whole : a = p := by simpa using pSame.symm
        have tail : c :: b = rest := by simpa using tailSame
        have single := Writable.cons piece .nil
        rw [List.append_nil] at single
        exact ⟨whole ▸ single, tail ▸ later⟩
      | cons d c'' =>
        obtain ⟨rfl, tailRest⟩ := List.cons.inj tailSame
        rcases piece.parts with ⟨e, _, single⟩ | ⟨_, high⟩
        · have parts : a = [] ∧ c :: c'' = [e] := by
            rw [single] at pSame
            cases a with
            | nil => exact ⟨rfl, pSame.symm⟩
            | cons f a => simp at pSame
          obtain ⟨rfl, parted⟩ := parts
          obtain ⟨rfl, rfl⟩ := List.cons.inj parted
          rw [tailRest]
          exact ⟨.nil, .cons (Piece.ascii small) later⟩
        · have inside : c ∈ p := by rw [pSame]; simp
          exact absurd (high c inside) (by omega)

theorem writable_append_iff {a b : Bytes} (boundary : Boundary b) :
    Writable (a ++ b) ↔ Writable a ∧ Writable b := by
  refine ⟨fun whole => ?_, fun both => both.1.append both.2⟩
  rcases boundary with rfl | ⟨c, rest, rfl, small⟩
  · rw [List.append_nil] at whole
    exact ⟨whole, .nil⟩
  · exact whole.split small rfl

/-- An ASCII byte in front changes nothing about whether a string can be written.
-/
theorem writable_cons_iff {c : UInt8} (small : c.toNat < 0x80) {s : Bytes} : Writable (c :: s) ↔ Writable s := by
  refine ⟨fun whole => ?_, fun later => .cons (Piece.ascii small) later⟩
  generalize same : c :: s = t at whole
  cases whole with
  | nil => cases same
  | @cons p rest piece later =>
    rcases piece.parts with ⟨e, _, rfl⟩ | ⟨nonempty, high⟩
    · obtain ⟨-, rfl⟩ := List.cons.inj same
      exact later
    · cases p with
      | nil => exact absurd rfl nonempty
      | cons d p =>
        obtain ⟨rfl, -⟩ := List.cons.inj same
        exact absurd (high c (List.mem_cons_self ..)) (by omega)

theorem writable_ascii_append {a : Bytes} (small : ∀ c ∈ a, c.toNat < 0x80) {s : Bytes} :
    Writable (a ++ s) ↔ Writable s := by
  induction a with
  | nil => rfl
  | cons c a ih =>
    obtain ⟨here, later⟩ := List.forall_mem_cons.mp small
    rw [List.cons_append, writable_cons_iff here, ih later]

theorem jsonEscape_high {c : UInt8} (high : 0x80 ≤ c.toNat) : jsonEscape c = [c] := by
  rcases jsonEscape_spelling.keeps c with same | ⟨small, -⟩
  · exact same
  · omega

theorem jsonEscape_ascii {c : UInt8} (small : c.toNat < 0x80) : ∀ d ∈ jsonEscape c, d.toNat < 0x80 := by
  rcases jsonEscape_spelling.keeps c with same | ⟨-, short⟩
  · rw [same]
    exact fun d member => List.mem_singleton.mp member ▸ small
  · exact short

/-- Escaping leaves every other byte in its place. -/
theorem jsonEscape_strip {p : Bytes} (high : ∀ c ∈ p, 0x80 ≤ c.toNat) {s rest : Bytes}
    (same : s.flatMap jsonEscape = p ++ rest) : ∃ s', s = p ++ s' ∧ s'.flatMap jsonEscape = rest := by
  induction p generalizing s with
  | nil => exact ⟨s, rfl, same⟩
  | cons c p ih =>
    obtain ⟨here, later⟩ := List.forall_mem_cons.mp high
    cases s with
    | nil => simp at same
    | cons d s =>
      rw [List.flatMap_cons] at same
      have large : 0x80 ≤ d.toNat := by
        by_contra small
        cases spelled : jsonEscape d with
        | nil => exact jsonEscape_ne_nil d spelled
        | cons e es =>
          rw [spelled] at same
          obtain ⟨rfl, -⟩ := List.cons.inj same
          have ascii := jsonEscape_ascii (c := d) (by omega) e (by rw [spelled]; exact List.mem_cons_self ..)
          omega
      rw [jsonEscape_high large] at same
      obtain ⟨rfl, tail⟩ := List.cons.inj same
      obtain ⟨s', rfl, rest'⟩ := ih later tail
      exact ⟨s', rfl, rest'⟩

/-- Escaping keeps a string writable. -/
theorem writable_escape {s : Bytes} (writable : Writable s) : Writable (s.flatMap jsonEscape) := by
  induction writable with
  | nil => exact .nil
  | @cons p rest piece _ ih =>
    rw [List.flatMap_append]
    rcases piece.parts with ⟨c, small, rfl⟩ | ⟨_, high⟩
    · rw [List.flatMap_singleton]
      exact (Writable.ascii (jsonEscape_ascii small)).append ih
    · have kept : p.flatMap jsonEscape = p := by
        have each : p.flatMap jsonEscape = p.flatMap fun c => [c] :=
          List.flatMap_congr fun c member => jsonEscape_high (high c member)
        rw [each, List.flatMap_singleton']
      rw [kept]
      exact .cons piece ih

/-- What makes a string unwritable is still there after escaping. -/
theorem writable_of_escape {k : Nat} : ∀ {s : Bytes}, s.length ≤ k → Writable (s.flatMap jsonEscape) →
    Writable s := by
  induction k with
  | zero =>
    intro s short _
    rw [List.length_eq_zero_iff.mp (Nat.le_zero.mp short)]
    exact .nil
  | succ k ih =>
    intro s short escaped
    cases s with
    | nil => exact .nil
    | cons c s =>
      have short : s.length ≤ k := by simpa using short
      rw [List.flatMap_cons] at escaped
      by_cases small : c.toNat < 0x80
      · rw [writable_ascii_append (jsonEscape_ascii small)] at escaped
        exact .cons (Piece.ascii small) (ih short escaped)
      · rw [jsonEscape_high (by omega)] at escaped
        generalize same : [c] ++ s.flatMap jsonEscape = t at escaped
        cases escaped with
        | nil => cases same
        | @cons p rest piece later =>
          rcases piece.parts with ⟨d, ascii, rfl⟩ | ⟨nonempty, high⟩
          · obtain ⟨rfl, -⟩ := List.cons.inj same
            exact absurd ascii small
          · cases p with
            | nil => exact absurd rfl nonempty
            | cons d p =>
              obtain ⟨rfl, tail⟩ := List.cons.inj same
              obtain ⟨s', rfl, rfl⟩ :=
                jsonEscape_strip (fun d member => high d (List.mem_cons_of_mem _ member)) tail
              have shorter : s'.length ≤ k := by
                simp only [List.length_append] at short
                omega
              exact .cons piece (ih shorter later)

theorem writable_jsonQuote {s : Bytes} : Writable (jsonQuote s) ↔ Writable s := by
  have closing : Boundary [dquote] := Or.inr ⟨dquote, [], rfl, by decide⟩
  rw [jsonQuote, writable_cons_iff (by decide), writable_append_iff closing]
  constructor
  · exact fun both => writable_of_escape (Nat.le_refl _) both.1
  · exact fun writable => ⟨writable_escape writable, .ascii (List.forall_mem_singleton.mpr (by decide))⟩

section

variable {yy : Yyjson}

/-- What follows an item begins with an ASCII byte, so no sequence runs over
its end. -/
theorem jsonEmitItems_boundary {items : List Obj} {depth : Nat} {out : Bytes}
    (emitted : jsonEmitItems yy true false depth items = .ok out) : Boundary out := by
  cases items with
  | nil =>
    obtain rfl : [] = out := Except.ok.inj emitted
    exact Or.inl rfl
  | cons item items =>
    obtain ⟨head, _, later⟩ := Except.bind_ok.mp emitted
    obtain ⟨tail, _, rfl⟩ := Except.map_ok.mp later
    exact Or.inr ⟨0x2C, head ++ tail, rfl, by decide⟩

theorem jsonEmitEntries_boundary {entries : List (Bytes × Obj)} {depth : Nat} {out : Bytes}
    (emitted : jsonEmitEntries yy true false depth entries = .ok out) : Boundary out := by
  cases entries with
  | nil =>
    obtain rfl : [] = out := Except.ok.inj emitted
    exact Or.inl rfl
  | cons entry entries =>
    obtain ⟨head, _, later⟩ := Except.bind_ok.mp emitted
    obtain ⟨tail, _, rfl⟩ := Except.map_ok.mp later
    exact Or.inr ⟨0x2C, _, rfl, by decide⟩

theorem separator_ascii (first : Bool) : ∀ c ∈ (if first then [] else [0x2C] : Bytes), c.toNat < 0x80 := by
  cases first
  · exact List.forall_mem_singleton.mpr (by decide)
  · exact List.forall_mem_nil _

mutual

/-- A text can be written exactly when the strings it was made of can. -/
theorem jsonEmit_writable : ∀ {v : Obj} {depth : Nat} {out : Bytes}, jsonEmit yy true depth v = .ok out →
    (Writable out ↔ ∀ s ∈ v.plainStrings, Writable s)
  | .str s, depth, out, emitted => by
    obtain ⟨_, same⟩ := jsonCapped_ok.mp emitted
    obtain rfl := Except.ok.inj same
    rw [Obj.plainStrings, List.forall_mem_singleton]
    split_ifs
    · rfl
    · exact writable_jsonQuote
  | .typed x, depth, out, emitted => by
    obtain ⟨_, typed⟩ := jsonCapped_ok.mp emitted
    cases (jsonEmitTyped_ok.mp typed).1
  | .list items, depth, out, emitted => by
    obtain ⟨_, inside⟩ := jsonCapped_ok.mp emitted
    obtain ⟨body, emittedBody, rfl⟩ := Except.map_ok.mp inside
    have closing : Boundary [0x5D] := Or.inr ⟨0x5D, [], rfl, by decide⟩
    have last : Writable [0x5D] := .ascii (List.forall_mem_singleton.mpr (by decide))
    rw [writable_cons_iff (by decide), writable_append_iff closing, jsonEmitItems_writable emittedBody,
      Obj.plainStrings,
      and_iff_left last]
  | .dict entries, depth, out, emitted => by
    obtain ⟨_, inside⟩ := jsonCapped_ok.mp emitted
    obtain ⟨body, emittedBody, rfl⟩ := Except.map_ok.mp inside
    have closing : Boundary [0x7D] := Or.inr ⟨0x7D, [], rfl, by decide⟩
    have last : Writable [0x7D] := .ascii (List.forall_mem_singleton.mpr (by decide))
    rw [writable_cons_iff (by decide), writable_append_iff closing, jsonEmitEntries_writable emittedBody,
      Obj.plainStrings, and_iff_left last]

/-- A plain encoding of a list can be written where all its strings can. -/
theorem jsonEmitItems_writable : ∀ {items : List Obj} {first : Bool} {depth : Nat} {out : Bytes},
    jsonEmitItems yy true first depth items = .ok out → (Writable out ↔ ∀ s ∈ plainStringsOfItems items, Writable s)
  | [], _, _, out, emitted => by
    obtain rfl : [] = out := Except.ok.inj emitted
    exact ⟨fun _ => List.forall_mem_nil _, fun _ => .nil⟩
  | item :: items, first, depth, out, emitted => by
    obtain ⟨head, emittedHead, later⟩ := Except.bind_ok.mp emitted
    obtain ⟨tail, emittedTail, rfl⟩ := Except.map_ok.mp later
    rw [writable_ascii_append (separator_ascii first), writable_append_iff (jsonEmitItems_boundary emittedTail),
      jsonEmit_writable emittedHead, jsonEmitItems_writable emittedTail, plainStringsOfItems,
        List.forall_mem_append]

/-- A plain encoding of a dict can be written where all its strings can. -/
theorem jsonEmitEntries_writable : ∀ {entries : List (Bytes × Obj)} {first : Bool} {depth : Nat} {out : Bytes},
    jsonEmitEntries yy true first depth entries = .ok out →
      (Writable out ↔ ∀ s ∈ plainStringsOfEntries entries, Writable s)
  | [], _, _, out, emitted => by
    obtain rfl : [] = out := Except.ok.inj emitted
    exact ⟨fun _ => List.forall_mem_nil _, fun _ => .nil⟩
  | (key, value) :: entries, first, depth, out, emitted => by
    obtain ⟨head, emittedHead, later⟩ := Except.bind_ok.mp emitted
    obtain ⟨tail, emittedTail, rfl⟩ := Except.map_ok.mp later
    have colon : Boundary (0x3A :: (head ++ tail)) := Or.inr ⟨0x3A, _, rfl, by decide⟩
    rw [writable_ascii_append (separator_ascii first), writable_append_iff colon, writable_cons_iff (by decide),
      writable_append_iff (jsonEmitEntries_boundary emittedTail), writable_jsonQuote, jsonEmit_writable emittedHead,
      jsonEmitEntries_writable emittedTail, plainStringsOfEntries, List.cons_append, List.forall_mem_cons,
      List.forall_mem_append]

end

end

/-- A zero byte of a line as `gets` spells it. -/
def spellNul (c : UInt8) : Bytes := if c = 0 then [0xC0, 0x80] else [c]

theorem spellNul_same {s : Bytes} (noNul : (0 : UInt8) ∉ s) : s.flatMap spellNul = s := by
  have each : s.flatMap spellNul = s.flatMap fun c => [c] :=
    List.flatMap_congr fun c member => if_neg fun zero : c = 0 => noNul (by rw [← zero]; exact member)
  rw [each, List.flatMap_singleton']

theorem channelPut_piece {p : Bytes} (piece : Piece p) (rest : Bytes) :
    ∃ out, channelPut (p ++ rest) = some (out, rest) ∧ Utf8.WellFormed out ∧
      ((0 : UInt8) ∉ p → out.flatMap spellNul = p) := by
  rcases piece with rfl | ⟨n, scalar, rfl⟩
  · have nul : Utf8.IsScalar 0 := by decide
    exact ⟨[0], if_pos ⟨rest, rfl⟩, Utf8.wellFormed_encode nul, fun _ => rfl⟩
  · exact ⟨_, channelPut_plain scalar rest, Utf8.wellFormed_encode scalar, spellNul_same⟩

/-- A channel writes a writable string as well-formed UTF-8 that spells it,
and where it has no zero byte that is the string itself. -/
theorem channelLoop_writable {s : Bytes} (writable : Writable s) : ∀ {k : Nat}, s.length ≤ k →
    ∃ line, channelLoop k s = some line ∧ Utf8.WellFormed line ∧ ((0 : UInt8) ∉ s → line.flatMap spellNul = s) := by
  induction writable with
  | nil => exact fun {k} _ => ⟨[], by cases k <;> rfl, Utf8.wellFormed_nil, fun _ => rfl⟩
  | @cons p rest piece _ ih =>
    intro k enough
    have nonempty : p ≠ [] := by
      rcases piece.parts with ⟨c, _, rfl⟩ | ⟨nonempty, _⟩
      · exact List.cons_ne_nil _ _
      · exact nonempty
    have positive := List.length_pos_iff.mpr nonempty
    rw [List.length_append] at enough
    obtain ⟨k, rfl⟩ := Nat.exists_eq_succ_of_ne_zero (show k ≠ 0 by omega)
    obtain ⟨out, put, whole, back⟩ := channelPut_piece piece rest
    obtain ⟨later, loop, wholeLater, backLater⟩ := ih (k := k) (by omega)
    refine ⟨out ++ later, ?_, whole.append wholeLater, fun noNul => ?_⟩
    · simp only [channelLoop_step (List.append_ne_nil_of_left_ne_nil nonempty rest), put, Option.bind_some, loop,
        Option.map_some]
    · rw [List.mem_append, not_or] at noNul
      rw [List.flatMap_append, back noNul.1, backLater noNul.2]

/-- What a channel writes is a writable string. -/
theorem writable_of_channelLoop {k : Nat} {s line : Bytes} (written : channelLoop k s = some line) :
    Writable s := by
  induction k generalizing s line with
  | zero =>
    cases s with
    | nil => exact .nil
    | cons a s => cases written
  | succ k ih =>
    cases s with
    | nil => exact .nil
    | cons a s =>
      obtain ⟨⟨piece, rest⟩, put, next⟩ := Option.bind_eq_some_iff.mp written
      obtain ⟨later, loop, rfl⟩ := Option.map_eq_some_iff.mp next
      obtain ⟨split, -⟩ | ⟨n, scalar, split, -⟩ := channelPut_some put
      · rw [split]
        exact .cons (Or.inl rfl) (ih loop)
      · rw [split]
        exact .cons (Or.inr ⟨n, scalar, rfl⟩) (ih loop)

/-- What is written of a text without zero bytes is read back as the text.
-/
theorem channelWrite_writable {s : Bytes} (writable : Writable s) (noNul : (0 : UInt8) ∉ s) :
    ∃ line, channelWrite s = some line ∧ channelRead line = some s := by
  obtain ⟨line, written, whole, back⟩ := channelLoop_writable writable (Nat.le_refl _)
  have read : channelRead line = some (line.flatMap spellNul) := if_pos whole
  exact ⟨line, written, by rw [read, back noNul]⟩

theorem splitLines_line {line : Bytes} (one : lf ∉ line) (before rest : Bytes) :
    splitLines before (line ++ lf :: rest) = (before ++ line) :: splitLines [] rest := by
  induction line generalizing before with
  | nil => rw [List.nil_append, splitLines, if_pos rfl, List.append_nil]
  | cons c cs ih =>
    obtain ⟨notHere, notLater⟩ := not_or.mp (mt List.mem_cons.mpr one)
    rw [List.cons_append, splitLines, if_neg (Ne.symm notHere), ih notLater]
    simp

/-- Lines without line feeds come back from what they are joined to, which
is how a reader of the channel gets the texts one by one. -/
theorem splitLines_lines {lines : List Bytes} (one : ∀ line ∈ lines, lf ∉ line) :
    splitLines [] (lines.flatMap fun line => line ++ [lf]) = lines := by
  induction lines with
  | nil => rfl
  | cons line lines ih =>
    obtain ⟨here, later⟩ := List.forall_mem_cons.mp one
    have split : (line :: lines).flatMap (fun line => line ++ [lf]) =
        line ++ lf :: lines.flatMap fun line => line ++ [lf] := by simp
    rw [split, splitLines_line here, ih later, List.nil_append]

/-- Texts that can be written and hold no line feed come back one by one. -/
theorem mapM_channelWrite {texts : List Bytes} (writable : ∀ text ∈ texts, Writable text ∧ Printable text) :
    ∃ lines, texts.mapM channelWrite = some lines ∧ (∀ line ∈ lines, lf ∉ line) ∧
      lines.mapM channelRead = some texts := by
  induction texts with
  | nil => exact ⟨[], rfl, List.forall_mem_nil _, rfl⟩
  | cons text texts ih =>
    obtain ⟨⟨here, printable⟩, later⟩ := List.forall_mem_cons.mp writable
    obtain ⟨lines, written, one, back⟩ := ih later
    have noNul : (0 : UInt8) ∉ text := fun member => absurd (printable 0 member) (by decide)
    obtain ⟨line, sent, read⟩ := channelWrite_writable here noNul
    refine ⟨line :: lines, ?_, List.forall_mem_cons.mpr ⟨one_line printable sent, one⟩, ?_⟩
    · rw [List.mapM_cons, sent, written]
      rfl
    · rw [List.mapM_cons, read, back]
      rfl

theorem writable_of_mapM {texts lines : List Bytes} (written : texts.mapM channelWrite = some lines) :
    ∀ text ∈ texts, Writable text := by
  induction texts generalizing lines with
  | nil => exact List.forall_mem_nil _
  | cons text texts ih =>
    rw [List.mapM_cons] at written
    obtain ⟨line, sent, rest⟩ := Option.bind_eq_some_iff.mp written
    obtain ⟨others, sentOthers, _⟩ := Option.bind_eq_some_iff.mp rest
    exact List.forall_mem_cons.mpr ⟨writable_of_channelLoop sent, ih sentOthers⟩

/-- Lines without control characters arrive exactly when each can be
written. -/
theorem receiveLines_iff {texts : List Bytes} (framed : ∀ text ∈ texts, Printable text ∧ text ≠ []) :
    (∃ stream, sendLines texts = some stream ∧ receiveLines stream = some texts) ↔
      ∀ text ∈ texts, Writable text := by
  constructor
  · rintro ⟨stream, sent, -⟩
    obtain ⟨lines, written, -⟩ := Option.map_eq_some_iff.mp sent
    exact writable_of_mapM written
  · intro writable
    obtain ⟨lines, written, one, back⟩ := mapM_channelWrite fun text member =>
      ⟨writable text member, (framed text member).1⟩
    refine ⟨lines.flatMap fun line => line ++ [lf], by rw [sendLines, written]; rfl, ?_⟩
    have kept : texts.filter (· ≠ []) = texts :=
      List.filter_eq_self.mpr fun text member => decide_eq_true (framed text member).2
    rw [receiveLines, splitLines_lines one, back, Option.map_some, kept]

/-- A call with `-plain` and its text. -/
structure PlainEncodes (yy : Yyjson) (tcl : Tcl) (args : List Obj) (text : Bytes) : Prop where
  plain : ∀ flags v, encodeCall yy tcl args = .ok (flags, v) → flags.plainOnly = true
  encoded : jsonEncode yy tcl args = .ok text

/-- No key and no leaf of what a call walks holds an unpaired surrogate. -/
def EncodesWritable (yy : Yyjson) (tcl : Tcl) (args : List Obj) : Prop :=
  ∀ flags v w, encodeCall yy tcl args = .ok (flags, v) → forced tcl flags v = .ok w →
    ∀ s ∈ w.plainStrings, Writable s

/-- No encoding is empty, so every value is a line of its own. -/
theorem jsonEmit_ne_nil {yy : Yyjson} {v : Obj} {depth : Nat} {out : Bytes}
    (emitted : jsonEmit yy true depth v = .ok out) :
    out ≠ [] := by
  cases v with
  | str s =>
    obtain ⟨_, same⟩ := jsonCapped_ok.mp emitted
    obtain rfl := Except.ok.inj same
    split_ifs with number
    · exact ((jsonIsNumberLiteral_iff s).mp number).chars.1
    · exact List.cons_ne_nil _ _
  | typed x =>
    obtain ⟨_, typed⟩ := jsonCapped_ok.mp emitted
    cases (jsonEmitTyped_ok.mp typed).1
  | list items =>
    obtain ⟨_, inside⟩ := jsonCapped_ok.mp emitted
    obtain ⟨body, _, rfl⟩ := Except.map_ok.mp inside
    exact List.cons_ne_nil _ _
  | dict entries =>
    obtain ⟨_, inside⟩ := jsonCapped_ok.mp emitted
    obtain ⟨body, _, rfl⟩ := Except.map_ok.mp inside
    exact List.cons_ne_nil _ _

/-- What a text of a call owes to the framing, and when it can be written.
-/
theorem PlainEncodes.framed {yy : Yyjson} {tcl : Tcl} {args : List Obj} {text : Bytes}
    (call : PlainEncodes yy tcl args text) :
    Printable text ∧ text ≠ [] ∧ (Writable text ↔ EncodesWritable yy tcl args) := by
  obtain ⟨flags, v, w, words, force, emitted⟩ := (jsonEncode_ok_iff yy tcl args text).mp call.encoded
  rw [call.plain flags v words] at emitted
  refine ⟨jsonEmit_printable emitted, jsonEmit_ne_nil emitted, (jsonEmit_writable emitted).trans ⟨?_, ?_⟩⟩
  · intro writable flags' v' w' words' force'
    obtain ⟨rfl, rfl⟩ := Prod.mk.inj (Except.ok.inj (words.symm.trans words'))
    obtain rfl := Except.ok.inj (force.symm.trans force')
    exact writable
  · exact fun writable => writable flags v w words force

/-- The texts of plain encodes hold no line break, and a stream of them is
read back as it was sent exactly when no string in them has an unpaired
surrogate. -/
theorem plainLines_recovered_iff (yy : Yyjson) (tcl : Tcl) (calls : List (List Obj × Bytes))
    (encoded : ∀ call ∈ calls, PlainEncodes yy tcl call.1 call.2) :
    (∀ call ∈ calls, cr ∉ call.2 ∧ lf ∉ call.2 ∧ call.2 ≠ []) ∧
      ((∃ stream, sendLines (calls.map Prod.snd) = some stream ∧ receiveLines stream = some (calls.map Prod.snd)) ↔
        ∀ call ∈ calls, EncodesWritable yy tcl call.1) := by
  constructor
  · intro call member
    obtain ⟨printable, nonempty, -⟩ := (encoded call member).framed
    exact ⟨fun bad => absurd (printable cr bad) (by decide), fun bad => absurd (printable lf bad)
      (by decide), nonempty⟩
  · rw [receiveLines_iff]
    · constructor
      · intro writable call member
        exact (encoded call member).framed.2.2.mp (writable _ (List.mem_map_of_mem member))
      · intro writable text member
        obtain ⟨call, known, rfl⟩ := List.mem_map.mp member
        exact (encoded call known).framed.2.2.mpr (writable call known)
    · intro text member
      obtain ⟨call, known, rfl⟩ := List.mem_map.mp member
      obtain ⟨printable, nonempty, -⟩ := (encoded call known).framed
      exact ⟨printable, nonempty⟩

theorem plainLines_recovered_sample :
    jsonEncode referenceYyjson strictTcl [Obj.str (ascii "-plain"), Obj.list [Obj.str [lf]]] =
        .ok (ascii "[\"\\n\"]") ∧
      ∃ stream, sendLines [ascii "[\"\\n\"]"] = some stream ∧ receiveLines stream = some [ascii "[\"\\n\"]"] :=
  ⟨rfl, (plainLines_recovered_iff referenceYyjson strictTcl
    [([Obj.str (ascii "-plain"), Obj.list [Obj.str [lf]]], ascii "[\"\\n\"]")] (fun call member => by
      obtain rfl := List.mem_singleton.mp member
      exact ⟨fun flags v same => by
        obtain ⟨rfl, -⟩ := Prod.mk.inj (Except.ok.inj (same.symm.trans rfl))
        rfl, rfl⟩)).2.mpr (fun call member flags v w same force => by
      obtain rfl := List.mem_singleton.mp member
      obtain ⟨rfl, rfl⟩ := Prod.mk.inj (Except.ok.inj (same.symm.trans rfl))
      obtain rfl := Except.ok.inj (force.symm.trans rfl)
      exact fun s inside => Writable.ascii (by
        obtain rfl := List.mem_singleton.mp inside
        exact List.forall_mem_singleton.mpr (by decide)))⟩

/-- U+D800 encodes and is not written. -/
theorem plainLines_surrogate :
    jsonEncode referenceYyjson strictTcl [.str (ascii "-plain"), .str [0xED, 0xA0, 0x80]] =
        .ok [dquote, 0xED, 0xA0, 0x80, dquote] ∧
      ¬ ∃ stream, sendLines [[dquote, 0xED, 0xA0, 0x80, dquote]] = some stream ∧
        receiveLines stream = some [[dquote, 0xED, 0xA0, 0x80, dquote]] := by
  refine ⟨rfl, ?_⟩
  rintro ⟨stream, sent, -⟩
  cases sent

end Machteld
