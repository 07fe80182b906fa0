import Machteld.Http.Headers

namespace Machteld

/-- A conversion can be split at an ASCII byte. -/
theorem mtUtf8ToWide_split {a b : Bytes} {x : UInt8} (small : x.toNat < 0x80) (noNul : 0 ∉ a ++ x :: b)
    {wide : List UInt16}
    (converted : mtUtf8ToWide true (a ++ x :: b) = some wide) :
    ∃ u v, mtUtf8ToWide true a = some u ∧ mtUtf8ToWide true b = some v ∧ wide = u ++ UInt16.ofNat x.toNat :: v := by
  have left : 0 ∉ a := fun bad => noNul (List.mem_append_left _ bad)
  have right : 0 ∉ b := fun bad => noNul (List.mem_append_right _ (List.mem_cons_of_mem x bad))
  have read := (mtUtf8ToWide_eq_some converted).2
  rw [cString_itself noNul, Utf8.toUnits_iff (Nat.le_refl _)] at read
  obtain ⟨cs, scalars, spelled, rfl⟩ := read
  obtain ⟨⟨as, first, rfl⟩, bs, later, rfl⟩ := (Utf8.wellFormed_split small a b).mp ⟨cs, scalars, spelled⟩
  refine ⟨as.flatMap Utf16.units, bs.flatMap Utf16.units, ?_, ?_, ?_⟩
  · rw [mtUtf8ToWide, if_pos rfl, cString_itself left]
    exact (Utf8.toUnits_iff (Nat.le_refl _)).mpr ⟨as, first, rfl, rfl⟩
  · rw [mtUtf8ToWide, if_pos rfl, cString_itself right]
    exact (Utf8.toUnits_iff (Nat.le_refl _)).mpr ⟨bs, later, rfl, rfl⟩
  · have middle : Utf8.IsScalar x.toNat := ⟨by omega, fun bad => by
      have low := bad.1
      omega⟩
    have units : Utf16.units x.toNat = [UInt16.ofNat x.toNat] := if_pos (by omega)
    have same : cs.flatMap Utf8.encode = (as ++ x.toNat :: bs).flatMap Utf8.encode := by
      rw [← spelled, List.flatMap_append, List.flatMap_cons, Utf8.encode_ascii small, UInt8.ofNat_toNat]
      rfl
    have once : Utf8.toUnits (cs.flatMap Utf8.encode).length (cs.flatMap Utf8.encode) =
        some ((as ++ x.toNat :: bs).flatMap Utf16.units) := by
      refine (Utf8.toUnits_iff (Nat.le_refl _)).mpr ⟨as ++ x.toNat :: bs, ?_, same, rfl⟩
      exact List.forall_mem_append.mpr ⟨first, List.forall_mem_cons.mpr ⟨middle, later⟩⟩
    have twice := (Utf8.toUnits_iff (Nat.le_refl _)).mpr ⟨cs, scalars, rfl, rfl⟩
    rw [Option.some.inj (twice.symm.trans once), List.flatMap_append, List.flatMap_cons, units]
    rfl

theorem crlfPieces_line {line : List UInt16} (plain : 0x0D ∉ line) (rest : List UInt16) :
    crlfPieces (line ++ 0x0D :: 0x0A :: rest) = line :: crlfPieces rest := by
  induction line with
  | nil => rfl
  | cons c line ih =>
    obtain ⟨other, later⟩ := List.ne_and_not_mem_of_not_mem_cons plain
    have step : ∀ s, crlfPieces (c :: s) = consPiece c (crlfPieces s) := by
      intro s
      rw [crlfPieces]
      intro rest bad
      exact absurd bad other.symm
    rw [List.cons_append, step, ih later, consPiece]

/-- The lines of a block: each is converted on its own, and the CRLFs part
them. -/
theorem crlfPieces_lines {lines : List Bytes} (plain : ∀ line ∈ lines, 0 ∉ line ∧ cr ∉ line) {wide : List UInt16}
    (converted : mtUtf8ToWide true (lines.flatMap (· ++ crlf)) = some wide) :
    ∃ pieces, crlfPieces wide = pieces ++ [[]] ∧ List.Forall₂
      (fun line piece => mtUtf8ToWide true line = some piece) lines pieces := by
  induction lines generalizing wide with
  | nil =>
    obtain rfl := Option.some.inj converted
    exact ⟨[], rfl, .nil⟩
  | cons line lines ih =>
    obtain ⟨own, later⟩ := List.forall_mem_cons.mp plain
    have noNul : ∀ lines : List Bytes, (∀ line ∈ lines, 0 ∉ line ∧ cr ∉ line) → 0 ∉ lines.flatMap (· ++ crlf) := by
      intro lines plain bad
      obtain ⟨line, member, inside⟩ := List.mem_flatMap.mp bad
      rcases List.mem_append.mp inside with within | ends
      · exact (plain line member).1 within
      · exact absurd ends (by decide)
    have whole : (line :: lines).flatMap (· ++ crlf) = line ++ cr :: (lf :: lines.flatMap (· ++ crlf)) := by
      rw [List.flatMap_cons, List.append_assoc]
      rfl
    have clean := noNul _ plain
    rw [whole] at converted clean
    obtain ⟨u, v, first, rest, rfl⟩ := mtUtf8ToWide_split (by decide) clean converted
    have clean' : 0 ∉ [] ++ lf :: lines.flatMap (· ++ crlf) := fun bad =>
      clean (List.mem_append_right _ (List.mem_cons_of_mem _ bad))
    obtain ⟨none', w, nothing, behind, rfl⟩ := mtUtf8ToWide_split (by decide) clean' rest
    obtain rfl := Option.some.inj nothing
    obtain ⟨pieces, split, each⟩ := ih later behind
    have bare : 0x0D ∉ u := fun bad => own.2 (mtUtf8ToWide_ascii first bad (by decide))
    refine ⟨u :: pieces, ?_, .cons first each⟩
    exact (crlfPieces_line bare w).trans (by rw [split, List.cons_append])

/-- The options with their values. -/
def httpArgs : List Bytes → List (Bytes × Bytes)
  | a :: v :: rest => (a, v) :: httpArgs rest
  | _ => []

/-- The dict of the last `-headers`. -/
def askedHeaders (tcl : TclReads) (args : List Bytes) : List (Bytes × Bytes) :=
  ((dictValues (ascii "-headers") (httpArgs args)).getLast?.bind tcl.dictOf).getD []

/-- The last `-type`. -/
def askedType (args : List Bytes) : Option Bytes := (dictValues (ascii "-type") (httpArgs args)).getLast?

def askedTypeLine (tcl : TclReads) (post : Bool) (args : List Bytes) : List Bytes :=
  match askedType args with
  | some type => [contentTypeLine type]
  | none =>
    if post && !(askedHeaders tcl args).any isContentType then
      [contentTypeLine (ascii "application/octet-stream")] else []

/-- The lines that the options ask for. -/
def askedLines (tcl : TclReads) (post : Bool) (args : List Bytes) : List Bytes :=
  (askedHeaders tcl args).map (fun entry => headerLine entry.1 entry.2) ++ askedTypeLine tcl post args

/-- A block with exactly these lines. -/
def BlockLines (lines : List Bytes) (wide : List UInt16) : Prop :=
  ∃ pieces, crlfPieces wide = pieces ++ [[]] ∧ List.Forall₂
    (fun line piece => mtUtf8ToWide true line = some piece) lines pieces

def namesContentType (tcl : TclReads) (v : Bytes) : Bool := (tcl.dictOf v).any fun d => d.any isContentType

/-- A Content-Type in any `-headers` is in the last one too, where the
default for a body depends on it. -/
def TypeKept (tcl : TclReads) (post : Bool) (args : List Bytes) : Prop :=
  post = true → askedType args = none →
    (dictValues (ascii "-headers") (httpArgs args)).any (namesContentType tcl) = true →
      (askedHeaders tcl args).any isContentType = true

variable {tcl : TclReads} {post allowType : Bool} {args : List Bytes} {o o' : HttpOpts}

/-- Texts that were tested before they got here. -/
structure HttpOpts.Safe (o : HttpOpts) : Prop where
  headers : ∀ d ∈ o.headers, ∀ entry ∈ d, httpTextSafe entry.1 true = true ∧ httpTextSafe entry.2 false = true
  type : ∀ type ∈ o.type, httpTextSafe type false = true

/-- What the options of a request have been read to. -/
structure HttpRead (tcl : TclReads) (pairs : List (Bytes × Bytes)) (o o' : HttpOpts) : Prop where
  headers : o'.headers = (dictValues (ascii "-headers") pairs).getLast?.elim o.headers tcl.dictOf
  type : o'.type = (dictValues (ascii "-type") pairs).getLast?.or o.type
  flag : o'.hasContentType = (o.hasContentType || (dictValues (ascii "-headers") pairs).any (namesContentType tcl))
  safe : o.Safe → o'.Safe

theorem HttpRead.none (o : HttpOpts) : HttpRead tcl [] o o := ⟨rfl, rfl, (Bool.or_false _).symm, id⟩

/-- An option that touches neither the headers nor the type. -/
theorem HttpRead.other {a v : Bytes} (headers : o'.headers = o.headers) (type : o'.type = o.type)
    (flag : o'.hasContentType = o.hasContentType) (notHeaders : ¬ a = ascii "-headers")
    (notType : ¬ a = ascii "-type") :
    HttpRead tcl [(a, v)] o o' := by
  refine ⟨?_, ?_, ?_, fun safe => ⟨headers ▸ safe.headers, type ▸ safe.type⟩⟩
  · rw [@dictValues_other _ _ _ _ (a, v) _ notHeaders]
    exact headers
  · rw [@dictValues_other _ _ _ _ (a, v) _ notType]
    exact type
  · rw [@dictValues_other _ _ _ _ (a, v) _ notHeaders]
    exact flag.trans (Bool.or_false _).symm

theorem headers_ne_type : ¬ ascii "-headers" = ascii "-type" := by decide

theorem httpHeaders_read {v : Bytes} (passed : httpHeaders tcl v o = .ok o') :
    HttpRead tcl [(ascii "-headers", v)] o o' := by
  unfold httpHeaders at passed
  cases read : tcl.dictOf v with
  | none => rw [read] at passed; cases passed
  | some d =>
    rw [read] at passed
    simp only at passed
    split_ifs at passed with text
    obtain rfl := Except.ok.inj passed
    have alone : dictValues (ascii "-headers") [(ascii "-headers", v)] = [v] := dictValues_here rfl
    have apart : dictValues (ascii "-type") [(ascii "-headers", v)] = [] := dictValues_other headers_ne_type
    refine ⟨?_, ?_, ?_, fun safe => ⟨?_, safe.type⟩⟩
    · rw [alone]
      exact read.symm
    · rw [apart]
      rfl
    · rw [alone, List.any_cons, List.any_nil, Bool.or_false, namesContentType, read]
      rfl
    · intro d' same entry member
      obtain rfl := Option.some.inj same
      exact Bool.and_eq_true_iff.mp (List.all_eq_true.mp text entry member)

theorem httpType_read {v : Bytes} (text : httpTextSafe v false = true) :
    HttpRead tcl [(ascii "-type", v)] o { o with type := some v } := by
  have alone : dictValues (ascii "-type") [(ascii "-type", v)] = [v] := dictValues_here rfl
  have apart : dictValues (ascii "-headers") [(ascii "-type", v)] = [] := dictValues_other (Ne.symm headers_ne_type)
  refine ⟨?_, ?_, ?_, fun safe => ⟨safe.headers, ?_⟩⟩
  · rw [apart]
    rfl
  · rw [alone]
    rfl
  · rw [apart]
    exact (Bool.or_false _).symm
  · intro v' same
    exact Option.some.inj same ▸ text

theorem httpOption_read {a v : Bytes} (passed : httpOption tcl allowType a v o = .ok o') :
    HttpRead tcl [(a, v)] o o' := by
  have apart : ∀ {a b : Bytes} (name : Bytes), a = name → (name == b) = false → ¬ a = b := by
    intro a b name same other bad
    exact beq_eq_false_iff_ne.mp other (same.symm.trans bad)
  unfold httpOption at passed
  split_ifs at passed with timeout redirect nothing maxbody agent text type allowed text headers
  · obtain ⟨n, -, rfl⟩ := Except.map_ok.mp passed
    exact .other rfl rfl rfl (apart _ timeout (by decide)) (apart _ timeout (by decide))
  · obtain rfl := Except.ok.inj passed
    exact .other rfl rfl rfl (apart _ redirect (by decide)) (apart _ redirect (by decide))
  · obtain ⟨n, -, rfl⟩ := Except.map_ok.mp passed
    exact .other rfl rfl rfl (apart _ maxbody (by decide)) (apart _ maxbody (by decide))
  · obtain rfl := Except.ok.inj passed
    exact .other rfl rfl rfl (apart _ agent (by decide)) (apart _ agent (by decide))
  · obtain rfl := Except.ok.inj passed
    obtain rfl := type
    exact httpType_read text
  · obtain rfl := headers
    exact httpHeaders_read passed

theorem HttpRead.cons {p : Bytes × Bytes} {pairs : List (Bytes × Bytes)} {o₁ o₂ o₃ : HttpOpts}
    (one : HttpRead tcl [p] o₁ o₂)
    (later : HttpRead tcl pairs o₂ o₃) : HttpRead tcl (p :: pairs) o₁ o₃ := by
  have split : ∀ key, dictValues key (p :: pairs) = dictValues key [p] ++ dictValues key pairs := fun key =>
    dictValues_append key [p] pairs
  refine ⟨?_, ?_, ?_, later.safe ∘ one.safe⟩
  · rw [later.headers, one.headers, split, List.getLast?_append]
    cases (dictValues (ascii "-headers") pairs).getLast? with
    | none => rw [Option.none_or, Option.elim_none]
    | some v => rw [Option.some_or, Option.elim_some, Option.elim_some]
  · rw [later.type, one.type, split, List.getLast?_append, Option.or_assoc]
  · rw [later.flag, one.flag, split, List.any_append, Bool.or_assoc]

theorem httpOpts_read (passed : httpOpts tcl allowType args o = .ok o') : HttpRead tcl (httpArgs args) o o' := by
  fun_induction httpOpts with
  | case1 o =>
    obtain rfl := Except.ok.inj passed
    exact .none o
  | case2 => cases passed
  | case3 o a v rest ih =>
    obtain ⟨middle, first, later⟩ := Except.bind_ok.mp passed
    exact .cons (httpOption_read first) (ih middle later)

/-- The lines of the block that `http_do` builds. -/
def HttpOpts.lines (o : HttpOpts) : List Bytes :=
  (o.headers.getD []).map (fun entry => headerLine entry.1 entry.2) ++ o.type.elim [] fun type =>
    [contentTypeLine type]

theorem httpHeaderBlock_lines (o : HttpOpts) : httpHeaderBlock o = o.lines.flatMap (· ++ crlf) := by
  unfold httpHeaderBlock HttpOpts.lines
  rw [List.flatMap_append, List.flatMap_map]
  cases o.type with
  | none => rfl
  | some type => rw [Option.elim_some, Option.elim_some, List.flatMap_cons, List.flatMap_nil, List.append_nil]

theorem httpTextSafe_plain {s : Bytes} {name : Bool} (safe : httpTextSafe s name = true) : 0 ∉ s ∧ cr ∉ s := by
  have each := List.all_eq_true.mp (Bool.and_eq_true_iff.mp safe).2
  constructor
  · intro bad
    exact absurd (each _ bad) (by simp)
  · intro bad
    exact absurd (each _ bad) (by simp)

theorem headerLine_plain {name value : Bytes} (own : 0 ∉ name ∧ cr ∉ name) (told : 0 ∉ value ∧ cr ∉ value) :
    0 ∉ headerLine name value ∧ cr ∉ headerLine name value := by
  have colon : 0 ∉ ascii ": " ∧ cr ∉ ascii ": " := by decide
  simp only [headerLine, List.mem_append, not_or]
  exact ⟨⟨own.1, colon.1, told.1⟩, own.2, colon.2, told.2⟩

/-- No header can bring a line of its own. -/
theorem HttpOpts.Safe.lines_plain (safe : o.Safe) : ∀ line ∈ o.lines, 0 ∉ line ∧ cr ∉ line := by
  have named : 0 ∉ ascii "Content-Type" ∧ cr ∉ ascii "Content-Type" := by decide
  intro line member
  rcases List.mem_append.mp member with header | type
  · obtain ⟨entry, inside, rfl⟩ := List.mem_map.mp header
    cases known : o.headers with
    | none =>
      rw [known] at inside
      exact absurd inside List.not_mem_nil
    | some d =>
      rw [known] at inside
      have texts := safe.headers d known entry inside
      exact headerLine_plain (httpTextSafe_plain texts.1) (httpTextSafe_plain texts.2)
  · cases known : o.type with
    | none =>
      rw [known] at type
      exact absurd type List.not_mem_nil
    | some text =>
      rw [known] at type
      obtain rfl := List.mem_singleton.mp type
      exact headerLine_plain named (httpTextSafe_plain (safe.type text known))

theorem HttpOpts.Safe.block_lines (safe : o.Safe) {wide : List UInt16} (handed : httpHandedBlock o = some wide) :
    BlockLines o.lines wide := by
  unfold httpHandedBlock at handed
  rw [httpHeaderBlock_lines] at handed
  refine crlfPieces_lines safe.lines_plain ?_
  split_ifs at handed with empty
  · rw [empty]
    exact handed
  · exact handed

/-- A block has only one list of lines up to their number. -/
theorem BlockLines.length_eq {first second : List Bytes} {wide : List UInt16} (one : BlockLines first wide)
    (other : BlockLines second wide) : first.length = second.length := by
  obtain ⟨pieces, split, each⟩ := one
  obtain ⟨pieces', split', each'⟩ := other
  have same : pieces = pieces' := List.append_cancel_right (split.symm.trans split')
  rw [each.length_eq, each'.length_eq, same]

theorem HttpOpts.start_safe : HttpOpts.start.Safe :=
  ⟨fun d bad => absurd bad (Option.not_mem_none d), fun type bad => absurd bad (Option.not_mem_none type)⟩

/-- The line of the type, where `named` tells that the headers name one. -/
def typeLines (post named : Bool) (type : Option Bytes) : List Bytes :=
  type.elim (if post && !named then [contentTypeLine (ascii "application/octet-stream")] else []) fun type =>
    [contentTypeLine type]

theorem askedTypeLine_eq : askedTypeLine tcl post args = typeLines post ((askedHeaders tcl args).any isContentType)
    (askedType args) := by
  unfold askedTypeLine
  cases askedType args <;> rfl

/-- The options as `http_do` gets them. -/
theorem httpRequestOpts_lines (accepted : httpRequestOpts tcl post args = .ok o) :
    o.Safe ∧ o.lines = (askedHeaders tcl args).map (fun entry => headerLine entry.1 entry.2) ++
      typeLines post ((dictValues (ascii "-headers") (httpArgs args)).any (namesContentType tcl))
        (askedType args) := by
  obtain ⟨o', passed, same⟩ := Except.bind_ok.mp accepted
  obtain rfl := Except.ok.inj same
  have read := httpOpts_read passed
  have safe := read.safe HttpOpts.start_safe
  have headers : o'.headers.getD [] = askedHeaders tcl args := by
    rw [read.headers, askedHeaders]
    cases (dictValues (ascii "-headers") (httpArgs args)).getLast? <;> rfl
  have type : o'.type = askedType args := read.type.trans (Option.or_none ..)
  have flag := read.flag.trans (Bool.false_or _)
  rw [← headers, ← type, ← flag]
  cases given : o'.type with
  | some type =>
    rw [Option.isNone_some, Bool.and_false, Bool.false_and, if_neg Bool.false_ne_true]
    refine ⟨safe, ?_⟩
    rw [HttpOpts.lines, given]
    rfl
  | none =>
    rw [Option.isNone_none, Bool.and_true, typeLines, Option.elim_none]
    split_ifs with added
    · exact ⟨⟨safe.headers, fun type known => Option.some.inj known ▸ by decide⟩, rfl⟩
    · refine ⟨safe, ?_⟩
      rw [HttpOpts.lines, given, Option.elim_none]

theorem headers_named (known : (askedHeaders tcl args).any isContentType = true) :
    (dictValues (ascii "-headers") (httpArgs args)).any (namesContentType tcl) = true := by
  unfold askedHeaders at known
  cases last : (dictValues (ascii "-headers") (httpArgs args)).getLast? with
  | none => rw [last] at known; cases known
  | some v =>
    rw [last, Option.bind_some] at known
    refine List.any_eq_true.mpr ⟨v, List.mem_of_getLast? last, ?_⟩
    cases read : tcl.dictOf v with
    | none => rw [read] at known; cases known
    | some d =>
      rw [read, Option.getD_some] at known
      rw [namesContentType, read]
      exact known

/-- The header block is what was asked for exactly where no earlier
`-headers` took the default type away. -/
theorem httpRequest_lines_iff (tcl : TclReads) (post : Bool) (args : List Bytes) {o : HttpOpts} {wide : List UInt16}
    (accepted : httpRequestOpts tcl post args = .ok o) (handed : httpHandedBlock o = some wide) :
    BlockLines (askedLines tcl post args) wide ↔ TypeKept tcl post args := by
  obtain ⟨safe, built⟩ := httpRequestOpts_lines accepted
  have block := safe.block_lines handed
  rw [built] at block
  constructor
  · intro wanted isPost noType named
    by_contra lost
    have count := wanted.length_eq block
    rw [askedLines, askedTypeLine_eq, noType, named, isPost, eq_false_of_ne_true lost] at count
    simp [typeLines] at count
  · intro kept
    rw [askedLines, askedTypeLine_eq]
    cases given : askedType args with
    | some type =>
      rw [given] at block
      exact block
    | none =>
      cases post with
      | false =>
        rw [given] at block
        exact block
      | true =>
        rw [Bool.eq_iff_iff.mpr ⟨headers_named, kept rfl given⟩, ← given]
        exact block

def oneHeader : List Bytes := [ascii "-headers", ascii "X-A b"]

/-- A header of the caller's own, and the default type behind it. -/
theorem httpRequest_lines_sample : ∃ o, httpRequestOpts plainTcl true oneHeader = .ok o ∧
    httpHandedBlock o = some ((ascii "X-A: b\r\nContent-Type: application/octet-stream\r\n").map fun c =>
      UInt16.ofNat c.toNat) ∧
    BlockLines (askedLines plainTcl true oneHeader)
      ((ascii "X-A: b\r\nContent-Type: application/octet-stream\r\n").map fun c => UInt16.ofNat c.toNat) := by
  have accepted : httpRequestOpts plainTcl true oneHeader =
      .ok { HttpOpts.start with
        headers := some [(ascii "X-A", ascii "b")], type := some (ascii "application/octet-stream") } := rfl
  have handed : httpHandedBlock { HttpOpts.start with
      headers := some [(ascii "X-A", ascii "b")], type := some (ascii "application/octet-stream") } =
        some ((ascii "X-A: b\r\nContent-Type: application/octet-stream\r\n").map fun c => UInt16.ofNat c.toNat) :=
          by decide
  have kept : TypeKept plainTcl true oneHeader := fun _ _ named => absurd named (by decide)
  exact ⟨_, accepted, handed, (httpRequest_lines_iff plainTcl true oneHeader accepted handed).mpr kept⟩

def replacedHeaders : List Bytes := [ascii "-headers", ascii "Content-Type a", ascii "-headers", []]

/-- A Content-Type of headers that were replaced keeps the default away from
those in effect. -/
theorem httpRequest_replaced : ∃ o wide, httpRequestOpts plainTcl true replacedHeaders = .ok o ∧
    httpHandedBlock o = some wide ∧ ¬ BlockLines (askedLines plainTcl true replacedHeaders) wide := by
  refine ⟨{ HttpOpts.start with headers := some [], hasContentType := true }, [], rfl, rfl, ?_⟩
  rintro ⟨pieces, split, each⟩
  have single : pieces.length + 1 = 1 := by
    rw [← List.length_singleton (a := ([] : List UInt16)), ← List.length_append, ← split]
    rfl
  have count : 1 = pieces.length := each.length_eq
  omega

end Machteld
