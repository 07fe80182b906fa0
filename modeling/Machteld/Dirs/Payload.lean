import Machteld.Dirs.Buffer

namespace Machteld

def upperUnit (u : UInt16) : UInt16 := if 0x61 ≤ u ∧ u ≤ 0x7A then u - 0x20 else u

/-- `\??\` -/
def objectPrefix : Wide := [wideSlash, 0x3F, 0x3F, wideSlash]

/-- The units of `UNC` with its separator. -/
def uncWord : Wide := [0x55, 0x4E, 0x43, wideSlash]

/-- The text of a substitute name; none where it cannot be converted. -/
def linksName (relative : Bool) (name : Wide) : Option Bytes :=
  if relative = false ∧ name.take 4 = objectPrefix then
    let name := name.drop 4
    if (name.take 4).map upperUnit = uncWord then (mtWideToUtf8 true (name.drop 3)).map fun tail =>
      backslash :: cString tail
    else (mtWideToUtf8 true name).map cString
  else (mtWideToUtf8 true name).map cString

/-- `offsetof(LinksReparse, u.Symlink.PathBuffer)` and its sibling; none for
the other tags. -/
def payloadHeader (tag : Nat) : Option Nat :=
  if tag = 0xA000000C then some 20 else if tag = 0xA0000003 then some 16 else none

def payloadRelative (tag flags : Nat) : Bool := tag == 0xA000000C && bitSet flags 1

/-- The flags, which only a symlink has. -/
def payloadFlags (raw : Bytes) (tag : Nat) : Option Nat := if tag = 0xA000000C then readDword raw 16 else some 0

/-- `links_target` behind the `DeviceIoControl` that wrote these bytes. It
has no result where it reads outside them or a size wraps. -/
def linksPayload (raw : Bytes) : Option (Option Bytes) := do
  if raw.length < 4 then return none
  let tag ← readDword raw 0
  match payloadHeader tag with
  | none => return none
  | some hdr =>
    if raw.length < hdr then return none
    let off ← readWord raw 8
    let len ← readWord raw 10
    let flags ← payloadFlags raw tag
    let ends ← sizeAdd (← sizeAdd hdr off) len
    if raw.length < ends then return none
    let name ← readWide raw (hdr + off) (len / 2)
    return linksName (payloadRelative tag flags) name

/-- A payload that has its fixed part and its substitute name whole. -/
structure PayloadSized (raw : Bytes) (hdr : Nat) : Prop where
  tag : payloadHeader (dword raw 0) = some hdr
  fixed : hdr ≤ raw.length
  fits : hdr + word raw 8 + word raw 10 ≤ raw.length

def substituteName (raw : Bytes) (hdr : Nat) : Wide :=
  wideUnits ((raw.drop (hdr + word raw 8)).take (2 * (word raw 10 / 2)))

/-- The name of a whole payload is taken, and no other has a target. -/
structure LinksParsed (raw : Bytes) (target : Option Bytes) : Prop where
  takes : ∀ hdr, PayloadSized raw hdr →
    target = linksName (payloadRelative (dword raw 0) (dword raw 16)) (substituteName raw hdr)
  flags : (∃ hdr, PayloadSized raw hdr) ∨ target = none

theorem LinksParsed.refused {raw : Bytes} (absent : ∀ hdr, ¬ PayloadSized raw hdr) : LinksParsed raw none :=
  ⟨fun hdr sized => absurd sized (absent hdr), .inr rfl⟩

/-- A tag that is known has a header of 16 to 20 bytes. -/
theorem payloadHeader_bounds {tag hdr : Nat} (known : payloadHeader tag = some hdr) : 16 ≤ hdr ∧ hdr ≤ 20 := by
  unfold payloadHeader at known
  split at known
  · cases known
    decide
  · split at known
    · cases known
      decide
    · cases known

/-- The read of the flags succeeds, and whether the name is relative is what
the bytes at their place say. -/
theorem payloadFlags_read {raw : Bytes} {hdr : Nat} (known : payloadHeader (dword raw 0) = some hdr)
    (fixed : hdr ≤ raw.length) : ∃ flags, payloadFlags raw (dword raw 0) = some flags ∧
      payloadRelative (dword raw 0) flags = payloadRelative (dword raw 0) (dword raw 16) := by
  unfold payloadFlags
  by_cases symlink : dword raw 0 = 0xA000000C
  · rw [payloadHeader, if_pos symlink, Option.some.injEq] at known
    rw [if_pos symlink]
    exact ⟨_, @readDword_inside raw 0 16 (by omega), rfl⟩
  · rw [if_neg symlink]
    refine ⟨0, rfl, ?_⟩
    have other : (dword raw 0 == 0xA000000C) = false := beq_false_of_ne symlink
    rw [payloadRelative, payloadRelative, other, Bool.false_and, Bool.false_and]

/-- Both names of a reparse buffer are read inside it, or the buffer is
taken as having no target; which of the two is decided by its own lengths
and offsets. -/
theorem linksPayload_parses {raw : Bytes} (sized : DwordSized raw) :
    ∃ target, linksPayload raw = some target ∧ LinksParsed raw target := by
  unfold DwordSized at sized
  unfold linksPayload
  by_cases tagless : raw.length < 4
  · rw [if_pos tagless]
    refine ⟨none, rfl, .refused fun hdr whole => ?_⟩
    have bounds := payloadHeader_bounds whole.tag
    have fixed := whole.fixed
    omega
  have tag : readDword raw 0 = some (dword raw 0) := @readDword_inside raw 0 0 (by omega)
  rw [if_neg tagless, tag, Option.bind_eq_bind, Option.bind_some]
  cases known : payloadHeader (dword raw 0) with
  | none =>
    refine ⟨none, rfl, .refused fun hdr whole => ?_⟩
    cases known.symm.trans whole.tag
  | some hdr =>
    have only : ∀ other, PayloadSized raw other → other = hdr := fun other whole =>
      Option.some.inj (whole.tag.symm.trans known)
    have bounds := payloadHeader_bounds known
    have offset := word_lt raw 8
    have length := word_lt raw 10
    dsimp only
    by_cases short : raw.length < hdr
    · rw [if_pos short]
      refine ⟨none, rfl, .refused fun other whole => ?_⟩
      have fixed := whole.fixed
      rw [only other whole] at fixed
      omega
    obtain ⟨flags, read, shown⟩ := payloadFlags_read known (by omega)
    rw [if_neg short, readWord_inside (by omega), Option.bind_some, readWord_inside (by omega),
      Option.bind_some, read,
      Option.bind_some, sizeAdd_below (by omega), Option.bind_some, sizeAdd_below (by omega), Option.bind_some]
    by_cases cut : raw.length < hdr + word raw 8 + word raw 10
    · rw [if_pos cut]
      refine ⟨none, rfl, .refused fun other whole => ?_⟩
      have fits := whole.fits
      rw [only other whole] at fits
      omega
    rw [if_neg cut, readWide_inside (by omega), Option.bind_eq_bind, Option.bind_some, shown]
    refine ⟨_, rfl, fun other whole => ?_, .inl ⟨hdr, known, by omega, by omega⟩⟩
    rw [only other whole, substituteName]

/-- What the walk does with a batch that overran: an errors row on the
directory, and no further call. -/
def DirsFlagged (batch : DirBatch) : Prop :=
  ∀ (H : Type) (o : DirsOptions) (it : DirsItem) (h : H) (bufsz : Nat) (s : DirsScan),
    dirsBatchTurn o it h bufsz (s, batch) = dirsEntries o it s batch.entries >>= fun s =>
      .done (.inr (s, [errorInvalidData]))

theorem dirsFlagged {batch : DirBatch} (overrun : batch.overrun = true) : DirsFlagged batch := by
  intro H o it h bufsz s
  rw [dirsBatchTurn]
  simp only [overrun, if_true]
  rfl

/-- Every loop over records from the kernel stays inside its buffer, takes
every record of a chain once and flags every other buffer; that of the
notify records does where none leads to a place cut before a header. -/
theorem recordChains_parse_iff (allocs : Nat → WatchAllocs) (w : Watch) (buf : Bytes) (sized : DwordSized buf)
    (healthy : w.failed = false) :
    ((∃ w', NotifyParsed allocs buf w w') ↔ NotifyUncut buf) ∧
    (∃ batch, dirsBuffer buf (buf.length + 1) 0 = some batch ∧ DirsParsed buf batch ∧
      (batch.overrun = true → DirsFlagged batch)) ∧
    (∃ target, linksPayload buf = some target ∧ LinksParsed buf target) := by
  refine ⟨notifyParsed_iff allocs sized healthy, ?_, linksPayload_parses sized⟩
  obtain ⟨batch, parsed, whole⟩ := dirsBuffer_parses sized (Nat.zero_le _) (Nat.lt_succ_self _)
  exact ⟨batch, parsed, whole, dirsFlagged⟩

/-- The payload of a junction to a drive. -/
def linksSample : Bytes := [3, 0, 0, 0xA0, 14, 0, 0, 0, 0, 0, 6, 0, 0, 0, 0, 0, 0x61, 0, 0x3A, 0, 0x5C, 0]

theorem recordChains_parse_sample :
    ((∃ w', NotifyParsed (fun _ => ⟨true, true, true⟩) linksSample (watchStart (ascii "watch#1")
      (ascii "C:/w") false) w') ↔
      NotifyUncut linksSample) ∧
    (∃ batch, dirsBuffer linksSample (linksSample.length + 1) 0 = some batch ∧ DirsParsed linksSample batch ∧
      (batch.overrun = true → DirsFlagged batch)) ∧
    (∃ target, linksPayload linksSample = some target ∧ LinksParsed linksSample target) :=
  recordChains_parse_iff _ _ _ (by unfold DwordSized; decide) rfl

/-- One record, and four bytes behind it where its next offset leads. -/
def cutNotify : Bytes := [12, 0, 0, 0, 1, 0, 0, 0, 0, 0, 0, 0, 7, 7, 7, 7]

/-- The loop ends at the four bytes as if the record before them were the
last. -/
theorem notifyLoop_cut : ¬ ∃ w', NotifyParsed (fun _ => ⟨true, true, true⟩) cutNotify
    (watchStart (ascii "watch#1") (ascii "C:/w") false) w' := by
  have sized : DwordSized cutNotify := by
    unfold DwordSized
    decide
  rw [notifyParsed_iff _ sized rfl]
  intro uncut
  have follows : notifyFormat.Follows cutNotify := by
    unfold notifyFormat
    decide
  have path : RecordPath notifyFormat cutNotify [cutNotify] (cutNotify.drop (nextEntryOffset cutNotify)) :=
    .step ⟨by decide, by decide, by decide⟩ (by decide) follows (.here _)
  exact absurd (uncut _ _ path) (by decide)

end Machteld
