import Machteld.Decimal
import Machteld.Publish.Kept

namespace Machteld

open Host Publish PublishWorld

def remainsAt : Bytes := ascii "; the prior destination remains at "

/-- The path at which a message says that the old destination is. -/
def TclError.NamesRecovery (e : TclError) (path : Bytes) : Prop :=
  ∃ front, 0x3B ∉ front ∧ e.message = front ++ (remainsAt ++ path)

/-- A message without a recovery path. -/
def TclError.Quiet (e : TclError) : Prop := 0x3B ∉ e.message

theorem TclError.Quiet.unnamed {e : TclError} (quiet : e.Quiet) (path : Bytes) : ¬ e.NamesRecovery path := by
  rintro ⟨front, -, same⟩
  have inside : 0x3B ∈ front ++ (remainsAt ++ path) := List.mem_append_right _ List.mem_cons_self
  exact quiet (same ▸ inside)

theorem plainText (text : List Char) (plain : 0x3B ∉ text.map fun c => UInt8.ofNat c.toNat) :
    0x3B ∉ ascii (String.ofList text) := by
  unfold ascii
  rwa [String.toList_ofList]

theorem windows_quiet {message : String} (quiet : 0x3B ∉ ascii message) (error : Nat) :
    0x3B ∉ ascii message ++ (ascii " (Windows error " ++ (decimal error ++ ascii ")")) := by
  have digits : 0x3B ∉ decimal error := by
    intro inside
    obtain ⟨c, digit, same⟩ := List.mem_map.mp inside
    have range := Nat.isDigit_of_mem_toDigits (by decide) (Nat.le_refl 10) digit
    have code := (digit_byte range).1
    have bound : c.toNat ≤ 57 := (Char.isDigit_iff_toNat.mp range).2
    rw [same] at code
    change 59 = c.toNat at code
    omega
  have front : 0x3B ∉ ascii " (Windows error " := plainText _ (by decide)
  have back : 0x3B ∉ ascii ")" := plainText _ (by decide)
  simp only [List.mem_append, not_or]
  exact ⟨quiet, front, digits, back⟩

theorem publishError_quiet {code message : String} (quiet : 0x3B ∉ ascii message) :
    (publishError code message).Quiet := quiet

theorem publishWinError_quiet {message : String} (quiet : 0x3B ∉ ascii message) (error : Nat) :
    (publishWinError message error none).Quiet := windows_quiet quiet error

/-- An error names a path for recovery exactly where it was given one. -/
theorem publishWinError_names {message : String} (quiet : 0x3B ∉ ascii message) (error : Nat)
    (recovery path : Bytes) :
    (publishWinError message error (some recovery)).NamesRecovery path ↔ path = recovery := by
  have front := windows_quiet quiet error
  have text : (publishWinError message error (some recovery)).message =
      ascii message ++ (ascii " (Windows error " ++ (decimal error ++ ascii ")")) ++ (remainsAt ++ recovery) := rfl
  constructor
  · rintro ⟨other, absent, same⟩
    rw [text] at same
    have cut : ∀ (before : Bytes) (after : Bytes), 0x3B ∉ before →
        (before ++ (remainsAt ++ after)).dropWhile (fun c => c != 0x3B) = remainsAt ++ after := by
      intro before after missing
      refine (takeWhile_append_stop (fun c inside => ?_) rfl).2
      exact bne_iff_ne.mpr fun here => missing (here ▸ inside)
    have rests := cut other path absent
    rw [← same, cut _ recovery front] at rests
    exact (List.append_cancel_left rests).symm
  · rintro rfl
    exact ⟨_, front, text⟩

/-- An error of a result has no recovery path. -/
def QuietResult {α : Type} (r : Except TclError α) : Prop := ∀ e, r = .error e → e.Quiet

theorem QuietResult.ok {α : Type} (a : α) : QuietResult (.ok a : Except TclError α) := fun e same => by cases same

theorem QuietResult.error {α : Type} {e : TclError} (quiet : e.Quiet) :
    QuietResult (.error e : Except TclError α) :=
  fun _ same => Except.error.inj same ▸ quiet

section

variable {Path : Type}

/-- No error of this check names a path for recovery. -/
theorem checkParent_quiet {label : String} (quiet : 0x3B ∉ ascii label) (parent : Path) :
    (checkParent parent label).Ends QuietResult := by
  refine Prog.Ends.bind (Prog.Ends.of_all _ fun probe => ?_)
  have joined : ∀ text : String, 0x3B ∉ ascii text → (publishError "badvalue" (label ++ text)).Quiet := by
    refine fun text plain => publishError_quiet fun inside => ?_
    have split : ascii (label ++ text) = ascii label ++ ascii text := by
      unfold ascii
      rw [String.toList_append, List.map_append]
    rw [split] at inside
    rcases List.mem_append.mp inside with first | second
    · exact quiet first
    · exact plain second
  cases probe with
  | absent => exact QuietResult.error (joined _ (plainText _ (by decide)))
  | error e => exact QuietResult.error (publishWinError_quiet (plainText _ (by decide)) e)
  | present info =>
    dsimp only
    split_ifs
    · exact QuietResult.ok info
    · exact QuietResult.error (joined _ (plainText _ (by decide)))

/-- No error of this check names a path for recovery. -/
theorem checkCandidate_quiet (candidate : Path) (expected : Option PublishFileInfo) :
    (checkCandidate candidate expected).Ends QuietResult := by
  refine Prog.Ends.bind (Prog.Ends.of_all _ fun probe => ?_)
  cases probe with
  | absent => exact QuietResult.error (publishError_quiet (plainText _ (by decide)))
  | error e =>
    dsimp only
    split_ifs
    · exact QuietResult.error (publishError_quiet (plainText _ (by decide)))
    · exact QuietResult.error (publishWinError_quiet (plainText _ (by decide)) e)
  | present current =>
    dsimp only
    split_ifs
    · exact QuietResult.error (publishError_quiet (plainText _ (by decide)))
    · exact QuietResult.error (publishError_quiet (plainText _ (by decide)))
    · exact QuietResult.ok current

/-- No error of this check names a path for recovery. -/
theorem checkDestination_quiet (destination : Path) : (checkDestination destination).Ends QuietResult := by
  refine Prog.Ends.bind (Prog.Ends.of_all _ fun probe => ?_)
  cases probe with
  | absent => exact QuietResult.ok none
  | error e => exact QuietResult.error (publishWinError_quiet (plainText _ (by decide)) e)
  | present info =>
    dsimp only
    split_ifs
    · exact QuietResult.ok (some info)
    · exact QuietResult.error (publishError_quiet (plainText _ (by decide)))

/-- No error of the marker names a path for recovery. -/
theorem backupMarker_quiet (paths : PublishPaths Path) (attempts : Nat) :
    (backupMarker paths attempts).Ends QuietResult := by
  induction attempts with
  | zero => exact QuietResult.error (publishError_quiet (plainText _ (by decide)))
  | succ attempts ih =>
    refine Prog.Ends.bind (Prog.Ends.of_all _ fun random => ?_)
    cases random with
    | none => exact QuietResult.error (publishError_quiet (plainText _ (by decide)))
    | some random =>
      refine Prog.Ends.bind (Prog.Ends.of_all _ fun memory => ?_)
      cases memory with
      | false => exact QuietResult.error (publishError_quiet (plainText _ (by decide)))
      | true =>
        refine Prog.Ends.bind (Prog.Ends.of_all _ fun made => ?_)
        cases made with
        | error e =>
          dsimp only
          split_ifs
          · exact ih
          · exact QuietResult.error (publishWinError_quiet (plainText _ (by decide)) e)
        | ok handle =>
          refine Prog.Ends.bind (Prog.Ends.of_all _ fun info => ?_)
          cases info with
          | error e =>
            refine Prog.Ends.bind (Prog.Ends.of_all _ fun _ => Prog.Ends.bind (Prog.Ends.of_all _ fun _ => ?_))
            exact QuietResult.error (publishWinError_quiet (plainText _ (by decide)) e)
          | ok marker => exact Prog.Ends.bind (Prog.Ends.of_all _ fun _ => QuietResult.ok _)

end

end Machteld
