import Machteld.Dict
import Machteld.Chars
import Machteld.Except
import Machteld.Units.Parse

namespace Machteld

/-- `DocsFail` -/
def docsFail (code : String) (message : Bytes) : TclError := tclFail "DOCS" code message

def dictKeyUnknown (key : Chars) : TclError :=
  ⟨ascii "key \"" ++ (tclText key ++ ascii "\" not known in dictionary"),
    [ascii "TCL", ascii "LOOKUP", ascii "DICT", tclText key]⟩

def docsUnknownOption (option : Chars) : TclError :=
  docsFail "usage" (ascii "docs: unknown option \"" ++ (tclText option ++ ascii "\""))

/-- `DocsOptions`: the options with their defaults, and which were supplied.
-/
def docsOptions (allowed : List Chars) : List Chars → List (Chars × Chars) → List Chars →
    Except TclError (List (Chars × Chars) × List Chars)
  | [], result, supplied => .ok (result, supplied)
  | [option], _, _ =>
    if allowed.contains option then .error (docsFail "usage"
      (ascii "docs: " ++ (tclText option ++ ascii " needs a value")))
    else .error (docsUnknownOption option)
  | option :: value :: args, result, supplied =>
    if allowed.contains option then
      if supplied.contains option then
        .error (docsFail "usage" (ascii "docs: repeated option \"" ++ (tclText option ++ ascii "\"")))
      else docsOptions allowed args (dictPut (option.drop 1) value result) (supplied ++ [option])
    else .error (docsUnknownOption option)

/-- `dict get $options` -/
def optionValue (name : String) (options : List (Chars × Chars)) : Chars := (dictGet (chars name) options).getD []

/-- `DocsStrictBoolean` -/
def docsStrictBoolean (value : Chars) (option : String) : Except TclError Bool :=
  if value = chars "0" then .ok false
  else if value = chars "1" then .ok true
  else .error (docsFail "badvalue" (ascii "docs: " ++ (ascii option ++ ascii " must be exactly 0 or 1")))

/-- `DocsInteger` -/
def docsInteger (value : Chars) (option : String) (minimum maximum : Nat) : Except TclError Nat :=
  if 10 < value.length ∨ canonicalDigits value = false ∨ charsValue value < minimum ∨
    maximum < charsValue value then
    .error (docsFail "badvalue" (ascii "docs: " ++ (ascii option ++ (ascii " must be an integer from " ++
      (decimal minimum ++ (ascii " through " ++ decimal maximum))))))
  else .ok (charsValue value)

theorem docsInteger_ok {value : Chars} {option : String} {minimum maximum n : Nat}
    (passed : docsInteger value option minimum maximum = .ok n) :
    n = charsValue value ∧ minimum ≤ n ∧ n ≤ maximum := by
  unfold docsInteger at passed
  split_ifs at passed with refused
  obtain rfl := Except.ok.inj passed
  omega

/-- The spelling of an integer in range is taken. -/
theorem docsInteger_numberChars {option : String} {minimum maximum n : Nat} (small : maximum ≤ 2147483647)
    (low : minimum ≤ n)
    (high : n ≤ maximum) : docsInteger (numberChars n) option minimum maximum = .ok n := by
  have length := numberChars_length (Nat.le_trans high small)
  have value := numberChars_value n
  rw [docsInteger, value, numberChars_canonical, if_neg]
  rintro (long | bad | below | above)
  · omega
  · cases bad
  · omega
  · omega

/-- The options do not depend on what they are put into. -/
theorem docsOptions_read {allowed args supplied : List Chars} {result : List (Chars × Chars)}
    {read : List (Chars × Chars) × List Chars} (passed : docsOptions allowed args result supplied = .ok read) :
    ∃ pairs, (∀ result', docsOptions allowed args result' supplied = .ok (dictPuts pairs result', read.2)) ∧
      ∀ p ∈ pairs, ∃ option ∈ allowed, option ∉ supplied ∧ p.1 = option.drop 1 := by
  fun_induction docsOptions allowed args result supplied with
  | case1 result supplied =>
    obtain rfl := Except.ok.inj passed
    exact ⟨[], fun result' => rfl, fun p bad => absurd bad List.not_mem_nil⟩
  | case2 => cases passed
  | case3 => cases passed
  | case4 => cases passed
  | case5 option value args result supplied known fresh ih =>
    obtain ⟨pairs, reads, named⟩ := ih passed
    refine ⟨(option.drop 1, value) :: pairs, ?_, ?_⟩
    · intro result'
      rw [docsOptions, if_pos known, if_neg fresh]
      exact reads _
    · refine List.forall_mem_cons.mpr ⟨⟨option, List.contains_iff_mem.mp known, ?_, rfl⟩, ?_⟩
      · exact fun bad => fresh (List.contains_iff_mem.mpr bad)
      · intro p member
        obtain ⟨option', known', fresh', same⟩ := named p member
        exact ⟨option', known', fun bad => fresh' (List.mem_append_left _ bad), same⟩
  | case6 => cases passed

theorem docsOptions_supplied {allowed args supplied : List Chars} {result : List (Chars × Chars)}
    {read : List (Chars × Chars) × List Chars} (passed : docsOptions allowed args result supplied = .ok read) :
    supplied ⊆ read.2 := by
  fun_induction docsOptions allowed args result supplied with
  | case1 result supplied =>
    obtain rfl := Except.ok.inj passed
    exact List.Subset.refl _
  | case2 => cases passed
  | case3 => cases passed
  | case4 => cases passed
  | case5 option value args result supplied known fresh ih =>
    exact fun x member => ih passed (List.mem_append_left _ member)
  | case6 => cases passed

end Machteld
