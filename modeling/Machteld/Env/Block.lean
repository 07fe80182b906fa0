import Machteld.WideText

namespace Machteld

abbrev wideEquals : UInt16 := 0x3D

def cstrEqual : Nat := 2

def cstrGreaterThan : Nat := 3

structure EnvItem where
  text : List UInt16
  nameLen : Nat

/-- The units up to the second `=` when the first one begins the entry. -/
def envNameLen (entry : List UInt16) : Nat :=
  match entry with
  | [] => 0
  | unit :: rest =>
    if unit = wideEquals then 1 + (rest.takeWhile fun u => u != wideEquals).length
    else ((unit :: rest).takeWhile fun u => u != wideEquals).length

def envName (entry : List UInt16) : List UInt16 := entry.take (envNameLen entry)

/-- The entries of a block: each up to its terminator, until an empty one.
-/
def envEntries (block : List UInt16) : List (List UInt16) :=
  if (block.takeWhile fun u => u != 0) = [] then []
  else
    (block.takeWhile fun u => u != 0) :: envEntries (block.drop ((block.takeWhile fun u => u != 0).length + 1))
termination_by block.length
decreasing_by
  rename_i nonempty
  rw [List.length_drop]
  cases block with
  | nil => exact absurd rfl nonempty
  | cons unit rest =>
    rw [List.length_cons]
    omega

inductive EnvAlloc
  | keys
  | key (j : Nat)
  | items
  | value (j : Nat)
  | entry (j : Nat)

/-- What the calls give: the inherited block, the memory and the comparison
of two names, by the number of the comparison. -/
structure EnvHost where
  inherited : Option (List UInt16)
  alloc : EnvAlloc → Bool
  compare : Nat → List UInt16 → List UInt16 → Nat

/-- The state is the number of comparisons made. -/
abbrev EnvM := StateT Nat (Except Bytes)

def envFail {α : Type} (message : String) : EnvM α := fun _ => .error (ascii message)

def envNameCompare (host : EnvHost) (a b : List UInt16) : EnvM Nat := fun n =>
  if cIntMax < a.length ∨ cIntMax < b.length then .ok (0, n) else .ok (host.compare n a b, n + 1)

/-- The loop over the keys before a key. -/
def envUnlike (host : EnvHost) (key : List UInt16) : List (List UInt16) → EnvM Unit
  | [] => pure ()
  | earlier :: rest => do
    let comparison ← envNameCompare host earlier key
    if comparison = 0 then envFail "cannot compare environment keys"
    else if comparison = cstrEqual then envFail "duplicate environment key"
    else envUnlike host key rest

/-- The loop over the override keys. -/
def envKeys (host : EnvHost) (earlier : List (List UInt16)) : List Bytes → EnvM (List (List UInt16))
  | [] => pure earlier
  | key :: rest =>
    if key.contains 0 = true ∨ key = [] ∨ key.contains 0x3D = true then
      envFail "environment keys must be nonempty and contain neither NUL nor '='"
    else
      match mtUtf8ToWide (host.alloc (.key earlier.length)) key with
      | none => envFail "bad -env entry"
      | some wide => do
        envUnlike host wide earlier
        envKeys host (earlier ++ [wide]) rest

/-- Whether an override names the entry. -/
def envOverridden (host : EnvHost) (name : List UInt16) : List (List UInt16) → EnvM Bool
  | [] => pure false
  | key :: rest => do
    let comparison ← envNameCompare host name key
    if comparison = 0 then envFail "cannot compare environment keys"
    else if comparison = cstrEqual then pure true
    else envOverridden host name rest

/-- The loop over the inherited entries. -/
def envInherited (host : EnvHost) (keys : List (List UInt16)) : List (List UInt16) → EnvM (List EnvItem)
  | [] => pure []
  | entry :: rest => do
    let overridden ← envOverridden host (envName entry) keys
    let items ← envInherited host keys rest
    pure (if overridden then items else ⟨entry, envNameLen entry⟩ :: items)

/-- The loop over the override values. -/
def envValues (host : EnvHost) (cap : Nat) (j : Nat) : List (List UInt16 × Bytes) → EnvM (List EnvItem)
  | [] => pure []
  | (key, value) :: rest =>
    if value.contains 0 = true then envFail "environment values may not contain NUL"
    else
      match mtUtf8ToWide (host.alloc (.value j)) value with
      | none => envFail "bad -env entry"
      | some wide =>
        if cap ≤ key.length ∨ cap ≤ wide.length ∨ cap < key.length + wide.length +
          2 then envFail "environment too large"
        else if host.alloc (.entry j) = false then envFail "out of memory"
        else do
          let items ← envValues host cap (j + 1) rest
          pure (⟨key ++ wideEquals :: wide, key.length⟩ :: items)

/-- The inner loop of the sort, over the items before the item, last one
first. -/
def envInsert (host : EnvHost) (item : EnvItem) : List EnvItem → EnvM (List EnvItem)
  | [] => pure [item]
  | before :: rest => do
    let comparison ← envNameCompare host (before.text.take before.nameLen) (item.text.take item.nameLen)
    if comparison = 0 then envFail "cannot sort environment"
    else if comparison ≠ cstrGreaterThan then pure (item :: before :: rest)
    else do
      let inserted ← envInsert host item rest
      pure (before :: inserted)

/-- The insertion sort, with the items already sorted last one first. -/
def envSort (host : EnvHost) (sorted : List EnvItem) : List EnvItem → EnvM (List EnvItem)
  | [] => pure sorted.reverse
  | item :: rest => do
    let inserted ← envInsert host item sorted
    envSort host inserted rest

/-- The loop that writes the items; the block holds what is written. -/
def envEmit (cap : Nat) (block : List UInt16) : List EnvItem → EnvM (List UInt16)
  | [] => pure block
  | item :: rest =>
    if cap ≤ block.length ∨ cap - block.length - 1 < item.text.length then envFail "environment too large"
    else envEmit cap (block ++ item.text ++ [0]) rest

def envClose (cap : Nat) (block : List UInt16) (nitems : Nat) : EnvM (List UInt16) :=
  if cap - block.length < (if nitems = 0 then 2 else 1) then envFail "environment too large"
  else pure (block ++ List.replicate (if nitems = 0 then 2 else 1) 0)

/-- The keys and values of a list of even length. -/
def envPairs : List Bytes → List (Bytes × Bytes)
  | key :: value :: rest => (key, value) :: envPairs rest
  | _ => []

/-- `build_env_block`; `pairs` is what `Tcl_ListObjGetElements` gives. -/
def buildEnvBlock (host : EnvHost) (pairs : Option (List Bytes)) (cap : Nat) : EnvM (List UInt16) :=
  match pairs with
  | none => envFail "bad -env value"
  | some words =>
    if words.length % 2 ≠ 0 then envFail "-env needs key/value pairs"
    else if cIntMax < words.length / 2 then envFail "environment too large"
    else if host.alloc .keys = false then envFail "out of memory"
    else do
      let keys ← envKeys host [] ((envPairs words).map Prod.fst)
      match host.inherited with
      | none => envFail "cannot read inherited environment"
      | some inherited =>
        if sizeMax - keys.length < (envEntries inherited).length then envFail "environment too large"
        else if host.alloc .items = false then envFail "out of memory"
        else do
          let kept ← envInherited host keys (envEntries inherited)
          let added ← envValues host cap 0 (keys.zip ((envPairs words).map Prod.snd))
          let sorted ← envSort host [] (kept ++ added)
          let block ← envEmit cap [] sorted
          envClose cap block sorted.length

end Machteld
