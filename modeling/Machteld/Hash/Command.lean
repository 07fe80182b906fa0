import Mathlib.Logic.Function.Basic
import Machteld.Ledger
import Machteld.TclValue
import Machteld.Units.Parse
import Machteld.Decimal

namespace Machteld

inductive HashAlg
  | md5
  | sha1
  | sha256
  | sha384
  | sha512
  deriving DecidableEq

/-- What `hash` has to give back. -/
inductive HashAsset
  | block (b : Nat)
  | scratch (s : Nat)
  | provider (p : Nat)
  | hash (h : Nat)
  | channel (ch : Nat)
  deriving DecidableEq

/-- The calls of `hash`; data comes from a scratch string, or from the
buffer on the stack. -/
inductive HashCall
  | alloc
  | free (b : Nat)
  | valueBytes (v : TclValue)
  | scratchFree (s : Nat)
  | openProvider (alg : HashAlg) (hmac : Bool)
  | digestLength (p : Nat)
  | closeProvider (p : Nat)
  | createHash (p : Nat) (key : Option (Nat × Bytes))
  | hashData (h : Nat) (source : Option Nat) (data : Bytes)
  | finishHash (h n : Nat)
  | destroyHash (h : Nat)
  | genRandom (b n : Nat)
  | openFile (path : Bytes)
  | setBinary (ch : Nat)
  | readRaw (ch n : Nat)
  | closeChannel (ch : Nat)
  | createCommand
  | pkgProvide

/-- A file that cannot be opened is one that is not there, or another. -/
@[reducible] def HashCall.Answer : HashCall → Type
  | alloc => Option Nat
  | free _ => Unit
  | valueBytes _ => Nat
  | scratchFree _ => Unit
  | openProvider _ _ => Option Nat
  | digestLength _ => Option Nat
  | closeProvider _ => Unit
  | createHash _ _ => Option Nat
  | hashData _ _ _ => Bool
  | finishHash _ _ => Option Bytes
  | destroyHash _ => Unit
  | genRandom _ _ => Option Bytes
  | openFile _ => Except Bool Nat
  | setBinary _ => Option TclError
  | readRaw _ _ => Option Bytes
  | closeChannel _ => Bool
  | createCommand => Bool
  | pkgProvide => Bool

abbrev HashM := Prog HashCall HashCall.Answer

/-- A hash object: its algorithm, its key, and what has gone into it, as far
as that is known. -/
structure HashObject where
  alg : HashAlg
  key : Option Bytes
  data : Option Bytes

/-- The hash objects and providers there have been, what is left to read of
the channels, and the files. -/
structure Cng where
  providers : Nat → Option (HashAlg × Bool)
  objects : Nat → Option HashObject
  channels : Nat → Option Bytes
  files : Bytes → Option Bytes

namespace Cng

def openProvider (w : Cng) (p : Nat) (alg : HashAlg) (hmac : Bool) : Cng :=
  { w with providers := Function.update w.providers p (some (alg, hmac)) }

def createHash (w : Cng) (p : Nat) (key : Bytes) (h : Nat) : Cng :=
  { w with
    objects := Function.update w.objects h
      ((w.providers p).map fun provider => ⟨provider.1, if provider.2 then some key else none, some []⟩) }

/-- What has gone into an object is another thing now. -/
def feed (w : Cng) (h : Nat) (change : Option Bytes → Option Bytes) : Cng :=
  { w with objects := Function.update w.objects h ((w.objects h).map fun o => { o with data := change o.data }) }

def readOn (w : Cng) (ch : Nat) (rest : Bytes) : Cng :=
  { w with channels := Function.update w.channels ch (some rest) }

end Cng

section

variable (digest : HashAlg → Option Bytes → Bytes → Bytes)

/-- What a call does; none where it cannot end like this. A call of CNG that
fails leaves nobody knows what in its object. -/
def hashEffect (w : Cng) : (c : HashCall) → c.Answer → Option Cng
  | .openProvider alg hmac, answer => some (answer.elim w fun p => w.openProvider p alg hmac)
  | .createHash p key, answer => some (answer.elim w fun h => w.createHash p (key.elim [] Prod.snd) h)
  | .hashData h _ data, answer => some (w.feed h fun before => if answer then before.map (· ++ data) else none)
  | .finishHash h n, answer =>
    match answer with
    | none => some (w.feed h fun _ => none)
    | some out =>
      if out.length = n ∧ ∀ o ∈ w.objects h, ∀ data ∈ o.data, out = digest o.alg o.key data then some
        (w.feed h fun _ => none)
      else none
  | .genRandom _ n, answer => if answer.all fun out => decide (out.length = n) then some w else none
  | .openFile path, answer =>
    match answer with
    | .error _ => some w
    | .ok ch => (w.files path).map fun content => w.readOn ch content
  | .readRaw ch n, answer =>
    match answer with
    | none => some w
    | some out =>
      let rest := (w.channels ch).getD []
      if out <+: rest ∧ out.length ≤ n ∧ (out = [] → rest = []) then some
        (w.readOn ch (rest.drop out.length)) else none
  | _, _ => some w

/-- How the calls end. -/
structure HashChoice where
  answer : (c : HashCall) → c.Answer

/-- CNG and the channels; nobody else changes anything. -/
def hashHost : Host HashCall HashCall.Answer where
  World := Cng
  Choice := HashChoice
  act c choice w := (hashEffect digest w c (choice.answer c)).map fun v => (choice.answer c, v)
  Move := Empty
  move m := m.elim

end

/-- What the calls take, use and give back. -/
def hashDeal : (c : HashCall) → c.Answer → Deal HashAsset
  | .alloc, answer => { takes := answer.elim 0 fun b => {.block b} }
  | .free b, _ => { gives := {.block b} }
  | .valueBytes _, s => { takes := {.scratch s} }
  | .scratchFree s, _ => { gives := {.scratch s} }
  | .openProvider _ _, answer => { takes := answer.elim 0 fun p => {.provider p} }
  | .digestLength p, _ => { needs := {.provider p} }
  | .closeProvider p, _ => { gives := {.provider p} }
  | .createHash p key, answer =>
    { needs := {.provider p} + key.elim 0 fun k => {.scratch k.1}, takes := answer.elim 0 fun h => {.hash h} }
  | .hashData h source _, _ => { needs := {.hash h} + source.elim 0 fun s => {.scratch s} }
  | .finishHash h _, _ => { needs := {.hash h} }
  | .destroyHash h, _ => { gives := {.hash h} }
  | .genRandom b _, _ => { needs := {.block b} }
  | .openFile _, answer => { takes := answer.toOption.elim 0 fun ch => {.channel ch} }
  | .setBinary ch, _ => { needs := {.channel ch} }
  | .readRaw ch _, _ => { needs := {.channel ch} }
  | .closeChannel ch, _ => { gives := {.channel ch} }
  | .createCommand, _ => {}
  | .pkgProvide, _ => {}

def hashMaxDigest : Nat := 64

def hashChunk : Nat := 64 * 1024

def ulongMax : Nat := 4294967295

/-- `hash_error` -/
def hashError (code message : String) : TclError := tclFail "HASH" code (ascii message)

/-- What a command leaves as its result; the texts of `Tcl_WrongNumArgs` and
`Tcl_GetIndexFromObj` are what these two make of their arguments. -/
inductive HashReply
  | empty
  | text (s : Bytes)
  | binary (b : Bytes)
  | words (l : List Bytes)
  | error (err : TclError)
  | wrongArgs (count : Nat) (usage : String)
  | badSubcommand

/-- `ALGS` -/
def algs : List (Bytes × HashAlg) :=
  [(ascii "md5", .md5), (ascii "sha1", .sha1), (ascii "sha256", .sha256), (ascii "sha384", .sha384),
    (ascii "sha512", .sha512)]

/-- `alg_find` -/
def algFind (name : Bytes) : Option HashAlg := (algs.find? fun a => a.1 == name).map Prod.snd

/-- `hctx_t` -/
structure HashCtx where
  number : Nat
  address : Nat
  alg : HashAlg
  algH : Nat
  h : Nat
  digestLen : Nat

abbrev hashToken (n : Nat) : Bytes := handleToken "hash" n

def HashCtx.token (c : HashCtx) : Bytes := hashToken c.number

/-- `hash_state`; `seq` is how many contexts there have been. -/
structure HashState where
  address : Nat
  ctxs : List HashCtx
  seq : Nat

/-- `hctx_find` -/
def HashState.find (st : HashState) (token : Bytes) : Option HashCtx := st.ctxs.find? fun c => c.token == token

/-- The list that `hctx_free` leaves: the first of its kind is taken out. -/
def HashState.unlink (st : HashState) (c : HashCtx) : HashState :=
  { st with ctxs := st.ctxs.eraseP fun d => d.address == c.address }

abbrev HashCall.ask (c : HashCall) : HashM c.Answer := Prog.ask c

/-- `hctx_free` -/
def hctxFree (st : HashState) (c : HashCtx) : HashM HashState := do
  HashCall.ask (.destroyHash c.h)
  HashCall.ask (.closeProvider c.algH)
  HashCall.ask (.free c.address)
  return st.unlink c

/-- What `alg_open` gives back. -/
structure HashOpen where
  algH : Nat
  h : Nat
  digestLen : Nat

/-- `alg_open` -/
def algOpen (alg : HashAlg) (key : Option (Nat × Bytes)) : HashM (Except TclError HashOpen) := do
  match ← HashCall.ask (.openProvider alg key.isSome) with
  | none => return .error (hashError "oserror" "cannot open the crypto provider")
  | some p =>
    match ← HashCall.ask (.digestLength p) with
    | none => do
      HashCall.ask (.closeProvider p)
      return .error (hashError "oserror" "cannot read the digest length")
    | some n =>
      if n = 0 ∨ hashMaxDigest < n then do
        HashCall.ask (.closeProvider p)
        return .error (hashError "oserror" "the crypto provider returned an invalid digest length")
      else if ulongMax < (key.elim [] Prod.snd).length then do
        HashCall.ask (.closeProvider p)
        return .error (hashError "badvalue" "the HMAC key is too large")
      else
        match ← HashCall.ask (.createHash p key) with
        | none => do
          HashCall.ask (.closeProvider p)
          return .error (hashError "oserror" "cannot create the hash object")
        | some h => return .ok ⟨p, h, n⟩

def hexDigits : List UInt8 := ascii "0123456789abcdef"

def hexText (d : Bytes) : Bytes :=
  d.flatMap fun b : UInt8 => [hexDigits.getD (b >>> 4).toNat 0, hexDigits.getD (b &&& 15).toNat 0]

/-- How a digest is shown. -/
def digestShown (d : Bytes) (binary : Bool) : HashReply := if binary then .binary d else .text (hexText d)

/-- `digest_obj`, and the error where it has no memory. -/
def digestObj (d : Bytes) (binary : Bool) : HashM HashReply :=
  if binary then return digestShown d binary
  else do
    match ← HashCall.ask .alloc with
    | none => return .error (hashError "oserror" "out of memory")
    | some b => do
      HashCall.ask (.free b)
      return digestShown d binary

/-- `want_binary` -/
def wantBinary : List TclValue → Bool → Option Bool
  | [], binary => some binary
  | v :: rest, _ => if v.string = ascii "-binary" then wantBinary rest true else none

/-- The bytes of a key, where there is one. -/
def keyBytes : Option TclValue → HashM (Option (Nat × Bytes))
  | none => return none
  | some key => do
    let s ← HashCall.ask (.valueBytes key)
    return some (s, key.valueBytes)

def keyFree : Option (Nat × Bytes) → HashM Unit
  | none => return ()
  | some k => HashCall.ask (.scratchFree k.1)

/-- All of the data goes in and the digest comes out. -/
def hashWhole (o : HashOpen) (s : Nat) (data : Bytes) : HashM (Option Bytes) := do
  match ← HashCall.ask (.hashData o.h (some s) data) with
  | false => return none
  | true => HashCall.ask (.finishHash o.h o.digestLen)

def inputTooLarge : HashReply := .error (hashError "badvalue" "the input is too large")

/-- `hash sum`, and `hash hmac` where there is a key. -/
def hashOnce (alg : HashAlg) (key : Option TclValue) (data : TclValue) (binary : Bool) : HashM HashReply := do
  let k ← keyBytes key
  let s ← HashCall.ask (.valueBytes data)
  if ulongMax < data.valueBytes.length then do
    keyFree k
    HashCall.ask (.scratchFree s)
    return inputTooLarge
  else
    match ← algOpen alg k with
    | .error err => do
      keyFree k
      HashCall.ask (.scratchFree s)
      return .error err
    | .ok o => do
      let out ← hashWhole o s data.valueBytes
      keyFree k
      HashCall.ask (.scratchFree s)
      HashCall.ask (.destroyHash o.h)
      HashCall.ask (.closeProvider o.algH)
      match out with
      | none => return .error (hashError "oserror" (if key.isSome then "hmac failed" else "hashing failed"))
      | some d => digestObj d binary

/-- The loop of `hash file`; the result is whether it failed. -/
def hashChannel (ch h : Nat) : HashM Bool :=
  Prog.iterate (fun _ => do
    match ← HashCall.ask (.readRaw ch hashChunk) with
    | none => return .inr true
    | some [] => return .inr false
    | some buf =>
      match ← HashCall.ask (.hashData h none buf) with
      | false => return .inr true
      | true => return .inl ()) ()

/-- The digest of what went in, unless something failed. -/
def finishUnless (failed : Bool) (o : HashOpen) : HashM (Option Bytes) :=
  if failed then return none else HashCall.ask (.finishHash o.h o.digestLen)

/-- `hash file` -/
def hashFile (alg : HashAlg) (path : TclValue) (binary : Bool) : HashM HashReply := do
  match ← HashCall.ask (.openFile path.string) with
  | .error absent =>
    return .error (tclFail "HASH" (if absent then "notfound" else "oserror")
      (ascii "cannot read " ++ quoted path.string))
  | .ok ch =>
    match ← HashCall.ask (.setBinary ch) with
    | some err => do
      let _ ← HashCall.ask (.closeChannel ch)
      return .error err
    | none =>
      match ← algOpen alg none with
      | .error err => do
        let _ ← HashCall.ask (.closeChannel ch)
        return .error err
      | .ok o => do
        let failed ← hashChannel ch o.h
        let closed ← HashCall.ask (.closeChannel ch)
        let out ← finishUnless (failed || !closed) o
        HashCall.ask (.destroyHash o.h)
        HashCall.ask (.closeProvider o.algH)
        match out with
        | none => return .error (hashError "oserror" "reading the file failed")
        | some d => digestObj d binary

/-- `hash random` -/
def hashRandom (n : Nat) : HashM HashReply := do
  match ← HashCall.ask .alloc with
  | none => return .error (hashError "oserror" "out of memory")
  | some b =>
    match ← HashCall.ask (.genRandom b n) with
    | none => do
      HashCall.ask (.free b)
      return .error (hashError "oserror" "the system random generator failed")
    | some out => do
      HashCall.ask (.free b)
      return .binary out

/-- `hash start` -/
def hashStart (alg : HashAlg) (st : HashState) : HashM (HashReply × HashState) := do
  match ← HashCall.ask .alloc with
  | none => return (.error (hashError "oserror" "out of memory"), st)
  | some b =>
    match ← algOpen alg none with
    | .error err => do
      HashCall.ask (.free b)
      return (.error err, st)
    | .ok o =>
      let c : HashCtx := ⟨st.seq + 1, b, alg, o.algH, o.h, o.digestLen⟩
      return (.text c.token, { st with seq := st.seq + 1, ctxs := c :: st.ctxs })

def hashingFailed : HashReply := .error (hashError "oserror" "hashing failed")

/-- `hash update` -/
def hashUpdate (c : HashCtx) : List TclValue → HashM HashReply
  | [data] => do
    let s ← HashCall.ask (.valueBytes data)
    if ulongMax < data.valueBytes.length then do
      HashCall.ask (.scratchFree s)
      return inputTooLarge
    else do
      let taken ← HashCall.ask (.hashData c.h (some s) data.valueBytes)
      HashCall.ask (.scratchFree s)
      return if taken then .empty else hashingFailed
  | _ => return .wrongArgs 2 "token data"

def unknownOption : HashReply := .error (hashError "usage" "unknown option")

/-- `hash final` -/
def hashFinal (st : HashState) (c : HashCtx) (rest : List TclValue) : HashM (HashReply × HashState) :=
  match wantBinary rest false with
  | none => return (unknownOption, st)
  | some binary => do
    let out ← HashCall.ask (.finishHash c.h c.digestLen)
    let st ← hctxFree st c
    match out with
    | none => return (.error (hashError "oserror" "finishing the hash failed"), st)
    | some d => do
      let reply ← digestObj d binary
      return (reply, st)

/-- What a command asks for, once its words are read; what an update or a
final has behind its token is looked at where the token is known. -/
inductive HashRequest
  | refused (reply : HashReply)
  | algorithms
  | list
  | random (n : Nat)
  | start (alg : HashAlg)
  | once (alg : HashAlg) (key : Option TclValue) (data : TclValue) (binary : Bool)
  | file (alg : HashAlg) (path : TclValue) (binary : Bool)
  | update (token : Bytes) (rest : List TclValue)
  | final (token : Bytes) (rest : List TclValue)

inductive HashSub
  | sum
  | file
  | hmac
  | start
  | update
  | final
  | list
  | algorithms
  | random
  deriving DecidableEq

def hashSubs : List (Bytes × HashSub) :=
  [(ascii "sum", .sum), (ascii "file", .file), (ascii "hmac", .hmac), (ascii "start", .start),
    (ascii "update", .update),
    (ascii "final", .final), (ascii "list", .list), (ascii "algorithms", .algorithms), (ascii "random", .random)]

def binaryThen (rest : List TclValue) (request : Bool → HashRequest) : HashRequest :=
  (wantBinary rest false).elim (.refused unknownOption) request

/-- The words behind the name of an algorithm. -/
def hashAlgWords (alg : HashAlg) : HashSub → List TclValue → HashRequest
  | .start, [] => .start alg
  | .start, _ => .refused (.wrongArgs 2 "algorithm")
  | .hmac, key :: data :: rest => binaryThen rest (.once alg (some key) data)
  | .hmac, _ => .refused (.wrongArgs 2 "algorithm key data ?-binary?")
  | .sum, data :: rest => binaryThen rest (.once alg none data)
  | .sum, _ => .refused (.wrongArgs 2 "algorithm data ?-binary?")
  | _, path :: rest => binaryThen rest (.file alg path)
  | _, _ => .refused (.wrongArgs 2 "algorithm path ?-binary?")

/-- The words behind a subcommand; `wide` reads an integer. -/
def hashSubWords (wide : TclValue → Option Int) : HashSub → List TclValue → HashRequest
  | .algorithms, [] => .algorithms
  | .algorithms, _ => .refused (.wrongArgs 2 "")
  | .list, [] => .list
  | .list, _ => .refused (.wrongArgs 2 "")
  | .random, [count] =>
    match wide count with
    | none => .refused (.error (hashError "badvalue" "count must be an integer"))
    | some n =>
      if n < 1 ∨ 1048576 < n then .refused (.error (hashError "badvalue" "count must be between 1 and 1048576"))
      else .random n.toNat
  | .random, _ => .refused (.wrongArgs 2 "count")
  | .update, token :: rest => .update token.string rest
  | .update, [] => .refused (.wrongArgs 2 "token ?arg?")
  | .final, token :: rest => .final token.string rest
  | .final, [] => .refused (.wrongArgs 2 "token ?arg?")
  | sub, name :: rest =>
    match algFind name.string with
    | none =>
      .refused (.error (tclFail "HASH" "badvalue"
        (ascii "unknown algorithm " ++ (quoted name.string ++ ascii ": try `hash algorithms`"))))
    | some alg => hashAlgWords alg sub rest
  | _, [] => .refused (.wrongArgs 2 "algorithm ?arg ...?")

/-- The words behind `hash`. -/
def hashRequest (wide : TclValue → Option Int) : List TclValue → HashRequest
  | [] => .refused (.wrongArgs 1 "subcommand ?arg ...?")
  | sub :: rest =>
    match (hashSubs.find? fun s => s.1 == sub.string).map Prod.snd with
    | none => .refused .badSubcommand
    | some sub => hashSubWords wide sub rest

def noContext : HashReply := .error (hashError "nohandle" "no such hash context")

/-- `HashCmd` -/
def hashCmd (st : HashState) : HashRequest → HashM (HashReply × HashState)
  | .refused reply => return (reply, st)
  | .algorithms => return (.words (algs.map Prod.fst), st)
  | .list => return (.words (st.ctxs.map HashCtx.token), st)
  | .random n => return (← hashRandom n, st)
  | .start alg => hashStart alg st
  | .once alg key data binary => return (← hashOnce alg key data binary, st)
  | .file alg path binary => return (← hashFile alg path binary, st)
  | .update token rest =>
    match st.find token with
    | none => return (noContext, st)
    | some c => return (← hashUpdate c rest, st)
  | .final token rest =>
    match st.find token with
    | none => return (noContext, st)
    | some c => hashFinal st c rest

/-- The loop of `HashDelete`. -/
def hashDrop : HashState → HashM HashState :=
  Prog.iterate fun st =>
    match st.ctxs with
    | [] => return .inr st
    | c :: _ => return .inl (← hctxFree st c)

/-- `HashDelete` -/
def hashDelete (st : HashState) : HashM Unit := do
  let st ← hashDrop st
  HashCall.ask (.free st.address)

/-- `Machteldhash_Init`; where it fails there is no command. -/
def hashInit : HashM (Option HashState) := do
  match ← HashCall.ask .alloc with
  | none => return none
  | some b =>
    match ← HashCall.ask .createCommand with
    | false => do
      HashCall.ask (.free b)
      return none
    | true =>
      match ← HashCall.ask .pkgProvide with
      | true => return some ⟨b, [], 0⟩
      | false => do
        hashDelete ⟨b, [], 0⟩
        return none

/-- One command after another. -/
def hashCmds (st : HashState) : List HashRequest → HashM (List HashReply × HashState)
  | [] => return ([], st)
  | r :: rs => do
    let (reply, st) ← hashCmd st r
    let (replies, st) ← hashCmds st rs
    return (reply :: replies, st)

/-- The command from its creation to its end, with the words of each use. -/
def hashSession (wide : TclValue → Option Int) (objvs : List (List TclValue)) : HashM (Option (List HashReply)) :=
  do
  match ← hashInit with
  | none => return none
  | some st => do
    let (replies, st) ← hashCmds st (objvs.map (hashRequest wide))
    hashDelete st
    return some replies

end Machteld
