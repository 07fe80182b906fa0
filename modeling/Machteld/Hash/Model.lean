import Machteld.Run
import Machteld.Hash.Command

namespace Machteld

def HashReply.Fails : HashReply → Prop
  | error _ => True
  | _ => False

/-- An open context as its users know it; none where nobody knows what went
in. -/
structure HashContext where
  number : Nat
  alg : HashAlg
  data : Option Bytes

def HashContext.token (c : HashContext) : Bytes := hashToken c.number

/-- What `hash` is to its users: contexts that data is added to. -/
structure HashModel where
  contexts : List HashContext
  seq : Nat

namespace HashModel

def find (m : HashModel) (token : Bytes) : Option HashContext := m.contexts.find? fun c => c.token == token

def opened (m : HashModel) (alg : HashAlg) : HashModel := ⟨⟨m.seq + 1, alg, some []⟩ :: m.contexts, m.seq + 1⟩

/-- The context that a token names becomes another. -/
def change (m : HashModel) (token : Bytes) (f : Option Bytes → Option Bytes) : HashModel :=
  { m with contexts := m.contexts.replaceF fun c => if c.token =
    token then some { c with data := f c.data } else none }

def drop (m : HashModel) (token : Bytes) : HashModel :=
  { m with contexts := m.contexts.eraseP fun c => c.token == token }

/-- What becomes of data for a token, whose context may be there: it is
taken, it is refused as it is too large, or nobody knows what CNG has made
of it. -/
def Updates (m : HashModel) (token : Bytes) (rest : List TclValue) (reply : HashReply) (m' : HashModel) :
    Option HashContext → Prop
  | none => reply = noContext ∧ m' = m
  | some _ =>
    (∃ data, rest = [data] ∧ (reply = .empty ∧ m' = m.change token (·.map (· ++ data.valueBytes)) ∨
      reply = inputTooLarge ∧ m' = m ∨ reply = hashingFailed ∧ m' = m.change token fun _ => none)) ∨
    rest.length ≠ 1 ∧ reply = .wrongArgs 2 "token data" ∧ m' = m

/-- What the end of a context gives, if it is one. -/
def Finals (digest : HashAlg → Option Bytes → Bytes → Bytes) (m : HashModel) (token : Bytes) (reply : HashReply)
    (m' : HashModel) : Option HashContext → Option Bool → Prop
  | none, _ => reply = noContext ∧ m' = m
  | some _, none => reply = unknownOption ∧ m' = m
  | some c, some binary =>
    (reply.Fails ∨ ∃ d, reply = digestShown d binary ∧ ∀ known ∈ c.data, d = digest c.alg none known) ∧
      m' = m.drop token

/-- Nobody has the number of another. -/
structure Sound (m : HashModel) : Prop where
  counted : ∀ c ∈ m.contexts, c.number ≤ m.seq
  numbered : (m.contexts.map HashContext.number).Nodup

end HashModel

/-- The first that a function replaces. -/
theorem replaceF_append {α : Type} {f : α → Option α} {before after : List α} {a b : α}
    (others : ∀ d ∈ before, f d = none)
    (here : f a = some b) : (before ++ a :: after).replaceF f = before ++ b :: after := by
  induction before with
  | nil => exact List.replaceF_cons_of_some _ here
  | cons d before ih =>
    rw [List.cons_append, List.replaceF_cons_of_none _ (others d List.mem_cons_self),
      ih fun e member => others e (List.mem_cons_of_mem _ member), List.cons_append]

section

variable (digest : HashAlg → Option Bytes → Bytes → Bytes) (files : Bytes → Option Bytes)

/-- What each request may be answered with, and what becomes of the
contexts. -/
def HashServes (m : HashModel) : HashRequest → HashReply → HashModel → Prop
  | .refused refusal, reply, m' => reply = refusal ∧ m' = m
  | .algorithms, reply, m' => reply = .words (algs.map Prod.fst) ∧ m' = m
  | .list, reply, m' => reply = .words (m.contexts.map HashContext.token) ∧ m' = m
  | .random n, reply, m' => (reply.Fails ∨ ∃ out : Bytes, out.length = n ∧ reply = .binary out) ∧ m' = m
  | .start alg, reply, m' => reply.Fails ∧ m' = m ∨ reply = .text (hashToken (m.seq + 1)) ∧ m' = m.opened alg
  | .once alg key data binary, reply, m' =>
    (reply.Fails ∨ reply = digestShown (digest alg (key.map TclValue.valueBytes) data.valueBytes) binary) ∧ m' = m
  | .file alg path binary, reply, m' =>
    (reply.Fails ∨ ∃ content, files path.string = some content ∧
      reply = digestShown (digest alg none content) binary) ∧ m' = m
  | .update token rest, reply, m' => m.Updates token rest reply m' (m.find token)
  | .final token rest, reply, m' => m.Finals digest token reply m' (m.find token) (wantBinary rest false)

/-- One request after another. -/
abbrev HashServed (m : HashModel) (t : List (HashRequest × HashReply)) (m' : HashModel) : Prop :=
  RunAllows (fun m e m' => HashServes digest files m e.1 e.2 m') m t m'

end

/-- A request that ends a context. -/
def HashRequest.ends (token : Bytes) : HashRequest → Bool
  | final other rest => other == token && (wantBinary rest false).isSome
  | _ => false

/-- What a context takes of an update: its data, unless it is refused. -/
def HashRequest.piece (token : Bytes) : HashRequest → HashReply → Bytes
  | update other [data], .empty => if other = token then data.valueBytes else []
  | _, _ => []

/-- A context that is not ended, and none of whose updates has failed in
CNG. -/
def FedBy (token : Bytes) (t : List (HashRequest × HashReply)) : Prop :=
  ∀ e ∈ t, e.1.ends token = false ∧ ∀ data, e.1 = .update token [data] → e.2 ≠ hashingFailed

/-- What went into a context, piece by piece. -/
def fedPieces (token : Bytes) (t : List (HashRequest × HashReply)) : Bytes := t.flatMap fun e => e.1.piece token e.2

/-- The digests that a session has answered with: of the data, of the file,
and of all that went into the context, where CNG has refused nothing of it
and the counter of the source has not come round. -/
structure HashDigests (digest : HashAlg → Option Bytes → Bytes → Bytes) (files : Bytes → Option Bytes)
    (t : List (HashRequest × HashReply)) : Prop where
  once : ∀ alg key data binary reply, (.once alg key data binary, reply) ∈ t →
    reply.Fails ∨ reply = digestShown (digest alg (key.map TclValue.valueBytes) data.valueBytes) binary
  file : ∀ alg path binary reply, (.file alg path binary, reply) ∈ t →
    reply.Fails ∨ ∃ content, files path.string = some content ∧ reply = digestShown (digest alg none content) binary
  final : t.length < 2 ^ 31 → ∀ before alg token middle rest binary reply after,
    t = before ++ (.start alg, .text token) :: (middle ++ (.final token rest, reply) :: after) →
      wantBinary rest false = some binary →
      FedBy token middle → reply.Fails ∨ reply = digestShown (digest alg none (fedPieces token middle)) binary

section

variable {digest : HashAlg → Option Bytes → Bytes → Bytes} {files : Bytes → Option Bytes}
  {m m' : HashModel} {token : Bytes}
  {c : HashContext} {request : HashRequest} {reply : HashReply} {t : List (HashRequest × HashReply)}

/-- The context that a token names, and what it is to change it or to take
it out. -/
theorem HashModel.split (found : m.find token = some c) :
    ∃ before after, m.contexts = before ++ c :: after ∧ c.token = token ∧
    (∀ d ∈ before, d.token ≠ token) ∧ (∀ f, (m.change token f).contexts = before ++
      { c with data := f c.data } :: after) ∧
    (m.drop token).contexts = before ++ after := by
  obtain ⟨own, before, after, same, others⟩ := List.find?_eq_some_iff_append.mp found
  have own : c.token = token := beq_iff_eq.mp own
  have others : ∀ d ∈ before, d.token ≠ token := fun d member equal => by
    have other := others d member
    rw [equal, beq_self_eq_true] at other
    cases other
  refine ⟨before, after, same, own, others, fun f => ?_, ?_⟩
  · rw [HashModel.change, same]
    exact replaceF_append (fun d member => if_neg (others d member)) (if_pos own)
  · have here : (c :: after).eraseP (fun d => d.token == token) = after :=
      List.eraseP_cons_of_pos (beq_iff_eq.mpr own)
    rw [HashModel.drop, same, List.eraseP_append_right _
      (fun d member equal => others d member (beq_iff_eq.mp equal)), here]

namespace HashModel.Sound

theorem opened (sound : m.Sound) (alg : HashAlg) : (m.opened alg).Sound := by
  refine ⟨fun c member => ?_, List.nodup_cons.mpr ⟨fun there => ?_, sound.numbered⟩⟩
  · rcases List.mem_cons.mp member with rfl | old
    · exact Nat.le_refl _
    · exact (sound.counted c old).trans (Nat.le_succ _)
  · obtain ⟨c, member, same⟩ := List.mem_map.mp there
    have counted := sound.counted c member
    rw [same] at counted
    exact absurd counted (Nat.not_succ_le_self _)

theorem change (sound : m.Sound) (found : m.find token = some c) (f : Option Bytes → Option Bytes) :
    (m.change token f).Sound := by
  obtain ⟨before, after, same, -, -, changed, -⟩ := HashModel.split found
  have numbers : (m.change token f).contexts.map HashContext.number = m.contexts.map HashContext.number := by
    rw [changed f, same, List.map_append, List.map_append, List.map_cons, List.map_cons]
  refine ⟨fun d member => ?_, numbers ▸ sound.numbered⟩
  obtain ⟨e, member, same⟩ := List.mem_map.mp (numbers ▸ List.mem_map_of_mem member)
  exact same ▸ sound.counted e member

theorem drop (sound : m.Sound) (token : Bytes) : (m.drop token).Sound :=
  ⟨fun c member => sound.counted c (List.mem_of_mem_eraseP member),
    sound.numbered.sublist (List.eraseP_sublist.map HashContext.number)⟩

/-- No token names two contexts before the counter of the source comes
round. -/
theorem tokens (sound : m.Sound) (few : m.seq < 2 ^ 31) : (m.contexts.map HashContext.token).Nodup := by
  have counted : ∀ n ∈ m.contexts.map HashContext.number, n ≤ m.seq := fun n known => by
    obtain ⟨c, member, rfl⟩ := List.mem_map.mp known
    exact sound.counted c member
  have distinct := handleTokens_nodup "hash" few counted sound.numbered
  rwa [List.map_map] at distinct

/-- A token names the one context that has it. -/
theorem find_eq (sound : m.Sound) (few : m.seq < 2 ^ 31) (member : c ∈ m.contexts) : m.find c.token = some c := by
  cases found : m.find c.token with
  | none => exact absurd (beq_self_eq_true c.token) (List.find?_eq_none.mp found c member)
  | some d =>
    have same : d.token = c.token :=
      beq_iff_eq.mp (List.find?_some (p := fun e : HashContext => e.token == c.token) (l := m.contexts) found)
    rw [List.inj_on_of_nodup_map (sound.tokens few) (List.mem_of_find?_eq_some found) member same]

end HashModel.Sound

theorem HashModel.change_mem {f : Option Bytes → Option Bytes} (found : m.find token = some c) :
    { c with data := f c.data } ∈ (m.change token f).contexts := by
  obtain ⟨before, after, -, -, -, changed, -⟩ := HashModel.split found
  rw [changed f]
  exact List.mem_append_right _ List.mem_cons_self

/-- Another context stays what it was. -/
theorem HashModel.change_other {d : HashContext} {f : Option Bytes → Option Bytes} (found : m.find token = some c)
    (member : d ∈ m.contexts) (other : d.token ≠ token) : d ∈ (m.change token f).contexts := by
  obtain ⟨before, after, same, own, -, changed, -⟩ := HashModel.split found
  rw [changed f]
  rw [same] at member
  rcases List.mem_append.mp member with first | rest
  · exact List.mem_append_left _ first
  · rcases List.mem_cons.mp rest with rfl | last
    · exact absurd own other
    · exact List.mem_append_right _ (List.mem_cons_of_mem _ last)

theorem HashModel.drop_mem (member : c ∈ m.contexts) (other : c.token ≠ token) : c ∈ (m.drop token).contexts :=
  (List.mem_eraseP_of_neg (p := fun d : HashContext => d.token == token) fun same =>
    other (beq_iff_eq.mp same)).mpr member

theorem HashRequest.piece_many {other : Bytes} {rest : List TclValue} (many : rest.length ≠ 1) :
    (update other rest).piece token reply = [] := by
  unfold HashRequest.piece
  split
  · rename_i same
    cases same
    exact absurd rfl many
  · rfl

theorem HashRequest.piece_other {other : Bytes} {rest : List TclValue} (different : other ≠ token) :
    (update other rest).piece token reply = [] := by
  unfold HashRequest.piece
  split
  · rename_i same
    cases same
    exact if_neg different
  · rfl

theorem HashRequest.piece_refused (refused : reply ≠ .empty) : request.piece token reply = [] := by
  unfold HashRequest.piece
  split
  · exact absurd rfl refused
  · rfl

/-- All that a request can do: nothing, start a context, change the one of
its token, or end it. -/
theorem HashServes.step (served : HashServes digest files m request reply m') :
    (m' = m ∧ ∀ token, request.piece token reply = []) ∨
    (∃ alg, request = .start alg ∧ m' = m.opened alg) ∨
    (∃ token data c, request = .update token [data] ∧ m.find token = some c ∧
      (reply = .empty ∧ m' = m.change token (·.map (· ++ data.valueBytes)) ∨
        reply = hashingFailed ∧ m' = m.change token fun _ => none)) ∨
    ∃ token rest c, request = .final token rest ∧ m.find token = some c ∧ (wantBinary rest false).isSome = true ∧
      m' = m.drop token := by
  cases request with
  | refused _ => exact .inl ⟨served.2, fun _ => rfl⟩
  | algorithms => exact .inl ⟨served.2, fun _ => rfl⟩
  | list => exact .inl ⟨served.2, fun _ => rfl⟩
  | random _ => exact .inl ⟨served.2, fun _ => rfl⟩
  | start alg =>
    rcases served with ⟨-, same⟩ | ⟨-, same⟩
    · exact .inl ⟨same, fun _ => rfl⟩
    · exact .inr (.inl ⟨alg, rfl, same⟩)
  | once _ _ _ _ => exact .inl ⟨served.2, fun _ => rfl⟩
  | file _ _ _ => exact .inl ⟨served.2, fun _ => rfl⟩
  | update token rest =>
    change m.Updates token rest reply m' (m.find token) at served
    cases found : m.find token with
    | none =>
      rw [found] at served
      obtain ⟨rfl, same⟩ := served
      exact .inl ⟨same, fun _ => HashRequest.piece_refused nofun⟩
    | some c =>
      rw [found] at served
      rcases served with ⟨data, rfl, taken | ⟨rfl, same⟩ | failed⟩ | ⟨many, -, same⟩
      · exact .inr (.inr (.inl ⟨token, data, c, rfl, found, .inl taken⟩))
      · exact .inl ⟨same, fun _ => HashRequest.piece_refused nofun⟩
      · exact .inr (.inr (.inl ⟨token, data, c, rfl, found, .inr failed⟩))
      · exact .inl ⟨same, fun _ => HashRequest.piece_many many⟩
  | final token rest =>
    change m.Finals digest token reply m' (m.find token) (wantBinary rest false) at served
    cases found : m.find token with
    | none =>
      rw [found] at served
      exact .inl ⟨served.2, fun _ => rfl⟩
    | some c =>
      rw [found] at served
      cases binary : wantBinary rest false with
      | none =>
        rw [binary] at served
        exact .inl ⟨served.2, fun _ => rfl⟩
      | some binary' =>
        rw [binary] at served
        exact .inr (.inr (.inr ⟨token, rest, c, rfl, found, by rw [binary]; rfl, served.2⟩))

/-- Every request that is served keeps the tokens distinct and below the counter.
-/
theorem HashModel.Sound.serves (sound : m.Sound) (served : HashServes digest files m request reply m') :
    m'.Sound := by
  rcases served.step with ⟨rfl, -⟩ | ⟨alg, -, rfl⟩ | ⟨token, data, c, -, found, ⟨-, rfl⟩ | ⟨-, rfl⟩⟩ |
    ⟨token, rest, c, -, -, -, rfl⟩
  · exact sound
  · exact sound.opened alg
  · exact sound.change found _
  · exact sound.change found _
  · exact sound.drop token

/-- A request starts one context at most. -/
theorem HashServes.seq_le (served : HashServes digest files m request reply m') : m'.seq ≤ m.seq + 1 := by
  rcases served.step with ⟨rfl, -⟩ | ⟨alg, -, rfl⟩ | ⟨token, data, c, -, -, ⟨-, rfl⟩ | ⟨-, rfl⟩⟩ |
    ⟨token, rest, c, -, -, -, rfl⟩
  · exact Nat.le_succ _
  · exact le_rfl
  · exact Nat.le_succ _
  · exact Nat.le_succ _
  · exact Nat.le_succ _

/-- Each start takes one number. -/
theorem HashServed.seq_le (served : HashServed digest files m t m') : m'.seq ≤ m.seq + t.length := by
  induction t generalizing m with
  | nil =>
    obtain rfl : m' = m := served
    exact le_rfl
  | cons e t ih =>
    obtain ⟨n, first, rest⟩ := served
    have here := first.seq_le
    have later := ih rest
    rw [List.length_cons]
    omega

/-- A context takes what its updates bring, whatever is asked of others. -/
theorem HashServes.feeds {number : Nat} {alg : HashAlg} {known : Bytes}
    (served : HashServes digest files m request reply m')
    (sound : m.Sound) (few : m.seq < 2 ^ 31) (member : ⟨number, alg, some known⟩ ∈ m.contexts)
    (fed : FedBy (hashToken number) [(request, reply)]) :
    ⟨number, alg, some (known ++ request.piece (hashToken number) reply)⟩ ∈ m'.contexts := by
  obtain ⟨open', taken⟩ := fed (request, reply) List.mem_cons_self
  have found := sound.find_eq few member
  rcases served.step with ⟨rfl, none'⟩ | ⟨alg', rfl, rfl⟩ | ⟨other, data, c, rfl, found', changed⟩ |
    ⟨other, rest, c, rfl, -, binary, rfl⟩
  · rwa [none', List.append_nil]
  · change HashContext.mk number alg (some (known ++ [])) ∈ _
    rw [List.append_nil]
    exact List.mem_cons_of_mem _ member
  · by_cases same : other = hashToken number
    · subst same
      rcases changed with ⟨rfl, rfl⟩ | ⟨failed, -⟩
      · rw [HashRequest.piece, if_pos rfl]
        exact HashModel.change_mem (f := (·.map (· ++ data.valueBytes))) found
      · exact absurd failed (taken data rfl)
    · have there : ∀ f, ⟨number, alg, some known⟩ ∈ (m.change other f).contexts := fun f =>
        HashModel.change_other found' member fun equal => same equal.symm
      rw [HashRequest.piece_other same, List.append_nil]
      rcases changed with ⟨-, rfl⟩ | ⟨-, rfl⟩
      · exact there _
      · exact there _
  · change (other == hashToken number && (wantBinary rest false).isSome) = false at open'
    rw [binary, Bool.and_true, beq_eq_false_iff_ne] at open'
    change HashContext.mk number alg (some (known ++ [])) ∈ _
    rw [List.append_nil]
    exact HashModel.drop_mem member fun same => open' same.symm

theorem HashServed.sound (served : HashServed digest files m t m') (sound : m.Sound) : m'.Sound :=
  served.keeps (fun _ _ _ _ here sound => sound.serves here) sound

/-- Over a whole run, piece by piece. -/
theorem HashServed.feeds {number : Nat} {alg : HashAlg} {known : Bytes} (served : HashServed digest files m t m')
    (sound : m.Sound)
    (few : m.seq + t.length < 2 ^ 31) (member : ⟨number, alg, some known⟩ ∈ m.contexts)
    (fed : FedBy (hashToken number) t) :
    ⟨number, alg, some (known ++ fedPieces (hashToken number) t)⟩ ∈ m'.contexts := by
  induction t generalizing m known with
  | nil =>
    obtain rfl : m' = m := served
    rwa [fedPieces, List.flatMap_nil, List.append_nil]
  | cons e t ih =>
    obtain ⟨n, first, rest⟩ := served
    rw [List.length_cons] at few
    have here := first.feeds sound (by omega) member fun e' same => fed e' (by
      rw [List.mem_singleton.mp same]
      exact List.mem_cons_self)
    have counted := first.seq_le
    have later := ih rest (sound.serves first) (by omega) here fun e' inside =>
      fed e' (List.mem_cons_of_mem _ inside)
    rwa [List.append_assoc] at later

theorem HashModel.Sound.start : (⟨[], 0⟩ : HashModel).Sound :=
  ⟨fun _ none' => absurd none' List.not_mem_nil, List.nodup_nil⟩

/-- What users of `hash` may rely on: the pieces of a context have the
digest of the whole. -/
theorem HashServed.digests (served : HashServed digest files ⟨[], 0⟩ t m') : HashDigests digest files t where
  once alg key data binary reply member := by
    obtain ⟨n, n', here⟩ := served.mem member
    exact here.1
  file alg path binary reply member := by
    obtain ⟨n, n', here⟩ := served.mem member
    exact here.1
  final few before alg token middle rest binary reply after split' binary' fed := by
    subst split'
    rw [List.length_append, List.length_cons, List.length_append, List.length_cons] at few
    obtain ⟨n, first, n', started, served⟩ := served.append
    have counted := HashServed.seq_le first
    rw [Nat.zero_add] at counted
    rcases started with ⟨failed, -⟩ | ⟨same, rfl⟩
    · exact absurd failed id
    obtain rfl := HashReply.text.inj same
    obtain ⟨u, fedOn, u', ended, -⟩ := served.append
    have room : (n.opened alg).seq + middle.length < 2 ^ 31 := by
      change n.seq + 1 + middle.length < 2 ^ 31
      omega
    have sound := (HashServed.sound first .start).opened alg
    have there := HashServed.feeds fedOn sound room List.mem_cons_self fed
    have found := (HashServed.sound fedOn sound).find_eq (Nat.lt_of_le_of_lt (HashServed.seq_le fedOn) room) there
    change u.Finals digest (hashToken (n.seq + 1)) reply u' (u.find (hashToken (n.seq + 1)))
      (wantBinary rest false) at ended
    rw [show u.find (hashToken (n.seq + 1)) = _ from found, binary'] at ended
    refine ended.1.imp id ?_
    rintro ⟨d, rfl, equal⟩
    rw [equal _ rfl]
    rfl

end

end Machteld
