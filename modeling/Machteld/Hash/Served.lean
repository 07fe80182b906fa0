import Machteld.Hash.Summed

namespace Machteld

def HashCtx.held (c : HashCtx) : Multiset HashAsset := {.hash c.h} + ({.provider c.algH} + {.block c.address})

def heldCtxs : List HashCtx → Multiset HashAsset
  | [] => 0
  | c :: cs => c.held + heldCtxs cs

theorem heldCtxs_append (cs ds : List HashCtx) : heldCtxs (cs ++ ds) = heldCtxs cs + heldCtxs ds := by
  induction cs with
  | nil => exact (zero_add _).symm
  | cons c cs ih => rw [List.cons_append, heldCtxs, heldCtxs, ih, add_assoc]

theorem mem_heldCtxs {cs : List HashCtx} {c : HashCtx} {r : HashAsset} (member : c ∈ cs) (held : r ∈ c.held) :
    r ∈ heldCtxs cs := by
  obtain ⟨before, after, rfl⟩ := List.append_of_mem member
  rw [heldCtxs_append, heldCtxs]
  exact Multiset.mem_add.mpr (.inr (Multiset.mem_add.mpr (.inl held)))

/-- A context as its users know it. -/
def HashCtx.context (w : Cng) (c : HashCtx) : HashContext := ⟨c.number, c.alg, (w.objects c.h).bind HashObject.data⟩

def HashState.model (st : HashState) (w : Cng) : HashModel := ⟨st.ctxs.map (HashCtx.context w), st.seq⟩

def HashState.held (st : HashState) : Multiset HashAsset := heldCtxs st.ctxs + {.block st.address}

/-- What the contexts hold is held, and each has an object of its algorithm.
-/
structure HashState.Keeps (st : HashState) (F : Multiset HashAsset) (w : Cng) (x : HashWorld) : Prop where
  has : HashHas (st.held + F) w x
  objects : ∀ c ∈ st.ctxs, ∃ data, w.objects c.h = some ⟨c.alg, none, data⟩

section

variable {digest : HashAlg → Option Bytes → Bytes → Bytes} {x y : HashWorld} {w v : Cng} {F M : Multiset HashAsset}
  {st : HashState} {c : HashCtx} {cs ds : List HashCtx} {token : Bytes}

theorem HashCtx.hash_held (c : HashCtx) : .hash c.h ∈ c.held :=
  Multiset.mem_add.mpr (.inl (Multiset.mem_singleton_self _))

theorem HashState.find_model (st : HashState) (w : Cng) (token : Bytes) :
    (st.model w).find token = (st.find token).map (HashCtx.context w) := List.find?_map

theorem HashState.model_congr (same : ∀ c ∈ st.ctxs, v.objects c.h = w.objects c.h) : st.model v = st.model w := by
  rw [model, model]
  congr 1
  exact List.map_congr_left fun c member => by rw [HashCtx.context, HashCtx.context, same c member]

theorem HashState.Keeps.held_hash (member : c ∈ st.ctxs) : .hash c.h ∈ st.held + F :=
  Multiset.mem_add.mpr (.inl (Multiset.mem_add.mpr (.inl (mem_heldCtxs member c.hash_held))))

/-- What leaves the contexts alone leaves the model alone. -/
theorem HashState.Keeps.stays (keeps : st.Keeps F w x) (stays : w.Stays (st.held + F) v)
    (has : HashHas (st.held + F) v y) :
    st.Keeps F v y ∧ st.model v = st.model w := by
  have same : ∀ c ∈ st.ctxs, v.objects c.h = w.objects c.h :=
    fun c member => stays.objects c.h (Keeps.held_hash member)
  refine ⟨⟨has, fun c member => ?_⟩, HashState.model_congr same⟩
  rw [same c member]
  exact keeps.objects c member

/-- What a command leaves. -/
def HashKept (digest : HashAlg → Option Bytes → Bytes → Bytes) (st : HashState) (F : Multiset HashAsset) (w : Cng)
    (request : HashRequest) (r : HashReply × HashState) (y : HashWorld) : Prop :=
  r.2.address = st.address ∧ ∃ v, v.files = w.files ∧ r.2.Keeps F v y ∧
    HashServes digest w.files (st.model w) request r.1 (r.2.model v)

theorem HashState.Keeps.kept {request : HashRequest} {reply : HashReply} (keeps : st.Keeps F w x)
    (has : HashHas (st.held + F) w y)
    (served : HashServes digest w.files (st.model w) request reply (st.model w)) :
    HashKept digest st F w request (reply, st) y :=
  ⟨rfl, w, rfl, ⟨has, keeps.objects⟩, served⟩

/-- A command that leaves the contexts alone. -/
theorem HashState.Keeps.aside {p : HashM HashReply} {request : HashRequest} {good : HashReply → Prop}
    (keeps : st.Keeps F w x)
    (runs : HashRuns digest p (HashAnswered good (st.held + F) w) x)
    (served : ∀ reply, reply.Fails ∨ good reply → HashServes digest w.files
      (st.model w) request reply (st.model w)) :
    HashRuns digest (do return (← p, st)) (HashKept digest st F w request) x := by
  refine Safely.andThen runs fun reply y done => ?_
  obtain ⟨answered, v, stays, has⟩ := done
  obtain ⟨keeps, same⟩ := keeps.stays stays has
  exact has.done fun _ later => ⟨rfl, v, stays.files, ⟨later, keeps.objects⟩, same ▸ served reply answered⟩

/-- A start adds one context over an empty input, or leaves everything as it
was. Where a stage fails, what the earlier ones took is given back. -/
theorem hashStart_runs {alg : HashAlg} (keeps : st.Keeps F w x) :
    HashRuns digest (hashStart alg st) (HashKept digest st F w (.start alg)) x := by
  refine keeps.has.take (fun _ => rfl) fun b v y effect has => ?_
  obtain rfl := Option.some.inj effect
  cases b with
  | none =>
    have has : HashHas (0 + (st.held + F)) w y := has
    exact (has.swap (zero_add _)).done fun _ later => keeps.kept later (.inl ⟨trivial, rfl⟩)
  | some b =>
    have has : HashHas ({.block b} + (st.held + F)) w y := has
    refine Safely.andThen (algOpen_runs none has fun k none' => absurd none' (Option.not_mem_none k))
      fun opened y done => ?_
    have part : st.held + F ≤ {.block b} + (st.held + F) := Multiset.le_add_left _ _
    cases opened with
    | error err =>
      obtain ⟨v, stays, has⟩ := done
      refine has.give (fun _ => rfl) (fun _ => rfl) fun _ y has => ?_
      obtain ⟨keeps, same⟩ := keeps.stays (stays.less part) has
      exact has.done fun _ later =>
        ⟨rfl, v, stays.files, ⟨later, keeps.objects⟩, .inl ⟨trivial, same⟩⟩
    | ok o =>
      obtain ⟨v, stays, object, has⟩ := done
      have stays := stays.less part
      have same : ∀ c ∈ st.ctxs, v.objects c.h = w.objects c.h :=
        fun c member => stays.objects c.h (HashState.Keeps.held_hash member)
      have order : {.hash o.h} + ({.provider o.algH} + ({.block b} + (st.held + F))) =
          HashState.held ⟨st.address, ⟨st.seq + 1, b, alg, o.algH, o.h, o.digestLen⟩ :: st.ctxs,
            st.seq + 1⟩ + F := by
        rw [HashState.held, HashState.held, heldCtxs, HashCtx.held]
        abel
      have opened : HashState.model ⟨st.address, ⟨st.seq + 1, b, alg, o.algH, o.h, o.digestLen⟩ ::
        st.ctxs, st.seq + 1⟩ v =
          (st.model w).opened alg := by
        rw [HashModel.opened, ← HashState.model_congr same, HashState.model, HashState.model, List.map_cons,
          HashCtx.context, object]
        rfl
      refine has.done fun _ later => ⟨rfl, v, stays.files, ⟨HashHas.swap later order, fun c member => ?_⟩,
        .inr ⟨rfl, opened⟩⟩
      rcases List.mem_cons.mp member with rfl | old
      · exact ⟨_, object⟩
      · rw [same c old]
        exact keeps.objects c old

/-- No other context has the hash object of one. -/
theorem HashState.Keeps.apart {before after : List HashCtx} (keeps : st.Keeps F w x)
    (split' : st.ctxs = before ++ c :: after) :
    ∀ d ∈ before ++ after, d.h ≠ c.h := by
  intro d there same
  have single := keeps.has.single
  rw [HashState.held, split', heldCtxs_append, heldCtxs] at single
  have order : heldCtxs before + (c.held + heldCtxs after) + {.block st.address} + F =
      {HashAsset.hash c.h} + (heldCtxs (before ++ after) +
        ({.provider c.algH} + {.block c.address} + ({.block st.address} + F))) := by
    rw [HashCtx.held, heldCtxs_append]
    abel
  rw [order] at single
  exact (Multiset.nodup_cons.mp single).1 (Multiset.mem_add.mpr (.inl (mem_heldCtxs there (same ▸ d.hash_held))))

/-- What changes the object of a context changes that of no other. -/
theorem HashState.Keeps.feed {change : Option Bytes → Option Bytes} (keeps : st.Keeps F w x)
    (found : st.find token = some c)
    (has : HashHas (st.held + F) (w.feed c.h change) y) :
    st.Keeps F (w.feed c.h change) y ∧ st.model (w.feed c.h change) = (st.model w).change token change := by
  obtain ⟨own, before, after, split', others⟩ := List.find?_eq_some_iff_append.mp found
  have own : c.token = token := beq_iff_eq.mp own
  have member := List.mem_of_find?_eq_some found
  obtain ⟨data, object⟩ := keeps.objects c member
  have same : ∀ d ∈ before ++ after, d.context (w.feed c.h change) = d.context w := fun d there => by
    rw [HashCtx.context, HashCtx.context, Cng.feed_other (keeps.apart split' d there)]
  have model : st.model (w.feed c.h change) = (st.model w).change token change := by
    rw [HashModel.change, HashState.model, HashState.model, split', List.map_append, List.map_cons,
      List.map_append, List.map_cons]
    have here : (if (c.context w).token = token then some
      { c.context w with data := change (c.context w).data } else none) =
        some (c.context (w.feed c.h change)) := by
      rw [if_pos (show (c.context w).token = token from own), HashCtx.context, HashCtx.context,
        Cng.feed_object object, object]
      rfl
    rw [replaceF_append (fun d there => ?_) here]
    · congr 1
      exact congrArg₂ (· ++ ·) (List.map_congr_left fun d there => same d (List.mem_append_left _ there))
        (congrArg _ (List.map_congr_left fun d there => same d (List.mem_append_right _ there)))
    · obtain ⟨d, inside, rfl⟩ := List.mem_map.mp there
      refine if_neg fun equal : d.token = token => ?_
      have other := others d inside
      rw [equal, beq_self_eq_true] at other
      cases other
  refine ⟨⟨has, fun d there => ?_⟩, model⟩
  by_cases same : d.h = c.h
  · obtain ⟨data', object'⟩ := keeps.objects d there
    rw [same] at object' ⊢
    exact ⟨_, Cng.feed_object object'⟩
  · rw [Cng.feed_other same]
    exact keeps.objects d there

/-- An update feeds the bytes of its value, or is refused. -/
theorem hashUpdate_runs {rest : List TclValue} (keeps : st.Keeps F w x) (found : st.find token = some c) :
    HashRuns digest (hashUpdate c rest) (fun reply => HashKept digest st F w (.update token rest)
      (reply, st)) x := by
  have member := List.mem_of_find?_eq_some found
  have serves : ∀ {reply m'}, (st.model w).Updates token rest reply m' (some (c.context w)) →
      HashServes digest w.files (st.model w) (.update token rest) reply m' := fun updates => by
    rw [← Option.map_some, ← found, ← st.find_model] at updates
    exact updates
  by_cases one : rest.length = 1
  · obtain ⟨data, rfl⟩ := List.length_eq_one_iff.mp one
    refine keeps.has.take (fun _ => rfl) fun s v y effect has => ?_
    obtain rfl := Option.some.inj effect
    have has : HashHas ({.scratch s} + (st.held + F)) w y := has
    change HashRuns digest (if _ then _ else _) _ y
    split
    · refine has.give (fun _ => rfl) (fun _ => rfl) fun _ y has => ?_
      exact has.done fun _ later => keeps.kept later (serves (.inl ⟨data, rfl, .inr (.inl ⟨rfl, rfl⟩)⟩))
    · have held : ∀ s' ∈ some s, .scratch s' ∈ ({.scratch s} + (st.held + F) : Multiset HashAsset) :=
        fun s' same => by
        rw [Option.some.inj same]
        exact Multiset.mem_cons_self _ _
      have uses := hashData_uses (Multiset.mem_add.mpr (.inr (HashState.Keeps.held_hash member))) held
      refine has.use (fun _ => rfl) uses fun taken v y effect has => ?_
      obtain rfl := Option.some.inj effect
      refine has.give (fun _ => rfl) (fun _ => rfl) fun _ y has => ?_
      obtain ⟨keeps, model⟩ := keeps.feed found has
      cases taken with
      | true =>
        exact has.done fun _ later => ⟨rfl, w.feed c.h _, rfl, ⟨later, keeps.objects⟩,
          serves (.inl ⟨data, rfl, .inl ⟨rfl, model⟩⟩)⟩
      | false =>
        exact has.done fun _ later => ⟨rfl, w.feed c.h _, rfl, ⟨later, keeps.objects⟩,
          serves (.inl ⟨data, rfl, .inr (.inr ⟨rfl, model⟩)⟩)⟩
  · have same : hashUpdate c rest = pure (.wrongArgs 2 "token data") := by
      unfold hashUpdate
      split
      · exact absurd rfl one
      · rfl
    rw [same]
    exact keeps.has.done fun _ later => keeps.kept later (serves (.inr ⟨one, rfl, rfl⟩))

end

section

variable {digest : HashAlg → Option Bytes → Bytes → Bytes} {x y : HashWorld} {w v : Cng} {F M : Multiset HashAsset}
  {st : HashState} {c : HashCtx} {token : Bytes}

theorem hctxFree_runs (has : HashHas (c.held + F) w x) :
    HashRuns digest (hctxFree st c) (fun st' y => st' = st.unlink c ∧ HashHas F w y) x := by
  refine HashHas.give (has.swap ?_) (fun _ => rfl) (fun _ => rfl) fun _ y has =>
    HashHas.give has (fun _ => rfl) (fun _ => rfl) fun _ y has =>
      HashHas.give has (fun _ => rfl) (fun _ => rfl) fun _ y has => has.done fun _ later => ⟨rfl, later⟩
  rw [HashCtx.held]
  abel

theorem HashState.unlink_ctxs {before after : List HashCtx} (split' : st.ctxs = before ++ c :: after)
    (apart : ∀ d ∈ before, ¬(d.address == c.address) = true) : (st.unlink c).ctxs = before ++ after := by
  have first : (c :: after).eraseP (fun d => d.address == c.address) = after :=
    List.eraseP_cons_of_pos (beq_self_eq_true c.address)
  change st.ctxs.eraseP (fun d => d.address == c.address) = _
  rw [split', List.eraseP_append_right _ apart, first]

/-- A context is taken out of the list, and nothing else. -/
theorem HashState.Keeps.unlink (keeps : st.Keeps F w x) (found : st.find token = some c) :
    st.held = c.held + (st.unlink c).held ∧ (∀ d ∈ (st.unlink c).ctxs, d ∈ st.ctxs) ∧
      (st.unlink c).model w = (st.model w).drop token := by
  obtain ⟨own, before, after, split', others⟩ := List.find?_eq_some_iff_append.mp found
  have own : c.token = token := beq_iff_eq.mp own
  have single := keeps.has.single
  rw [HashState.held, split', heldCtxs_append, heldCtxs] at single
  have apart : ∀ d ∈ before, ¬(d.address == c.address) = true := fun d there same => by
    have order : heldCtxs before + (c.held + heldCtxs after) + {.block st.address} + F =
        {HashAsset.block c.address} + (heldCtxs before + ({.hash c.h} + ({.provider c.algH} +
          (heldCtxs after + ({.block st.address} + F))))) := by
      rw [HashCtx.held]
      abel
    rw [order] at single
    refine (Multiset.nodup_cons.mp single).1 (Multiset.mem_add.mpr (.inl (mem_heldCtxs there ?_)))
    rw [← beq_iff_eq.mp same]
    exact Multiset.mem_add.mpr (.inr (Multiset.mem_add.mpr (.inr (Multiset.mem_singleton_self _))))
  have ctxs := HashState.unlink_ctxs split' apart
  refine ⟨?_, fun d there => ?_, ?_⟩
  · rw [HashState.held, HashState.held, ctxs, split', heldCtxs_append, heldCtxs_append, heldCtxs]
    change _ = c.held + (heldCtxs before + heldCtxs after + {.block st.address})
    abel
  · rw [split']
    rcases List.mem_append.mp (ctxs ▸ there) with first | last
    · exact List.mem_append_left _ first
    · exact List.mem_append_right _ (List.mem_cons_of_mem _ last)
  · have before' : ∀ d ∈ before.map (HashCtx.context w), ¬(d.token == token) = true := fun d there same => by
      obtain ⟨e, inside, rfl⟩ := List.mem_map.mp there
      have other := others e inside
      rw [show (e.token == token) = true from same] at other
      cases other
    have here : (c.context w).token == token := beq_iff_eq.mpr own
    rw [HashModel.drop, HashState.model, HashState.model, ctxs, split', List.map_append,
      List.map_append, List.map_cons,
      List.eraseP_append_right _ before', List.eraseP_cons_of_pos
        (p := fun d : HashContext => d.token == token) here]
    rfl

/-- A final answers with the digest of what was fed or with an error, and
frees the context unless its option is unknown. -/
theorem hashFinal_runs {rest : List TclValue} (keeps : st.Keeps F w x) (found : st.find token = some c) :
    HashRuns digest (hashFinal st c rest) (HashKept digest st F w (.final token rest)) x := by
  have member := List.mem_of_find?_eq_some found
  have serves : ∀ {reply m'}, (st.model w).Finals digest token reply m' (some (c.context w))
    (wantBinary rest false) →
      HashServes digest w.files (st.model w) (.final token rest) reply m' := fun finals => by
    rw [← Option.map_some, ← found, ← st.find_model] at finals
    exact finals
  cases binary : wantBinary rest false with
  | none =>
    rw [binary] at serves
    rw [hashFinal, binary]
    exact keeps.has.done fun _ later => keeps.kept later (serves ⟨rfl, rfl⟩)
  | some binary' =>
    rw [binary] at serves
    rw [hashFinal, binary]
    obtain ⟨data, object⟩ := keeps.objects c member
    obtain ⟨held, fewer, model⟩ := keeps.unlink found
    have has := HashHas.swap keeps.has (show st.held + F = c.held +
      ((st.unlink c).held + F) by rw [held, add_assoc])
    have other : .hash c.h ∉ (st.unlink c).held + F := fun inside => by
      have single := has.single
      rw [HashCtx.held, add_assoc] at single
      exact (Multiset.nodup_cons.mp single).1 (Multiset.mem_add.mpr (.inr inside))
    refine Safely.andThen (finishHash_runs has (Multiset.mem_add.mpr (.inl c.hash_held)) other object)
      fun out y done => ?_
    obtain ⟨⟨v, stays, has⟩, equal⟩ := done
    refine Safely.andThen (hctxFree_runs has) fun st' y done => ?_
    obtain ⟨rfl, has⟩ := done
    have same : ∀ d ∈ (st.unlink c).ctxs, v.objects d.h = w.objects d.h := fun d there =>
      stays.objects d.h (HashState.Keeps.held_hash there)
    have left : ∀ {z}, HashHas ((st.unlink c).held + F) v z → (st.unlink c).Keeps F v z := fun has => by
      refine ⟨has, fun d there => ?_⟩
      rw [same d there]
      exact keeps.objects d (fewer d there)
    have model : (st.unlink c).model v = (st.model w).drop token := (HashState.model_congr same).trans model
    cases out with
    | none => exact has.done fun _ later => ⟨rfl, v, stays.files, left later, serves ⟨.inl trivial, model⟩⟩
    | some d =>
      have shown : HashRuns digest (digestObj d binary')
          (HashAnswered (fun reply => reply = digestShown d binary') ((st.unlink c).held + F) v) y :=
            digestObj_runs has .refl rfl
      refine Safely.andThen shown fun reply y done => ?_
      obtain ⟨answered, u, still, has⟩ := done
      obtain ⟨keeps', same'⟩ := (left ‹_›).stays still has
      refine has.done fun _ later => ⟨rfl, u, still.files.trans stays.files, ⟨later, keeps'.objects⟩,
        serves ⟨answered.imp id fun shown => ⟨d, shown, fun known inside => ?_⟩, same'.trans model⟩⟩
      refine equal d rfl known ?_
      change known ∈ (w.objects c.h).bind HashObject.data at inside
      rwa [object] at inside

/-- A command leaves what the model of `hash` says, and holds only what its
contexts hold. -/
theorem hashCmd_runs {request : HashRequest} (keeps : st.Keeps F w x) :
    HashRuns digest (hashCmd st request) (HashKept digest st F w request) x := by
  cases request with
  | refused _ => exact keeps.has.done fun _ later => keeps.kept later ⟨rfl, rfl⟩
  | algorithms => exact keeps.has.done fun _ later => keeps.kept later ⟨rfl, rfl⟩
  | list =>
    refine keeps.has.done fun _ later => keeps.kept later ⟨?_, rfl⟩
    rw [HashState.model, List.map_map]
    rfl
  | random n => exact keeps.aside (hashRandom_runs keeps.has) fun _ answered => ⟨answered, rfl⟩
  | start alg => exact hashStart_runs keeps
  | once alg key data binary => exact keeps.aside (hashOnce_runs keeps.has) fun _ answered => ⟨answered, rfl⟩
  | file alg path binary => exact keeps.aside (hashFile_runs keeps.has) fun _ answered => ⟨answered, rfl⟩
  | update token rest =>
    rw [hashCmd]
    cases found : st.find token with
    | none =>
      refine keeps.has.done fun _ later => keeps.kept later ?_
      change (st.model w).Updates token rest _ _ ((st.model w).find token)
      rw [st.find_model, found]
      exact ⟨rfl, rfl⟩
    | some c =>
      exact Safely.andThen (hashUpdate_runs keeps found) fun reply y done => by
        obtain ⟨-, v, files, keeps, served⟩ := done
        exact keeps.has.done fun _ later => ⟨rfl, v, files, ⟨later, keeps.objects⟩, served⟩
  | final token rest =>
    rw [hashCmd]
    cases found : st.find token with
    | none =>
      refine keeps.has.done fun _ later => keeps.kept later ?_
      change (st.model w).Finals digest token _ _ ((st.model w).find token) _
      rw [st.find_model, found]
      exact ⟨rfl, rfl⟩
    | some c => exact hashFinal_runs keeps found

/-- By induction on the requests, from the spec of each: what is held is
what the contexts hold, and the replies are those of the model. -/
theorem hashCmds_runs {requests : List HashRequest} (keeps : st.Keeps F w x) :
    HashRuns digest (hashCmds st requests) (fun r y => r.2.address = st.address ∧ r.1.length = requests.length ∧
      ∃ v, r.2.Keeps F v y ∧ HashServed digest w.files (st.model w) (requests.zip r.1) (r.2.model v)) x := by
  induction requests generalizing st w x with
  | nil => exact keeps.has.done fun _ later => ⟨rfl, rfl, w, ⟨later, keeps.objects⟩, rfl⟩
  | cons request requests ih =>
    refine Safely.andThen (hashCmd_runs keeps) fun r y done => ?_
    obtain ⟨reply, st'⟩ := r
    obtain ⟨address, v, files, keeps, served⟩ := done
    refine Safely.andThen (ih keeps) fun r z done => ?_
    obtain ⟨replies, st''⟩ := r
    obtain ⟨address', length, u, keeps, rest⟩ := done
    rw [files] at rest
    exact keeps.has.done fun _ later => ⟨address'.trans address, congrArg Nat.succ length, u,
      ⟨later, keeps.objects⟩, st'.model v, served, rest⟩

/-- Deleting the command frees every context that is left. -/
theorem hashDelete_runs (has : HashHas (st.held + F) w x) :
    HashRuns digest (hashDelete st) (fun _ y => HashHas F w y) x := by
  refine Safely.iterate (fun st => st.held + F) (fun _ => []) (fun st' v => st'.address = st.address ∧ v = w)
    (fun _ => hashHost_stable _) ⟨has.clean, has.mine, has.single, has.running, has.uses, rfl, has.knows⟩
      fun st' y holds => ?_
  have address := holds.knows.1
  have has : HashHas (st'.held + F) w y :=
    ⟨holds.clean, holds.mine, holds.single, holds.running, holds.uses, holds.knows.2⟩
  obtain ⟨own, ctxs, seq⟩ := st'
  cases ctxs with
  | nil =>
    refine has.done fun _ has => ?_
    have has : HashHas ({.block own} + F) w _ := HashHas.swap has (by rw [HashState.held, heldCtxs, zero_add])
    change HashRuns digest (HashCall.ask (.free own) >>= pure) _ _
    exact has.give (fun _ => rfl) (fun _ => rfl) fun _ _ has => has.done fun _ later => later
  | cons c cs =>
    have order : HashState.held ⟨own, c :: cs, seq⟩ + F = c.held + (HashState.held ⟨own, cs, seq⟩ + F) := by
      rw [HashState.held, HashState.held, heldCtxs]
      abel
    refine Safely.andThen (hctxFree_runs (has.swap order)) fun st' y done => ?_
    obtain ⟨rfl, has⟩ := done
    have rest : (c :: cs).eraseP (fun d => d.address == c.address) = cs :=
      List.eraseP_cons_of_pos (beq_self_eq_true c.address)
    have left : HashState.unlink ⟨own, c :: cs, seq⟩ c = ⟨own, cs, seq⟩ := congrArg (HashState.mk own · seq) rest
    rw [left]
    exact has.done fun _ later => ⟨later.clean, later.mine, later.single, later.running, later.uses,
      address, later.knows⟩

/-- A new command holds nothing but its state. -/
theorem hashInit_runs (has : HashHas F w x) : HashRuns digest hashInit
    (fun st y => st.elim (HashHas F w y) fun st => st.ctxs = [] ∧ st.seq = 0 ∧ st.Keeps F w y) x := by
  refine has.take (fun _ => rfl) fun b v y effect has => ?_
  obtain rfl := Option.some.inj effect
  cases b with
  | none => exact HashHas.done (has.swap (zero_add F)) fun _ later => later
  | some b =>
    have has : HashHas ({.block b} + F) w y := has
    have fresh : HashState.held ⟨b, [], 0⟩ + F = {.block b} + F := by rw [HashState.held, heldCtxs, zero_add]
    refine has.use (N := 0) (fun _ => rfl) (fun _ none' => absurd none' (Multiset.notMem_zero _))
      fun created v y effect has => ?_
    obtain rfl := Option.some.inj effect
    cases created with
    | false => exact has.give (fun _ => rfl) (fun _ => rfl) fun _ _ has => has.done fun _ later => later
    | true =>
      refine has.use (N := 0) (fun _ => rfl) (fun _ none' => absurd none' (Multiset.notMem_zero _))
        fun provided v y effect has => ?_
      obtain rfl := Option.some.inj effect
      cases provided with
      | true =>
        exact has.done fun _ later => ⟨rfl, rfl, HashHas.swap later fresh.symm,
          fun _ none' => absurd none' List.not_mem_nil⟩
      | false =>
        exact Safely.andThen (hashDelete_runs (has.swap fresh.symm)) fun _ _ has => has.done fun _ later => later

/-- A session from the creation of the command to its deletion. The deletion
frees what is still open, so that nothing is held behind it. -/
theorem hashSession_runs {wide : TclValue → Option Int} {objvs : List (List TclValue)} (has : HashHas F w x) :
    HashRuns digest (hashSession wide objvs) (fun replies y => (∃ v, HashHas F v y) ∧
      ∀ l ∈ replies, l.length = objvs.length ∧
      ∃ m, HashServed digest w.files ⟨[], 0⟩ ((objvs.map (hashRequest wide)).zip l) m) x := by
  refine Safely.andThen (hashInit_runs has) fun st y done => ?_
  cases st with
  | none => exact HashHas.done done fun _ later => ⟨⟨w, later⟩, fun _ none' => by cases none'⟩
  | some st =>
    obtain ⟨address, ctxs, seq⟩ := st
    obtain ⟨rfl, rfl, keeps⟩ := done
    refine Safely.andThen (hashCmds_runs keeps) fun r y done => ?_
    obtain ⟨replies, st'⟩ := r
    obtain ⟨-, length, v, keeps, served⟩ := done
    refine Safely.andThen (hashDelete_runs keeps.has) fun _ y has => has.done fun _ later =>
      ⟨⟨v, later⟩, fun l same => ?_⟩
    obtain rfl := Option.some.inj same
    exact ⟨length.trans (List.length_map _), _, served⟩

end

end Machteld
