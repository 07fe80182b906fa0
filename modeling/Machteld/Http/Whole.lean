import Machteld.Http.Body
import Machteld.Units.Agree

namespace Machteld

/-- The bytes read in the first rounds. -/
def httpTaken (host : Nat → HttpRound) : Nat → Bytes
  | 0 => []
  | n + 1 => httpTaken host n ++ ((host n).read.toOption.getD [])

/-- A round that reads some bytes after `data`, all it announced being
within the cap. -/
def HttpGoes (maxbody : Int) (round : HttpRound) (data : Bytes) : Prop :=
  ∃ avail bytes, round.avail = .ok avail ∧ avail ≠ 0 ∧ data.length + avail.toNat ≤ maxbody ∧
    round.read = .ok bytes ∧ bytes ≠ []

/-- How a round ends the loop after `data`: with all of it at the end of the
response, with a refusal where the announced bytes exceed the cap, or with
the failure of a call. -/
inductive HttpEnds (maxbody : Int) (round : HttpRound) (data : Bytes) : HttpEnd → Prop
  | complete : round.avail = .ok 0 → HttpEnds maxbody round data (.body data)
  | drained {avail} : round.avail = .ok avail → data.length + avail.toNat ≤ maxbody → round.read = .ok [] →
      HttpEnds maxbody round data (.body data)
  | toobig {avail} : round.avail = .ok avail → maxbody < data.length + avail.toNat →
      HttpEnds maxbody round data (.raised httpTooBig)
  | unanswered {e} : round.avail = .error e → HttpEnds maxbody round data (.raised (httpUnread e))
  | unread {avail e} : round.avail = .ok avail → data.length + avail.toNat ≤ maxbody → round.read = .error e →
      HttpEnds maxbody round data (.raised (httpUnread e))
  | memory {avail buf} {size : Nat} : round.avail = .ok avail → data.length + avail.toNat ≤ maxbody →
    (size : Int) ≤ maxbody →
      round.realloc buf size = none → HttpEnds maxbody round data (.raised httpNoMemory)

/-- The body is whole or refused. -/
def HttpWhole (maxbody : Int) (host : Nat → HttpRound) (e : HttpEnd) : Prop :=
  ∃ n, (∀ i < n, HttpGoes maxbody (host i) (httpTaken host i)) ∧ (httpTaken host n).length ≤ maxbody ∧
    HttpEnds maxbody (host n) (httpTaken host n) e

/-- The buffer after `data`. -/
structure HttpBuffer.Holds (maxbody : Int) (s : HttpBuffer) (data : Bytes) : Prop where
  cap : s.cap = s.buf.length
  used : s.used = data.length
  kept : data <+: s.buf
  capped : s.cap ≤ maxbody

variable {maxbody : Int} {round : HttpRound} {s : HttpBuffer} {data : Bytes}

theorem wideInt_some {n : Int} (low : -0x8000000000000000 ≤ n) (high : n < 0x8000000000000000) :
    wideInt n = some n :=
  if_pos ⟨low, high⟩

theorem HttpBuffer.Holds.fits (holds : s.Holds maxbody data) : data.length ≤ s.buf.length := holds.kept.length_le

theorem HttpBuffer.Holds.taken (holds : s.Holds maxbody data) : s.buf.take s.used.toNat = data := by
  rw [holds.used, Int.toNat_natCast]
  exact (List.prefix_iff_eq_take.mp holds.kept).symm

theorem HttpBuffer.Holds.result (holds : s.Holds maxbody data) : httpResult s = .body data := by
  have fits := holds.fits
  have used := holds.used
  rw [httpResult, if_pos (by omega), holds.taken]

theorem HttpBuffer.start_holds (positive : 0 < maxbody) : HttpBuffer.start.Holds maxbody [] :=
  ⟨rfl, rfl, List.nil_prefix, Int.le_of_lt positive⟩

/-- The capacity grows to what is needed, and not over the cap. -/
theorem httpGrow_enough {need ncap : Int} (inRange : maxbody < 0x8000000000000000) (positive : 0 < ncap)
    (capped : ncap ≤ maxbody)
    (wanted : need ≤ maxbody) : ∃ grown, httpGrow maxbody need ncap = some grown ∧ need ≤ grown ∧ ncap ≤ grown ∧
      grown ≤ maxbody := by
  have half : maxbody.tdiv 2 = maxbody / 2 := Int.tdiv_eq_ediv_of_nonneg (by omega)
  fun_induction httpGrow maxbody need ncap with
  | case1 ncap short above => exact ⟨need, rfl, Int.le_refl _, by omega, wanted⟩
  | case2 ncap short below positive' small ih =>
    obtain ⟨grown, got, enough, larger, within⟩ := ih (by omega) (by omega)
    exact ⟨grown, got, enough, by omega, within⟩
  | case3 ncap short below positive' large => omega
  | case4 ncap short below negative => omega
  | case5 ncap enough => exact ⟨ncap, rfl, by omega, Int.le_refl _, capped⟩

theorem httpStartCap_bounds {cap : Int} (positive : 0 < maxbody) (held : 0 ≤ cap) (capped : cap ≤ maxbody) :
    0 < httpStartCap maxbody cap ∧ httpStartCap maxbody cap ≤ maxbody ∧ cap ≤ httpStartCap maxbody cap := by
  have chunk : httpReadChunk = 65536 := rfl
  unfold httpStartCap
  simp only
  split_ifs <;> omega

theorem httpRoom_enough (fits : round.Fits) (positive : 0 < maxbody) (inRange : maxbody < 0x8000000000000000)
    (holds : s.Holds maxbody data) (need : Int) (wanted : need ≤ maxbody) :
    (∃ s', httpRoom maxbody need round s = .ok s' ∧ s'.Holds maxbody data ∧ need ≤ s'.cap) ∨
      (httpRoom maxbody need round s = .error (.raised httpNoMemory) ∧
        ∃ (buf : Bytes) (size : Nat), (size : Int) ≤ maxbody ∧ round.realloc buf size = none) := by
  have cap := holds.cap
  unfold httpRoom
  by_cases short : s.cap < need
  · rw [if_pos short]
    have bounds := httpStartCap_bounds positive (by omega) holds.capped
    obtain ⟨grown, got, enough, kept, within⟩ := httpGrow_enough inRange bounds.1 bounds.2.1 wanted
    rw [got]
    simp only
    cases block : round.realloc s.buf grown.toNat with
    | none => exact .inr ⟨rfl, s.buf, grown.toNat, by omega, block⟩
    | some buf =>
      obtain ⟨size, same⟩ := fits.realloc _ _ _ block
      have whole : s.buf.take grown.toNat = s.buf := List.take_of_length_le (by omega)
      rw [whole] at same
      have held : grown = buf.length := by omega
      exact .inl ⟨_, rfl, ⟨held, holds.used, holds.kept.trans same, within⟩, enough⟩
  · rw [if_neg short]
    exact .inl ⟨s, rfl, holds, by omega⟩

/-- A chunk is written behind the data. -/
theorem HttpBuffer.Holds.write (holds : s.Holds maxbody data) {bytes : Bytes}
    (room : data.length + bytes.length ≤ s.buf.length) :
    HttpBuffer.Holds maxbody { s with used := s.used + bytes.length, buf := s.buf.take s.used.toNat ++
      (bytes ++ s.buf.drop (s.used.toNat + bytes.length)) }
      (data ++ bytes) := by
  have used := holds.used
  have cap := holds.cap
  rw [holds.taken]
  refine ⟨?_, ?_, ?_, holds.capped⟩
  · simp only [List.length_append, List.length_drop]
    omega
  · simp only [List.length_append]
    omega
  · rw [← List.append_assoc]
    exact List.prefix_append _ _

theorem httpReadData_read (fits : round.Fits) (inRange : maxbody < 0x8000000000000000)
    (holds : s.Holds maxbody data) {avail : UInt32}
    (announced : round.avail = .ok avail) (room : data.length + avail.toNat ≤ s.cap) :
    (∃ bytes s', round.read = .ok bytes ∧ bytes ≠ [] ∧ httpReadData round avail s = .ok s' ∧
      s'.Holds maxbody (data ++ bytes)) ∨
      (round.read = .ok [] ∧ httpReadData round avail s = .error (.body data)) ∨
      ∃ e, round.read = .error e ∧ httpReadData round avail s = .error (.raised (httpUnread e)) := by
  have used := holds.used
  have cap := holds.cap
  have capped := holds.capped
  unfold httpReadData
  rw [if_pos (by omega)]
  cases read : round.read with
  | error e => exact .inr (.inr ⟨e, rfl, rfl⟩)
  | ok bytes =>
    simp only
    split_ifs with empty
    · subst empty
      exact .inr (.inl ⟨rfl, by rw [holds.result]⟩)
    · have small := fits.read avail bytes announced read
      rw [wideInt_some (by omega) (by omega)]
      exact .inl ⟨bytes, _, rfl, empty, rfl, holds.write (by omega)⟩

/-- A round reads on or ends the loop. -/
theorem httpRound_spec (fits : round.Fits) (positive : 0 < maxbody) (inRange : maxbody < 0x8000000000000000)
    (holds : s.Holds maxbody data) :
    (∃ s' bytes, httpRound maxbody round s = .ok s' ∧ s'.Holds maxbody (data ++ bytes) ∧ round.read = .ok bytes ∧
        HttpGoes maxbody round data) ∨
      ∃ e, httpRound maxbody round s = .error e ∧ HttpEnds maxbody round data e := by
  have used := holds.used
  have cap := holds.cap
  have capped := holds.capped
  have size := holds.fits
  unfold httpRound
  cases announced : round.avail with
  | error e => exact .inr ⟨_, rfl, .unanswered announced⟩
  | ok avail =>
    simp only
    by_cases nothing : avail = 0
    · rw [if_pos nothing, holds.result]
      exact .inr ⟨_, rfl, .complete (nothing ▸ announced)⟩
    · have small : avail.toNat < 0x100000000 := avail.toNat_lt
      rw [if_neg nothing, wideInt_some (by omega) (by omega)]
      simp only
      by_cases exceeds : maxbody - avail.toNat < s.used
      · rw [if_pos exceeds]
        exact .inr ⟨_, rfl, .toobig announced (by omega)⟩
      · have within : data.length + (avail.toNat : Int) ≤ maxbody := by omega
        rw [if_neg exceeds, httpChunk, wideInt_some (by omega) (by omega)]
        simp only
        rcases httpRoom_enough fits positive inRange holds (s.used + avail.toNat) (by omega) with
          ⟨s', room, holds', enough⟩ | ⟨room, buf, asked, bound, refused⟩
        · rw [room]
          rcases httpReadData_read fits inRange holds' announced (by omega) with
            ⟨bytes, s'', read, more, step, after⟩ | ⟨read, step⟩ | ⟨e, read, step⟩
          · exact .inl ⟨s'', bytes, step, after, read, avail, bytes, announced, nothing, within, read, more⟩
          · exact .inr ⟨_, step, .drained announced within read⟩
          · exact .inr ⟨_, step, .unread announced within read⟩
        · rw [room]
          exact .inr ⟨_, rfl, .memory announced within bound refused⟩

theorem HttpGoes.longer {bytes : Bytes} (goes : HttpGoes maxbody round data) (read : round.read = .ok bytes) :
    0 < bytes.length := by
  obtain ⟨avail, bytes', -, -, -, same, more⟩ := goes
  obtain rfl := Except.ok.inj (same.symm.trans read)
  exact List.length_pos_of_ne_nil more

variable {host : Nat → HttpRound}

/-- The loop from a round on: every round before it went on, and those to
come take what the cap has left. -/
theorem httpBody_from (fits : ∀ i, (host i).Fits) (positive : 0 < maxbody)
    (inRange : maxbody < 0x8000000000000000) {n left : Nat}
    (went : ∀ i < n, HttpGoes maxbody (host i) (httpTaken host i)) (holds : s.Holds maxbody (httpTaken host n))
    (room : maxbody ≤ (httpTaken host n).length + left) :
    ∃ e, HttpWhole maxbody host e ∧ ∀ fuel, left < fuel → httpBody maxbody host fuel n s = some e := by
  induction left using Nat.strongRecOn generalizing n s with
  | ind left ih =>
    have size := holds.fits
    have cap := holds.cap
    have capped := holds.capped
    rcases httpRound_spec (fits n) positive inRange holds with ⟨s', bytes, step, after, read,
      goes⟩ | ⟨e, step, ends⟩
    · have more := goes.longer read
      have taken : httpTaken host (n + 1) = httpTaken host n ++ bytes := by
        rw [httpTaken, read]
        rfl
      rw [← taken] at after
      have grown : (httpTaken host (n + 1)).length = (httpTaken host n).length + bytes.length := by
        rw [taken, List.length_append]
      have size' := after.fits
      have cap' := after.cap
      have capped' := after.capped
      have went' : ∀ i < n + 1, HttpGoes maxbody (host i) (httpTaken host i) := by
        intro i below
        rcases Nat.lt_succ_iff_lt_or_eq.mp below with before | rfl
        · exact went i before
        · exact goes
      obtain ⟨e, whole, runs⟩ := ih (left - 1) (by omega) went' after (by omega)
      refine ⟨e, whole, fun fuel enough => ?_⟩
      obtain ⟨fuel, rfl⟩ : ∃ k, fuel = k + 1 := ⟨fuel - 1, by omega⟩
      rw [httpBody, step]
      exact runs fuel (by omega)
    · refine ⟨e, ⟨n, went, by omega, ends⟩, fun fuel enough => ?_⟩
      obtain ⟨fuel, rfl⟩ : ∃ k, fuel = k + 1 := ⟨fuel - 1, by omega⟩
      rw [httpBody, step]

variable {tcl : TclReads} {allowType post : Bool} {args : List Bytes} {o o' : HttpOpts}

theorem httpSize_positive {v : Bytes} {b : Int64} (passed : httpSize v = .ok b) : 0 < b.toInt := by
  obtain ⟨n, -, one, -, same⟩ := httpSize_iff.mp passed
  omega

theorem httpOption_maxbody {a v : Bytes} (passed : httpOption tcl allowType a v o = .ok o')
    (positive : 0 < o.maxbody.toInt) :
    0 < o'.maxbody.toInt := by
  unfold httpOption at passed
  split_ifs at passed
  · obtain ⟨n, -, rfl⟩ := Except.map_ok.mp passed
    exact positive
  · obtain rfl := Except.ok.inj passed
    exact positive
  · obtain ⟨n, size, rfl⟩ := Except.map_ok.mp passed
    exact httpSize_positive size
  · obtain rfl := Except.ok.inj passed
    exact positive
  · obtain rfl := Except.ok.inj passed
    exact positive
  · unfold httpHeaders at passed
    cases read : tcl.dictOf v with
    | none => rw [read] at passed; cases passed
    | some d =>
      rw [read] at passed
      simp only at passed
      split_ifs at passed
      obtain rfl := Except.ok.inj passed
      exact positive

theorem httpOpts_maxbody (passed : httpOpts tcl allowType args o = .ok o') (positive : 0 < o.maxbody.toInt) :
    0 < o'.maxbody.toInt := by
  fun_induction httpOpts with
  | case1 o =>
    obtain rfl := Except.ok.inj passed
    exact positive
  | case2 => cases passed
  | case3 o a v rest ih =>
    obtain ⟨middle, first, later⟩ := Except.bind_ok.mp passed
    exact ih middle later (httpOption_maxbody first positive)

theorem httpRequestOpts_maxbody (accepted : httpRequestOpts tcl post args = .ok o) : 0 < o.maxbody.toInt := by
  obtain ⟨o', passed, same⟩ := Except.bind_ok.mp accepted
  have positive := httpOpts_maxbody passed (by decide)
  obtain rfl := Except.ok.inj same
  split_ifs
  · exact positive
  · exact positive

/-- Whatever the calls of the body loop answer, it ends within as many
rounds as the cap has bytes and one more, and the body is whole or refused.
-/
theorem httpBody_whole (tcl : TclReads) (post : Bool) (args : List Bytes) {o : HttpOpts} (host : Nat → HttpRound)
    (accepted : httpRequestOpts tcl post args = .ok o) (fits : ∀ i, (host i).Fits) :
    ∃ e, HttpWhole o.maxbody.toInt host e ∧
      ∀ fuel, o.maxbody.toInt.toNat < fuel → httpBody o.maxbody.toInt host fuel 0 .start = some e := by
  have positive := httpRequestOpts_maxbody accepted
  have inRange := o.maxbody.toInt_lt
  have started := HttpBuffer.start_holds positive
  exact httpBody_from fits positive inRange (fun i bad => absurd bad (Nat.not_lt_zero i)) started (by omega)

/-- Two bytes are announced, one is read, and there is no more. -/
def shortRounds (i : Nat) : HttpRound where
  avail := .ok (if i = 0 then 2 else 0)
  realloc buf size := some ((buf.take size) ++ List.replicate (size - buf.length) 0)
  read := .ok (if i = 0 then [0x61] else [])

theorem shortRounds_fits (i : Nat) : (shortRounds i).Fits := by
  refine ⟨?_, ?_⟩
  · intro buf size block same
    obtain rfl := Option.some.inj same
    refine ⟨?_, List.prefix_append _ _⟩
    rw [List.length_append, List.length_take, List.length_replicate]
    omega
  · intro avail bytes announced read
    obtain rfl := Except.ok.inj announced
    obtain rfl := Except.ok.inj read
    split_ifs <;> decide

theorem httpBody_whole_short : ∃ o e, httpRequestOpts plainTcl false [ascii "-maxbody", ascii "2"] = .ok o ∧
    HttpWhole o.maxbody.toInt shortRounds e ∧
    ∀ fuel, o.maxbody.toInt.toNat < fuel → httpBody o.maxbody.toInt shortRounds fuel 0 .start = some e := by
  have accepted : httpRequestOpts plainTcl false [ascii "-maxbody", ascii "2"] =
    .ok { HttpOpts.start with maxbody := 2 } := rfl
  obtain ⟨e, whole, runs⟩ :=
    httpBody_whole plainTcl false [ascii "-maxbody", ascii "2"] shortRounds accepted shortRounds_fits
  exact ⟨_, e, accepted, whole, runs⟩

end Machteld
