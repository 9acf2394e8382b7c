import OtTcpListener.Http.Parse

/-!
# The receiving loop reads the stream

The loops of `Request::send` agree with the reader of `Http.Parse`: a round of the receiving loop
makes all the steps that the bytes received so far allow (`round_eq`), so the loop as a whole is the
reader, watched behind each portion (`receiveFrom_eq`).

One thing is not the reader's business. The number of bytes at hand is compared as an `int`, and
that is harmless only because a line or a chunk that comes to its end does so in the portion
received last, so that at most 4096 bytes are left behind it (`Short`).

What is returned depends on the portions in one respect. In a response without chunks the last
portion is appended to the body as a whole, also when that is more than the header has promised.
`Response.trim` cuts that off again, and then nothing but the stream matters (`trim_receive`).
-/

namespace OtTcpListener

open Bytes Lines

namespace Http

/-! ## Phases as locals -/

namespace Phase

/-- The locals of the loop in a phase, with the bytes not used up. -/
def toReader : Phase → Bytes → Reader
  | .head h, rest => ⟨rest, false, h, {}⟩
  | .identity h body, rest => ⟨rest, true, h.1, ⟨body, 0, false⟩⟩
  | .size h body, rest => ⟨rest, true, h.1, ⟨body, 0, false⟩⟩
  | .data h body left, rest => ⟨rest, true, h.1, ⟨body, left.1, false⟩⟩
  | .skip h body, rest => ⟨rest, true, h.1, ⟨body, 0, true⟩⟩
  | .done h body, rest => ⟨rest, true, h.1, ⟨body, 0, false⟩⟩
  | .failed _, rest => { responseData := rest }

/-- Whether the loop ends in a phase. -/
def settled : Phase → Bool
  | .identity h body => h.1.contentLengthReceived && h.1.contentLength ≤ body.length
  | .done _ _ | .failed _ => true
  | _ => false

/-- What a round of the loop leaves behind. -/
def outcome : Phase → Bytes → Except Fault (Reader × Bool)
  | .failed f, _ => .error f
  | p, rest => .ok (p.toReader rest, p.settled)

end Phase

variable {memory : ℕ → Bool} {p p' : Phase} {xs : Bytes} {n : ℕ}

variable (memory) in
/-- All steps, as a round of the loop. -/
def run (p : Phase) (xs : Bytes) : Except Fault (Reader × Bool) :=
  ((reader memory).drain p xs).1.outcome ((reader memory).drain p xs).2

theorem run_of_step (h : (reader memory).step p xs = some (p', n)) :
    run memory p xs = run memory p' (xs.drop n) := by
  rw [run, run, Incremental.drain_of_step h]

theorem run_of_stuck (h : (reader memory).Stuck p xs) : run memory p xs = p.outcome xs := by
  rw [run, h.drain_eq]

@[simp] theorem run_failed (f : Fault) (xs : Bytes) : run memory (.failed f) xs = .error f :=
  run_of_stuck rfl

@[simp] theorem run_done (h : {h : Head // h.chunkedResponse = true}) (body xs : Bytes) :
    run memory (.done h body) xs = .ok (⟨xs, true, h.1, ⟨body, 0, false⟩⟩, true) := run_of_stuck rfl

/-- What is left behind the next step fits an `int` with one to spare. -/
def Short (memory : ℕ → Bool) (p : Phase) (xs : Bytes) : Prop :=
  ∀ p' n, (reader memory).step p xs = some (p', n) → xs.length - n < 2 ^ 31 - 1

theorem Short.of_length (h : xs.length < 2 ^ 31 - 1) : Short memory p xs :=
  fun _ n _ ↦ (Nat.sub_le xs.length n).trans_lt h

/-- A step that the portion received last has made possible leaves a part of that portion. -/
theorem Short.of_stuck {rest : Bytes} (hstuck : (reader memory).Stuck p rest) (received : Recv) :
    Short memory p (rest ++ received.1) := by
  intro p' n hstep
  have hlt := hstuck.lt_of_step_append hstep
  have hle := received.2.2
  rw [List.length_append]
  omega

/-! ## The lines of the header -/

theorem stuck_of_search {f : Phase} (hf : (∃ h, f = .head h) ∨ ∃ hc body, f = .size hc body)
    (h : searchCrlf xs = none) : (reader memory).Stuck f xs := by
  obtain ⟨head, rfl⟩ | ⟨hc, body, rfl⟩ := hf <;> exact Option.map_eq_none_iff.mpr h

variable {h h' : Head} {data rest : Bytes} {i : ℕ}

theorem step_head (hsearch : searchCrlf data = some i) :
    (reader memory).step (.head h) data =
      some (Phase.afterLine memory h (data.take i), i + 2) :=
    stepLine_iff.mpr ⟨i, hsearch, rfl, rfl⟩

theorem headerLoop_of_none (hsearch : searchCrlf data = none) :
    headerLoop memory data h = .ok (data, h, false) := by
  rw [headerLoop]
  split
  · rfl
  · next hsome => cases hsearch.symm.trans hsome

theorem headerLoop_of_some (hsearch : searchCrlf data = some i) :
    headerLoop memory data h =
      if data.take i = [] then .ok (data.drop (i + 2), h, true)
      else (headLine memory h (data.take i)).bind fun h ↦
        headerLoop memory (data.drop (i + 2)) h := by
  rw [headerLoop]
  split
  · next hnone => cases hsearch.symm.trans hnone
  · next j hsome =>
    obtain rfl := Option.some.inj (hsearch.symm.trans hsome)
    dsimp only
    split
    · rfl
    · cases headLine memory h (data.take i) <;> rfl

/-- **The loop over the lines of the header**: it makes all steps up to the empty line. -/
theorem run_head (h : Head) (data : Bytes) :
    run memory (.head h) data =
      (headerLoop memory data h).bind fun r ↦
        if r.2.2 then run memory (Phase.afterLine memory r.2.1 []) r.1
        else .ok (⟨r.1, false, r.2.1, {}⟩, false) := by
  -- on the bytes at hand: every line uses up two at least
  induction hlen : data.length using Nat.strong_induction_on generalizing data h with
  | _ k ih =>
    cases hsearch : searchCrlf data with
    | none =>
      rw [headerLoop_of_none hsearch]
      exact run_of_stuck (stuck_of_search (.inl ⟨h, rfl⟩) hsearch)
    | some i =>
      have hle := add_two_le_of_search hsearch
      rw [headerLoop_of_some hsearch, run_of_step (step_head hsearch), Phase.afterLine]
      by_cases hempty : data.take i = []
      · rw [if_pos hempty, if_pos hempty]
        rfl
      · rw [if_neg hempty, if_neg hempty]
        cases hset : headLine memory h (data.take i) with
        | error f => exact run_failed f _
        | ok h' => exact ih _ (by rw [List.length_drop]; omega) h' _ rfl

/-- What the loop over the lines leaves is what its first line left, or less. -/
theorem length_of_headerLoop (hloop : headerLoop memory data h = .ok (rest, h', true)) :
    ∃ p n, (reader memory).step (.head h) data = some (p, n) ∧ rest.length ≤ data.length - n := by
  induction hlen : data.length using Nat.strong_induction_on generalizing data h with
  | _ k ih =>
    subst hlen
    cases hsearch : searchCrlf data with
    | none =>
      rw [headerLoop_of_none hsearch] at hloop
      cases hloop
    | some i =>
      have hle := add_two_le_of_search hsearch
      refine ⟨_, _, step_head hsearch, ?_⟩
      rw [headerLoop_of_some hsearch] at hloop
      by_cases hempty : data.take i = []
      · rw [if_pos hempty] at hloop
        cases hloop
        rw [List.length_drop]
      · rw [if_neg hempty] at hloop
        cases hset : headLine memory h (data.take i) with
        | error f =>
          rw [hset] at hloop
          cases hloop
        | ok h'' =>
          rw [hset] at hloop
          obtain ⟨p, n, -, hrest⟩ := ih _ (by rw [List.length_drop]; omega) hloop rfl
          rw [List.length_drop] at hrest
          omega

/-! ## The chunks -/

/-- The phases of a body in chunks, with the locals of the body. -/
inductive Phase.Chunks (hc : {h : Head // h.chunkedResponse = true}) : Phase → Body → Prop
  | size (body : Bytes) : Chunks hc (.size hc body) ⟨body, 0, false⟩
  | data (body : Bytes) (left : ChunkSize) : Chunks hc (.data hc body left) ⟨body, left.1, false⟩
  | skip (body : Bytes) : Chunks hc (.skip hc body) ⟨body, 0, true⟩

/-- The phase behind the next bytes of a chunk belongs to a body in chunks. -/
theorem chunks_afterBytes (hc : {h : Head // h.chunkedResponse = true}) (body : Bytes)
    {left : ChunkSize} {k : ℕ} (hk : (k : ℤ) ≤ toInt left) :
    Phase.Chunks hc (Phase.afterBytes hc body left k)
      ⟨body, left.1 - k, left.1 - k = 0 || false⟩ := by
  have hsub := toInt_sub hk
  rw [Phase.afterBytes, Bool.or_false]
  split
  · rename_i hleft
    rw [decide_eq_false (by omega)]
    exact .data body ⟨left.1 - k, hleft⟩
  · rw [decide_eq_true (by omega), show left.1 - k = 0 by omega]
    exact .skip body

theorem Phase.Chunks.outcome_nil {hc : {h : Head // h.chunkedResponse = true}} {p : Phase}
    {b : Body} (h : Phase.Chunks hc p b) : p.outcome [] = .ok (⟨[], true, hc.1, b⟩, false) := by
  cases h <;> rfl

/-- With two bytes at hand, those behind a chunk come first. -/
theorem chunkLoop_skip (body : Bytes) (h : 2 ≤ xs.length) :
    chunkLoop xs ⟨body, 0, true⟩ = chunkLoop (xs.drop 2) ⟨body, 0, false⟩ := by
  rw [chunkLoop, chunkLoop]
  simp only [Nat.lt_irrefl, if_false, skipCrlf, Bool.false_eq_true, false_and, Nat.not_lt.mpr h,
    and_false]
  rfl

/-- A size that is negative as an `int`. -/
theorem chunkLoop_of_negative (body : Bytes) {size : ℕ} (hpos : size ≠ 0) (hneg : toInt size < 0) :
    chunkLoop xs ⟨body, size, false⟩ = .error .undefined := by
  have hwrite : min (toInt size) (toInt xs.length) < 0 := (min_le_left _ _).trans_lt hneg
  rw [chunkLoop, if_pos (Nat.pos_of_ne_zero hpos), if_pos hwrite]

/-- How many bytes of a chunk are at hand. -/
theorem exists_toWrite (left : ChunkSize) (hfits : xs.length < 2 ^ 31) :
    ∃ toWrite ≤ xs.length, (toWrite : ℤ) ≤ toInt left.1 ∧
      min (toInt left.1) (toInt xs.length) = toWrite := by
  have hwrite : 0 ≤ min (toInt left.1) (xs.length : ℤ) := le_min left.2.2 (Int.natCast_nonneg _)
  obtain ⟨toWrite, htoWrite⟩ := Int.eq_ofNat_of_zero_le hwrite
  refine ⟨toWrite, ?_, ?_, ?_⟩
  · omega
  · omega
  · rwa [toInt_of_lt hfits]

theorem step_skip {hc : {h : Head // h.chunkedResponse = true}} {body : Bytes}
    (h : 2 ≤ xs.length) : (reader memory).step (.skip hc body) xs = some (.size hc body, 2) := by
  match xs, h with
  | _ :: _ :: _, _ => rfl

theorem stuck_skip {hc : {h : Head // h.chunkedResponse = true}} {body : Bytes}
    (h : ¬2 ≤ xs.length) : (reader memory).Stuck (.skip hc body) xs := by
  match xs, h with
  | [], _ => rfl
  | [_], _ => rfl
  | _ :: _ :: _, h => exact absurd (Nat.le_add_left 2 _) h

/-- **The loop over the chunks**: it makes all steps that the bytes at hand allow. -/
theorem run_chunks {hc : {h : Head // h.chunkedResponse = true}} {b : Body}
    (hchunks : p.Chunks hc b) (hshort : Short memory p xs) :
    run memory p xs =
      (chunkLoop xs b).bind fun r ↦ .ok (⟨r.1, true, hc.1, r.2.1⟩, r.2.2) := by
  -- on the bytes at hand: a round of the loop uses up some, and what it leaves is short again
  induction hlen : xs.length using Nat.strong_induction_on generalizing p xs b with
  | _ k ih =>
    subst hlen
    cases hchunks with
    | size body =>
      rw [chunkLoop]
      simp only [Nat.lt_irrefl, if_false, skipCrlf, Bool.false_eq_true, false_and]
      split
      · next hsearch => exact run_of_stuck (stuck_of_search (.inr ⟨hc, body, rfl⟩) hsearch)
      · next i hsearch =>
        have hstep : (reader memory).step (.size hc body) xs =
            some (Phase.afterSize hc body (xs.take i), i + 2) :=
          stepLine_iff.mpr ⟨i, hsearch, rfl, rfl⟩
        have hle := (reader memory).step_le hstep
        have hrest := hshort _ _ hstep
        rw [run_of_step hstep, Phase.afterSize]
        cases hsize : stoul 16 (xs.take i) with
        | error e => exact run_failed _ _
        | ok size =>
          dsimp only
          by_cases hzero : size = 0
          · rw [dif_neg (by omega), if_pos hzero, if_pos hzero, run_done]
            rw [hzero]
            rfl
          · rw [if_neg hzero, if_neg hzero]
            by_cases hneg : 0 ≤ toInt size
            · rw [dif_pos ⟨Nat.pos_of_ne_zero hzero, hneg⟩]
              exact ih (xs.drop (i + 2)).length (by rw [List.length_drop]; omega)
                (.data body ⟨size, Nat.pos_of_ne_zero hzero, hneg⟩)
                (.of_length (by rw [List.length_drop]; exact hrest)) rfl
            · rw [dif_neg (by omega), run_failed, chunkLoop_of_negative body hzero (by omega)]
              rfl
    | data body left =>
      -- the bytes at hand are counted as an `int`, and here they fit one
      have hfits : xs.length < 2 ^ 31 := by
        cases xs with
        | nil => exact Nat.two_pow_pos 31
        | cons b xs =>
          have hrest := hshort (Phase.afterByte hc body left b) 1 rfl
          omega
      obtain ⟨toWrite, hk, hleft, htoWrite⟩ := exists_toWrite left hfits
      have hrun : run memory (.data hc body left) xs =
          run memory (Phase.afterBytes hc (body ++ xs.take toWrite) left toWrite)
            (xs.drop toWrite) := by
        rw [run, run, drain_data hk hleft]
      have hnext := chunks_afterBytes hc (body ++ xs.take toWrite) hleft
      rw [chunkLoop, if_pos left.2.1]
      dsimp only
      rw [htoWrite, if_neg (by omega), Int.toNat_natCast]
      by_cases hrest : xs.drop toWrite = []
      · rw [if_pos hrest, hrun, hrest, run_of_stuck (Incremental.stuck_nil _ _)]
        exact hnext.outcome_nil
      · rw [if_neg hrest]
        by_cases hnone : toWrite = 0
        · -- a size that is 0 as an `int`: the loop does not end, and the next byte shows it
          rw [dif_pos hnone]
          cases xs with
          | nil => exact absurd List.drop_nil hrest
          | cons b xs =>
            have hstep : (reader memory).step (.data hc body left) (b :: xs) =
                some (Phase.afterByte hc body left b, 1) := rfl
            rw [toInt_of_lt hfits, List.length_cons] at htoWrite
            rw [run_of_step hstep, Phase.afterByte, dif_pos (by omega)]
            exact run_failed _ _
        · rw [dif_neg hnone, hrun]
          exact ih (xs.drop toWrite).length (by rw [List.length_drop]; omega) hnext
            (.of_length (by rw [List.length_drop]; omega)) rfl
    | skip body =>
      by_cases htwo : 2 ≤ xs.length
      · have hstep : (reader memory).step (.skip hc body) xs = some (.size hc body, 2) :=
          step_skip htwo
        have hrest := hshort _ _ hstep
        rw [chunkLoop_skip body htwo, run_of_step hstep]
        exact ih (xs.drop 2).length (by rw [List.length_drop]; omega) (.size body)
          (.of_length (by rw [List.length_drop]; exact hrest)) rfl
      · rw [chunkLoop]
        simp only [Nat.lt_irrefl, if_false, true_and, Nat.lt_of_not_le htwo, if_true]
        exact run_of_stuck (stuck_skip htwo)

/-! ## The receiving loop -/

/-- A round within a body in chunks. -/
theorem round_of_chunked (hc : h.chunkedResponse = true) (b : Body) (rest received : Bytes) :
    round memory ⟨rest, true, h, b⟩ received =
      (chunkLoop (rest ++ received) b).bind fun r ↦ .ok (⟨r.1, true, h, r.2.1⟩, r.2.2) := by
  rw [round]
  simp only [if_true, pure_bind, hc]
  rfl

/-- A round within any other body. -/
theorem round_of_identity (hi : h.chunkedResponse = false) (b : Body) (rest received : Bytes) :
    round memory ⟨rest, true, h, b⟩ received =
      .ok (⟨[], true, h, { b with body := b.body ++ (rest ++ received) }⟩,
        h.contentLengthReceived &&
          h.contentLength ≤ (b.body ++ (rest ++ received)).length) := by
  rw [round]
  simp only [if_true, pure_bind, hi, if_neg Bool.false_ne_true]
  rfl

/-- A round that begins within the header goes on in the body with what the header leaves. -/
theorem round_of_head (h : Head) (rest received : Bytes) :
    round memory ⟨rest, false, h, {}⟩ received =
      (headerLoop memory (rest ++ received) h).bind fun r ↦
        if r.2.2 then round memory ⟨r.1, true, r.2.1, {}⟩ []
        else .ok (⟨r.1, false, r.2.1, {}⟩, false) := by
  rw [round]
  cases headerLoop memory (rest ++ received) h with
  | error f => rfl
  | ok r =>
    obtain ⟨data, h', found⟩ := r
    cases found with
    | false => rfl
    | true =>
      change _ = round memory ⟨data, true, h', {}⟩ []
      rw [round]
      simp only [List.append_nil]
      rfl

/-- **A round of the receiving loop** makes all steps that the bytes received so far allow. -/
theorem round_eq (hstuck : (reader memory).Stuck p rest) (hp : p.settled = false)
    (received : Recv) :
    round memory (p.toReader rest) received.1 = run memory p (rest ++ received.1) := by
  have hshort := Short.of_stuck hstuck received
  cases p with
  | head h =>
    rw [run_head, Phase.toReader, round_of_head]
    cases hloop : headerLoop memory (rest ++ received.1) h with
    | error f => rfl
    | ok r =>
      obtain ⟨data, h', found⟩ := r
      cases found with
      | false => rfl
      | true =>
        obtain ⟨p, n, hstep, hle⟩ := length_of_headerLoop hloop
        have hdata := hle.trans_lt (hshort p n hstep)
        change round memory ⟨data, true, h', {}⟩ [] = run memory (Phase.afterLine memory h' []) data
        rw [Phase.afterLine, if_pos rfl]
        split
        · next hchunked =>
          have hchunks : (Phase.size ⟨h', hchunked⟩ []).Chunks ⟨h', hchunked⟩ {} := .size []
          rw [round_of_chunked hchunked, List.append_nil]
          exact (run_chunks hchunks (.of_length hdata)).symm
        · next hchunked =>
          rw [round_of_identity (Bool.eq_false_iff.mpr hchunked), List.append_nil, run,
            drain_identity]
          rfl
  | identity h body =>
    -- stuck means here that nothing is left
    cases rest with
    | nil =>
      rw [run, drain_identity, Phase.toReader, round_of_identity h.2]
      rfl
    | cons b rest => cases hstuck
  | size h body =>
    rw [run_chunks (.size body) hshort]
    exact round_of_chunked h.2 _ rest received.1
  | data h body left =>
    rw [run_chunks (.data body left) hshort]
    exact round_of_chunked h.2 _ rest received.1
  | skip h body =>
    rw [run_chunks (.skip body) hshort]
    exact round_of_chunked h.2 _ rest received.1
  | done h body | failed f => cases hp

/-- The response in a phase. -/
def Phase.response : Phase → Except Fault Response
  | .failed f => .error f
  | p => .ok (p.toReader []).response

/-- The response when the loop stops in a phase of its own accord, or else with `ending`. -/
def Phase.report (ending : Ending) (p : Phase) (stopped : Bool) : Except Fault Response :=
  if stopped then p.response
  else
    match ending with
    | .closed => p.response
    | .failed => .error .system_error

/-- **The receiving loop** is the reader, watched behind each portion. -/
theorem receiveFrom_eq (ending : Ending) (hstuck : (reader memory).Stuck p rest)
    (hp : p.settled = false) (recvs : List Recv) :
    receiveFrom memory ending (p.toReader rest) recvs =
      ((reader memory).read Phase.settled p rest (recvs.map Subtype.val)).1.report ending
        ((reader memory).read Phase.settled p rest (recvs.map Subtype.val)).2 := by
  induction recvs generalizing p rest with
  | nil =>
    have hresponse : .ok (p.toReader rest).response = p.response := by
      cases p <;> first | rfl | cases hp
    cases ending with
    | closed => exact hresponse
    | failed => rfl
  | cons received recvs ih =>
    rw [receiveFrom, round_eq hstuck hp, List.map_cons, Incremental.read, run]
    have hafter := Incremental.stuck_drain (M := reader memory) p (rest ++ received.1)
    cases hnext : ((reader memory).drain p (rest ++ received.1)).1.settled with
    | true =>
      rw [if_pos rfl]
      cases h : ((reader memory).drain p (rest ++ received.1)).1 with
      | failed f => rfl
      | head | identity | size | data | skip | done =>
        rw [h] at hnext
        simp only [Phase.outcome, hnext]
        rfl
    | false =>
      rw [if_neg Bool.false_ne_true, ← ih hafter hnext]
      cases h : ((reader memory).drain p (rest ++ received.1)).1 with
      | failed f =>
        rw [h] at hnext
        cases hnext
      | head | identity | size | data | skip | done =>
        rw [h] at hnext
        simp only [Phase.outcome, hnext]

/-! ## What does not depend on the portions -/

/-- The response without what its body has in excess of the length that the header announces. In
chunks nothing is in excess. -/
def Response.trim (r : Response) : Response :=
  if r.headers.any isChunked then r
  else { r with body := r.body.take ((declared r.headers).getD r.body.length) }

/-- The trimmed response in a phase, from its locals. -/
def Phase.trimmed : Phase → Except Fault Response
  | .identity h body =>
    .ok ⟨h.1.status, h.1.headers,
      if h.1.contentLengthReceived then body.take h.1.contentLength else body⟩
  | p => p.response

theorem Head.Announces.trim_chunked {h : Head} (h₀ : h.Announces) (hc : h.chunkedResponse = true)
    (body : Bytes) :
    Response.trim ⟨h.status, h.headers, body⟩ = ⟨h.status, h.headers, body⟩ := by
  rw [Response.trim, if_pos (h₀.chunked ▸ hc)]

theorem Head.Announces.trim_identity {h : Head} (h₀ : h.Announces) (hi : h.chunkedResponse = false)
    (body : Bytes) :
    Response.trim ⟨h.status, h.headers, body⟩ = ⟨h.status, h.headers,
      if h.contentLengthReceived then body.take h.contentLength else body⟩ := by
  rw [Response.trim, if_neg (by rw [← h₀.chunked, hi]; exact Bool.false_ne_true), ← h₀.length]
  by_cases hlength : h.contentLengthReceived = true
  · rw [if_pos hlength, if_pos hlength, Option.getD_some]
  · rw [if_neg hlength, if_neg hlength, Option.getD_none, List.take_length]

theorem trim_response {p : Phase} (hp : ∀ x, p.locals = some x → x.1.Announces) :
    p.response.map Response.trim = p.trimmed := by
  cases p with
  | head h =>
    have h₀ := hp _ rfl
    rcases Bool.eq_false_or_eq_true h.chunkedResponse with hc | hi
    · exact congrArg Except.ok (h₀.trim_chunked hc [])
    · refine congrArg Except.ok ((h₀.trim_identity hi []).trans ?_)
      rw [List.take_nil, ite_self]
      rfl
  | identity h body => exact congrArg Except.ok ((hp _ rfl).trim_identity h.2 body)
  | size h body | data h body left | skip h body | done h body =>
    exact congrArg Except.ok ((hp _ rfl).trim_chunked h.2 body)
  | failed f => rfl

/-- A body that is long enough stays so, and does not change up to the announced length. -/
theorem trimmed_step (hstep : (reader memory).step p xs = some (p', n)) (hp : p.settled = true) :
    p'.settled = true ∧ p'.trimmed = p.trimmed := by
  cases p with
  | identity h body =>
    cases xs with
    | nil => cases hstep
    | cons b xs =>
      obtain ⟨rfl, -⟩ := Prod.mk.inj (Option.some.inj hstep)
      simp only [Phase.settled, Bool.and_eq_true, decide_eq_true_eq] at hp ⊢
      obtain ⟨hlength, hle⟩ := hp
      refine ⟨⟨hlength, hle.trans (by rw [List.length_append]; exact Nat.le_add_right _ _)⟩, ?_⟩
      rw [Phase.trimmed, Phase.trimmed, if_pos hlength, if_pos hlength,
        List.take_append_of_le_length hle]
  | head | size | data | skip => cases hp
  | done | failed => cases hstep

/-- The bytes that arrive. -/
def stream (recvs : List Recv) : Bytes := (recvs.map Subtype.val).flatten

variable (memory) in
/-- **The response as a function of the stream**: up to what the last portion brings in excess, it
is what the reader takes out of all that arrives. -/
theorem trim_receive (recvs : List Recv) (ending : Ending) :
    (receive memory recvs ending).map Response.trim =
      ((parse memory (stream recvs)).report ending (parse memory (stream recvs)).settled).map
        Response.trim := by
  have hstuck : (reader memory).Stuck (.head {}) [] := rfl
  have hstart : receive memory recvs ending =
      receiveFrom memory ending ((Phase.head {}).toReader []) recvs := rfl
  have hview := Incremental.view_read Phase.trimmed trimmed_step hstuck
    (recvs.map Subtype.val)
  have hsnd := Incremental.read_snd Phase.settled
    (fun hstep hp ↦ (trimmed_step hstep hp).1) rfl hstuck (recvs.map Subtype.val)
  have hparse : (parse memory (stream recvs)).response.map Response.trim =
      (parse memory (stream recvs)).trimmed := trim_response fun x hx ↦ announces_parse _ hx
  have hread :
      ((reader memory).read Phase.settled (.head {}) [] (recvs.map Subtype.val)).1.response.map
        Response.trim = (parse memory (stream recvs)).trimmed := by
    refine Eq.trans (trim_response fun x hx ↦ ?_) hview
    rcases Incremental.read_eq Phase.settled (.head {}) [] (recvs.map Subtype.val) hstuck with
      ⟨front, back, -, hfront, -⟩ | ⟨hall, -⟩
    · exact announces_parse front.flatten (by rw [hfront] at hx; exact hx)
    · exact announces_parse (stream recvs) (by rw [hall] at hx; exact hx)
  rw [hstart, receiveFrom_eq ending hstuck rfl, hsnd, List.nil_append]
  change (Phase.report ending _ (parse memory (stream recvs)).settled).map Response.trim = _
  cases (parse memory (stream recvs)).settled with
  | true => exact hread.trans hparse.symm
  | false =>
    cases ending with
    | closed => exact hread.trans hparse.symm
    | failed => rfl

variable (memory) in
/-- In a settled phase, or when the peer closes the connection, that is a response. -/
theorem receive_trimmed (recvs : List Recv) (ending : Ending)
    (h : (parse memory (stream recvs)).settled = true ∨ ending = .closed) :
    (receive memory recvs ending).map Response.trim =
      (parse memory (stream recvs)).trimmed := by
  have hreport : (parse memory (stream recvs)).report ending (parse memory (stream recvs)).settled =
      (parse memory (stream recvs)).response := by
    rcases h with hsettled | rfl
    · rw [hsettled]
      rfl
    · cases (parse memory (stream recvs)).settled <;> rfl
  rw [trim_receive, hreport, trim_response fun x hx ↦ announces_parse _ hx]

/-- **The portions do not matter**, up to what the last one brings in excess. -/
theorem receive_congr (recvs recvs' : List Recv) (ending : Ending)
    (h : stream recvs = stream recvs') :
    (receive memory recvs ending).map Response.trim =
      (receive memory recvs' ending).map Response.trim := by
  rw [trim_receive, trim_receive, h]

/-- A cut inside the end of a line. -/
theorem receive_congr_two :
    (receive (fun _ ↦ true) [⟨ascii "HTTP/1.1 204 None\r\n\r\n", by decide +kernel⟩] .failed).map
        Response.trim =
      (receive (fun _ ↦ true) [⟨ascii "HTTP/1.1 204 None\r", by decide +kernel⟩,
        ⟨ascii "\n\r\n", by decide +kernel⟩] .failed).map Response.trim :=
  receive_congr _ _ _ (by decide +kernel)

/-! ## A connection that is closed early -/

/-- One response is the beginning of another. A status that is not there yet is 0. -/
structure Response.Begins (r r' : Response) : Prop where
  status : r.status = 0 ∨ r.status = r'.status
  headers : r.headers <+: r'.headers
  body : r.body <+: r'.body

theorem trimmed_of_locals {p : Phase} {h : Head} {body : Bytes} (hp : p.locals = some (h, body)) :
    p.trimmed = .ok ⟨h.status, h.headers,
      if h.chunkedResponse = false ∧ h.contentLengthReceived = true then body.take h.contentLength
      else body⟩ := by
  cases p with
  | head h =>
    cases hp
    rw [List.take_nil, ite_self]
    rfl
  | identity h body =>
    cases hp
    simp only [Phase.trimmed, h.2, true_and]
  | size h body | data h body left | skip h body | done h body =>
    cases hp
    simp only [h.2, Bool.true_eq_false, false_and, if_false]
    rfl
  | failed f => cases hp

theorem exists_locals_of_trimmed {p : Phase} {r : Response} (h : p.trimmed = .ok r) :
    ∃ x, p.locals = some x := by
  cases p with
  | failed f => cases h
  | head | identity | size | data | skip | done => exact ⟨_, rfl⟩

theorem exists_locals_of_response {p : Phase} {r : Response} (h : p.response = .ok r) :
    ∃ x, p.locals = some x ∧ r = ⟨x.1.status, x.1.headers, x.2⟩ := by
  cases p with
  | failed f => cases h
  | head | identity | size | data | skip | done => exact ⟨_, rfl, (Except.ok.inj h).symm⟩

theorem begins_of_extends {p q : Phase} {x y : Head × Bytes} {r r' : Response}
    (hx : p.locals = some x) (hy : q.locals = some y) (hxy : Extends x y)
    (hfirst : x.1.firstLine = true → x.1.status = 0) (hr : p.trimmed = .ok r)
    (hr' : q.trimmed = .ok r') : r.Begins r' := by
  obtain ⟨h, body⟩ := x
  obtain ⟨h', body'⟩ := y
  rw [trimmed_of_locals hx] at hr
  rw [trimmed_of_locals hy] at hr'
  cases hr
  cases hr'
  refine ⟨hxy.status.imp_left hfirst, hxy.headers, ?_⟩
  rcases hxy.body with hnil | ⟨hsame, hbegins⟩
  · obtain rfl : body = [] := hnil
    rw [List.take_nil, ite_self]
    exact List.nil_prefix
  · -- once there is a body the header is complete, and both are cut at the same length
    obtain rfl : h = h' := hsame
    dsimp only
    split
    · exact hbegins.take h.contentLength
    · exact hbegins

theorem trimmed_of_receive {recvs : List Recv} {ending : Ending} {r : Response}
    (h : receive memory recvs ending = .ok r) :
    (parse memory (stream recvs)).trimmed = .ok r.trim := by
  have htrim := trim_receive memory recvs ending
  rw [h] at htrim
  rw [← trim_response fun x hx ↦ announces_parse _ hx]
  cases hsettled : (parse memory (stream recvs)).settled with
  | true =>
    rw [hsettled] at htrim
    exact htrim.symm
  | false =>
    rw [hsettled] at htrim
    cases ending with
    | closed => exact htrim.symm
    | failed => cases htrim

/-- What is returned is the response behind some of the portions. -/
theorem exists_response_of_receive {recvs : List Recv} {ending : Ending} {r : Response}
    (h : receive memory recvs ending = .ok r) :
    ∃ front back, (recvs.map Subtype.val).flatten = front ++ back ∧
      (parse memory front).response = .ok r := by
  have hstuck : (reader memory).Stuck (.head {}) [] := rfl
  have hstart : receive memory recvs ending =
      receiveFrom memory ending ((Phase.head {}).toReader []) recvs := rfl
  rw [hstart, receiveFrom_eq ending hstuck rfl] at h
  rcases Incremental.read_eq Phase.settled (.head {}) [] (recvs.map Subtype.val) hstuck with
    ⟨front, back, hrecvs, hread, -⟩ | ⟨hread, -⟩
  · rw [hread] at h
    exact ⟨front.flatten, back.flatten, by rw [hrecvs, List.flatten_append], h⟩
  · rw [hread] at h
    refine ⟨_, [], (List.append_nil _).symm, ?_⟩
    cases ending with
    | closed => exact h
    | failed => cases h

/-- What is returned is no more than what the whole stream makes. -/
theorem body_prefix_of_receive {recvs : List Recv} {ending : Ending} {r r' : Response}
    (h : receive memory recvs ending = .ok r)
    (h' : (parse memory (stream recvs)).response = .ok r') : r.body <+: r'.body := by
  obtain ⟨front, back, hstream, hfront⟩ := exists_response_of_receive h
  obtain ⟨y, hy, rfl⟩ := exists_locals_of_response h'
  rw [stream, hstream, parse, Incremental.drain_append] at hy
  obtain ⟨x, hx, hxy⟩ := extends_drain hy
  obtain ⟨x', hx', rfl⟩ := exists_locals_of_response hfront
  obtain rfl := Option.some.inj (hx'.symm.trans hx)
  rcases hxy.body with hnil | ⟨-, hbegins⟩
  · exact hnil ▸ List.nil_prefix
  · exact hbegins

/-- **A response cut short is not told from a whole one**: when the peer closes the connection
anywhere within a stream that would be received, the call returns normally, with a beginning of the
response. -/
theorem receive_prefix {recvs recvs' : List Recv} {ending : Ending} {r' : Response}
    (hbegins : stream recvs <+: stream recvs') (h : receive memory recvs' ending = .ok r') :
    ∃ r, receive memory recvs .closed = .ok r ∧ r.trim.Begins r'.trim := by
  have hr' := trimmed_of_receive h
  obtain ⟨y, hy⟩ := exists_locals_of_trimmed hr'
  obtain ⟨t, ht⟩ := hbegins
  have hdrain : ((reader memory).drain (parse memory (stream recvs))
      (((reader memory).drain (.head {}) (stream recvs)).2 ++ t)).1.locals = some y := by
    rw [parse, ← Incremental.drain_append, ht]
    exact hy
  obtain ⟨x, hx, hxy⟩ := extends_drain hdrain
  obtain ⟨x₀, hx₀, hstart⟩ := extends_drain (p := .head {}) hx
  have hfirst : x.1.firstLine = true → x.1.status = 0 := by
    intro hyes
    cases hx₀
    exact (hstart.firstLine hyes).2.symm
  have hreceive := receive_trimmed memory recvs .closed (.inr rfl)
  rw [trimmed_of_locals hx] at hreceive
  cases hok : receive memory recvs .closed with
  | error f =>
    rw [hok] at hreceive
    cases hreceive
  | ok r =>
    exact ⟨r, rfl, begins_of_extends hx hy hxy hfirst (trimmed_of_receive hok) hr'⟩

/-- A connection that is closed within the body. -/
theorem receive_prefix_two :
    ∃ r, receive (fun _ ↦ true) [⟨ascii "HTTP/1.1 200 OK\r\nContent-Length: 4\r\n\r\nab",
        by decide +kernel⟩] .closed = .ok r ∧
      r.trim.Begins (Response.trim ⟨200, [ascii "Content-Length: 4"], ascii "abcd"⟩) :=
  have hwhole : receive (fun _ ↦ true) [⟨ascii "HTTP/1.1 200 OK\r\nContent-Length: 4\r\n\r\nabcd",
      by decide +kernel⟩] .failed = .ok ⟨200, [ascii "Content-Length: 4"], ascii "abcd"⟩ := by
    decide +kernel
  receive_prefix (by decide +kernel) hwhole

end Http

end OtTcpListener
