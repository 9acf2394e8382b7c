import OtTcpListener.Foundations.Incremental
import OtTcpListener.Http.Response

/-!
# A response as a function of the stream

What `Request::send` takes out of a connection arrives in portions, and the code works through each
portion as far as it gets. Here the same is done one small step at a time: a line, a byte of the
body, or the two bytes behind a chunk. Such a step needs no more than the bytes it uses up, so the
steps form an incremental reader (`reader`), and where the portions end does not matter to it.

`parse` makes all steps that a stream allows. It goes one way: a response that has been begun only
grows (`extends_drain`).
-/

namespace OtTcpListener

open Bytes Lines

namespace Http

/-! ## Phases -/

/-- A chunk size that is a positive `int`, or becomes one by narrowing, or 0. -/
abbrev ChunkSize := {n : ℕ // 0 < n ∧ 0 ≤ toInt n}

/-- Where the reader stands. -/
inductive Phase where
  /-- In front of a line of the header. -/
  | head (h : Head)
  /-- In a body that is all that arrives. -/
  | identity (h : {h : Head // h.chunkedResponse = false}) (body : Bytes)
  /-- In front of a line with the size of a chunk. -/
  | size (h : {h : Head // h.chunkedResponse = true}) (body : Bytes)
  /-- In a chunk. -/
  | data (h : {h : Head // h.chunkedResponse = true}) (body : Bytes) (left : ChunkSize)
  /-- Behind a chunk. -/
  | skip (h : {h : Head // h.chunkedResponse = true}) (body : Bytes)
  /-- Behind the line of the last chunk. -/
  | done (h : {h : Head // h.chunkedResponse = true}) (body : Bytes)
  | failed (f : Fault)

/-- What is left of a size, as an `int`. -/
theorem toInt_sub {n k : ℕ} (h : (k : ℤ) ≤ toInt n) : toInt (n - k) = toInt n - k := by
  unfold toInt at h ⊢
  split at h <;> split <;> omega

namespace Phase

variable (memory : ℕ → Bool)

/-- What a line of the header leads to. -/
def afterLine (h : Head) (line : Bytes) : Phase :=
  if line = [] then
    if hchunked : h.chunkedResponse = true then .size ⟨h, hchunked⟩ []
    else .identity ⟨h, Bool.eq_false_iff.mpr hchunked⟩ []
  else
    match headLine memory h line with
    | .error f => .failed f
    | .ok h => .head h

/-- What the line with the size of a chunk leads to. -/
def afterSize (h : {h : Head // h.chunkedResponse = true}) (body line : Bytes) : Phase :=
  match stoul 16 line with
  | .error e => .failed (.thrown e)
  | .ok n =>
    if hn : 0 < n ∧ 0 ≤ toInt n then .data h body ⟨n, hn⟩
    else if n = 0 then .done h body
    else .failed .undefined

/-- What a byte in a chunk leads to. -/
def afterByte (h : {h : Head // h.chunkedResponse = true}) (body : Bytes) (left : ChunkSize)
    (b : UInt8) : Phase :=
  if hnone : toInt left = 0 then .failed .endless
  else if hlast : left.1 = 1 then .skip h (body ++ [b])
  else .data h (body ++ [b]) ⟨left.1 - 1, by
    have hpos := left.2.1
    have hlow : 0 < toInt left := lt_of_le_of_ne left.2.2 (Ne.symm hnone)
    have hsub := toInt_sub (k := 1) hlow
    omega⟩

/-- One step: the next phase, and how many bytes it uses up. -/
def step : Phase → Bytes → Option (Phase × ℕ)
  | .head h, xs => (searchCrlf xs).map fun i ↦ (afterLine memory h (xs.take i), i + 2)
  | .identity h body, b :: _ => some (.identity h (body ++ [b]), 1)
  | .size h body, xs => (searchCrlf xs).map fun i ↦ (afterSize h body (xs.take i), i + 2)
  | .data h body left, b :: _ => some (afterByte h body left b, 1)
  | .skip h body, _ :: _ :: _ => some (.size h body, 2)
  | _, _ => none

end Phase

/-- A step that reads a line. -/
theorem stepLine_iff {f : Bytes → Phase} {xs : Bytes} {p : Phase} {n : ℕ} :
    (searchCrlf xs).map (fun i ↦ (f (xs.take i), i + 2)) = some (p, n) ↔
      ∃ i, searchCrlf xs = some i ∧ f (xs.take i) = p ∧ i + 2 = n := by
  rw [Option.map_eq_some_iff]
  simp only [Prod.mk.injEq]

/-- The reader of responses. -/
def reader (memory : ℕ → Bool) : Incremental Phase UInt8 where
  step := Phase.step memory
  step_pos {p p' xs n} h := by
    cases p with
    | head | size =>
      obtain ⟨i, -, -, rfl⟩ := stepLine_iff.mp h
      exact Nat.succ_pos _
    | identity | data =>
      cases xs with
      | nil => cases h
      | cons b xs => exact (Prod.mk.inj (Option.some.inj h)).2 ▸ Nat.one_pos
    | skip =>
      match xs, h with
      | _ :: _ :: _, h => exact (Prod.mk.inj (Option.some.inj h)).2 ▸ Nat.two_pos
    | done | failed => cases h
  step_le {p p' xs n} h := by
    cases p with
    | head | size =>
      obtain ⟨i, hi, -, rfl⟩ := stepLine_iff.mp h
      exact add_two_le_of_search hi
    | identity | data =>
      cases xs with
      | nil => cases h
      | cons b xs => exact (Prod.mk.inj (Option.some.inj h)).2 ▸ Nat.succ_pos _
    | skip =>
      match xs, h with
      | _ :: _ :: _, h => exact (Prod.mk.inj (Option.some.inj h)).2 ▸ Nat.le_add_left 2 _
    | done | failed => cases h
  step_append {p xs r} ys h := by
    obtain ⟨p', n⟩ := r
    cases p with
    | head | size =>
      obtain ⟨i, hi, hp, hn⟩ := stepLine_iff.mp h
      refine stepLine_iff.mpr ⟨i, search_append hi ys, ?_, hn⟩
      rwa [List.take_append_of_le_length (by have := add_two_le_of_search hi; omega)]
    | identity | data =>
      cases xs with
      | nil => cases h
      | cons b xs => exact h
    | skip =>
      match xs, h with
      | _ :: _ :: _, h => exact h
    | done | failed => cases h
  step_take {p p' xs n} h := by
    cases p with
    | head | size =>
      obtain ⟨i, hi, hp, rfl⟩ := stepLine_iff.mp h
      refine stepLine_iff.mpr ⟨i, search_take hi, ?_, rfl⟩
      rwa [List.take_take, min_eq_left (Nat.le_add_right i 2)]
    | identity | data =>
      cases xs with
      | nil => cases h
      | cons b xs =>
        obtain ⟨rfl, rfl⟩ := Prod.mk.inj (Option.some.inj h)
        rfl
    | skip =>
      match xs, h with
      | _ :: _ :: _, h =>
        obtain ⟨rfl, rfl⟩ := Prod.mk.inj (Option.some.inj h)
        rfl
    | done | failed => cases h

variable {memory : ℕ → Bool}

/-- What becomes of a stream. -/
def parse (memory : ℕ → Bool) (stream : Bytes) : Phase :=
  ((reader memory).drain (.head {}) stream).1

/-! ## Steps in a row -/

section

variable {h : Head} {xs rest : Bytes}

/-- A phase that reads a line. -/
theorem drain_unbroken {p : Phase} {f : Bytes → Phase}
    (hp : ∀ xs, (reader memory).step p xs = (searchCrlf xs).map fun i ↦ (f (xs.take i), i + 2))
    {line : Bytes} (hline : Unbroken 13 10 line) :
    (reader memory).drain p (line ++ 13 :: 10 :: rest) = (reader memory).drain (f line) rest := by
  have hsearch : searchCrlf (line ++ 13 :: 10 :: rest) = some line.length :=
    search_append_cons (by decide) hline rest
  have hstep : (reader memory).step p (line ++ 13 :: 10 :: rest) =
      some (f line, line.length + 2) := by
    rw [hp]
    exact stepLine_iff.mpr ⟨line.length, hsearch, by rw [List.take_left], rfl⟩
  rw [Incremental.drain_of_step hstep, List.drop_append, List.drop_eq_nil_of_le (by omega),
    List.nil_append, Nat.add_sub_cancel_left]
  rfl

/-- A line of the header. -/
theorem drain_head {line : Bytes} (hline : Unbroken 13 10 line) :
    (reader memory).drain (.head h) (line ++ 13 :: 10 :: rest) =
      (reader memory).drain (Phase.afterLine memory h line) rest :=
  drain_unbroken (fun _ ↦ rfl) hline

variable {hc : {h : Head // h.chunkedResponse = true}} {body : Bytes}

/-- The line with the size of a chunk. -/
theorem drain_size {line : Bytes} (hline : Unbroken 13 10 line) :
    (reader memory).drain (.size hc body) (line ++ 13 :: 10 :: rest) =
      (reader memory).drain (Phase.afterSize hc body line) rest :=
  drain_unbroken (fun _ ↦ rfl) hline

/-- The bytes of a body without chunks. -/
theorem drain_identity (hi : {h : Head // h.chunkedResponse = false}) (body xs : Bytes) :
    (reader memory).drain (.identity hi body) xs = (.identity hi (body ++ xs), []) := by
  induction xs generalizing body with
  | nil => rw [Incremental.drain_nil, List.append_nil]
  | cons b xs ih =>
    have hstep : (reader memory).step (.identity hi body) (b :: xs) =
        some (.identity hi (body ++ [b]), 1) := rfl
    rw [Incremental.drain_of_step hstep, List.drop_one, List.tail_cons, ih, List.append_assoc,
      List.singleton_append]

/-- The phase behind the next `k` bytes of a chunk. -/
def Phase.afterBytes (hc : {h : Head // h.chunkedResponse = true}) (body : Bytes) (left : ChunkSize)
    (k : ℕ) : Phase :=
  if hleft : 0 < left.1 - k ∧ 0 ≤ toInt (left.1 - k) then .data hc body ⟨left.1 - k, hleft⟩
  else .skip hc body

/-- The bytes of a chunk. -/
theorem drain_data {left : ChunkSize} {k : ℕ} (hk : k ≤ xs.length) (hleft : (k : ℤ) ≤ toInt left) :
    (reader memory).drain (.data hc body left) xs =
      (reader memory).drain (Phase.afterBytes hc (body ++ xs.take k) left k) (xs.drop k) := by
  induction k generalizing xs body left with
  | zero =>
    have hsame : Phase.afterBytes hc body left 0 = .data hc body left := dif_pos left.2
    rw [List.take_zero, List.append_nil, List.drop_zero, hsame]
  | succ k ih =>
    cases xs with
    | nil => exact absurd hk (Nat.not_succ_le_zero k)
    | cons b xs =>
      have hlow : ((1 : ℕ) : ℤ) ≤ toInt left := by omega
      have hsub := toInt_sub hlow
      have hstep : (reader memory).step (.data hc body left) (b :: xs) =
          some (Phase.afterByte hc body left b, 1) := rfl
      rw [Incremental.drain_of_step hstep, List.drop_one, List.tail_cons, List.take_succ_cons,
        List.drop_succ_cons, Phase.afterByte, dif_neg (by omega)]
      have hassoc : body ++ b :: xs.take k = body ++ [b] ++ xs.take k := by
        rw [List.append_assoc, List.singleton_append]
      rw [hassoc]
      by_cases hlast : left.1 = 1
      · have hone : toInt left = 1 := by rw [hlast]; decide
        obtain rfl : k = 0 := by omega
        rw [dif_pos hlast, List.take_zero, List.append_nil, List.drop_zero, Phase.afterBytes,
          dif_neg (by omega)]
      · rw [dif_neg hlast, ih (Nat.le_of_succ_le_succ hk) (by dsimp only; omega)]
        have hdiff : left.1 - 1 - k = left.1 - (k + 1) := by omega
        simp only [Phase.afterBytes, hdiff]

end

/-! ## What has been read so far -/

/-- The header and the body read so far, unless the reader has failed. -/
def Phase.locals : Phase → Option (Head × Bytes)
  | .head h => some (h, [])
  | .identity h body => some (h.1, body)
  | .size h body | .data h body _ | .skip h body | .done h body => some (h.1, body)
  | .failed _ => none

/-- What has been read is kept: the lines of the header, the status once its line is there, and,
when there is a body, the header as a whole and the bytes of the body. -/
structure Extends (x y : Head × Bytes) : Prop where
  headers : x.1.headers <+: y.1.headers
  body : x.2 = [] ∨ x.1 = y.1 ∧ x.2 <+: y.2
  firstLine : y.1.firstLine = true → x.1.firstLine = true ∧ x.1.status = y.1.status
  status : x.1.firstLine = true ∨ x.1.status = y.1.status

theorem Extends.refl (x : Head × Bytes) : Extends x x :=
  ⟨List.prefix_rfl, .inr ⟨rfl, List.prefix_rfl⟩, fun h ↦ ⟨h, rfl⟩, .inr rfl⟩

theorem Extends.trans {x y z : Head × Bytes} (h : Extends x y) (h' : Extends y z) :
    Extends x z := by
  refine ⟨h.headers.trans h'.headers, ?_, fun hz ↦ ?_, ?_⟩
  · rcases h.body with hx | ⟨hxy, hpre⟩
    · exact .inl hx
    · rcases h'.body with hy | ⟨hyz, hpre'⟩
      · exact .inl (List.prefix_nil.mp (hy ▸ hpre))
      · exact .inr ⟨hxy.trans hyz, hpre.trans hpre'⟩
  · obtain ⟨hy, hstatus'⟩ := h'.firstLine hz
    obtain ⟨hx, hstatus⟩ := h.firstLine hy
    exact ⟨hx, hstatus.trans hstatus'⟩
  · rcases h.status with hx | hxy
    · exact .inl hx
    · rcases h'.status with hy | hyz
      · exact .inl (h.firstLine hy).1
      · exact .inr (hxy.trans hyz)

/-- A further byte of the body. -/
theorem extends_concat (h : Head) (body : Bytes) (b : UInt8) :
    Extends (h, body) (h, body ++ [b]) :=
  ⟨List.prefix_rfl, .inr ⟨rfl, List.prefix_append _ _⟩, fun hfirst ↦ ⟨hfirst, rfl⟩, .inr rfl⟩

/-- The length of the body that a line announces. -/
def contentLengthOf (line : Bytes) : Option ℕ :=
  match headerField line with
  | none => none
  | some (headerName, headerValue) =>
    if headerName = ascii "Content-Length" then (stoul 10 headerValue).toOption else none

/-- Whether a line announces a body in chunks. -/
def isChunked (line : Bytes) : Bool :=
  headerField line = some (ascii "Transfer-Encoding", ascii "chunked")

theorem statusLine_cases {h h' : Head} {line : Bytes} (hline : statusLine h line = .ok h') :
    ∃ status, h' = { h with firstLine := false, status := status } := by
  rw [statusLine] at hline
  split at hline
  · split at hline
    · exact ⟨_, (Except.ok.inj hline).symm⟩
    · cases hline
  · exact ⟨h.status, (Except.ok.inj hline).symm⟩

theorem contentLengthOf_of_field {line name value : Bytes}
    (hfield : headerField line = some (name, value)) :
    contentLengthOf line =
      if name = ascii "Content-Length" then (stoul 10 value).toOption else none := by
  rw [contentLengthOf, hfield]

theorem isChunked_iff {line name value : Bytes} (hfield : headerField line = some (name, value)) :
    isChunked line = true ↔ name = ascii "Transfer-Encoding" ∧ value = ascii "chunked" := by
  rw [isChunked, hfield, decide_eq_true_iff, Option.some.injEq, Prod.mk.injEq]

/-- What a line behind the first can set. The two names differ, so that a line sets one thing at
most. -/
theorem headerLine_cases {h h' : Head} {line : Bytes} (hline : headerLine memory h line = .ok h') :
    (∃ n, contentLengthOf line = some n ∧ isChunked line = false ∧ h' = { h with
        headers := h.headers ++ [line], contentLengthReceived := true, contentLength := n }) ∨
      (contentLengthOf line = none ∧ isChunked line = true ∧ h' = { h with
        headers := h.headers ++ [line], chunkedResponse := true }) ∨
      contentLengthOf line = none ∧ isChunked line = false ∧
        h' = { h with headers := h.headers ++ [line] } := by
  rw [headerLine] at hline
  cases hfield : headerField line with
  | none =>
    rw [hfield] at hline
    refine .inr (.inr ⟨?_, ?_, (Except.ok.inj hline).symm⟩)
    · rw [contentLengthOf, hfield]
    · rw [isChunked, hfield]
      rfl
  | some field =>
    obtain ⟨name, value⟩ := field
    rw [hfield] at hline
    dsimp only at hline
    rw [contentLengthOf_of_field hfield]
    by_cases hlength : name = ascii "Content-Length"
    · have hnot : isChunked line = false := by
        rw [Bool.eq_false_iff, ne_eq, isChunked_iff hfield, hlength]
        exact fun h ↦ absurd h.1 (by decide +kernel)
      rw [if_pos hlength] at hline ⊢
      cases hvalue : stoul 10 value with
      | error e =>
        rw [hvalue] at hline
        cases hline
      | ok n =>
        rw [hvalue] at hline
        dsimp only at hline
        split at hline
        · exact .inl ⟨n, rfl, hnot, (Except.ok.inj hline).symm⟩
        · cases hline
    · rw [if_neg hlength] at hline ⊢
      by_cases hencoding : name = ascii "Transfer-Encoding"
      · rw [if_pos hencoding] at hline
        -- no encoding but `chunked` is accepted
        by_cases hchunked : value = ascii "chunked"
        · rw [if_pos hchunked] at hline
          exact .inr (.inl ⟨rfl, (isChunked_iff hfield).mpr ⟨hencoding, hchunked⟩,
            (Except.ok.inj hline).symm⟩)
        · rw [if_neg hchunked] at hline
          cases hline
      · have hnot : isChunked line = false := by
          rw [Bool.eq_false_iff, ne_eq, isChunked_iff hfield]
          exact fun h ↦ hencoding h.1
        rw [if_neg hencoding] at hline
        exact .inr (.inr ⟨rfl, hnot, (Except.ok.inj hline).symm⟩)

/-- **What a line of the header can set.** -/
theorem headLine_cases {h h' : Head} {line : Bytes} (hline : headLine memory h line = .ok h') :
    (h.firstLine = true ∧ ∃ status, h' = { h with firstLine := false, status := status }) ∨
      h.firstLine = false ∧
        ((∃ n, contentLengthOf line = some n ∧ isChunked line = false ∧ h' = { h with
            headers := h.headers ++ [line], contentLengthReceived := true, contentLength := n }) ∨
          (contentLengthOf line = none ∧ isChunked line = true ∧ h' = { h with
            headers := h.headers ++ [line], chunkedResponse := true }) ∨
          contentLengthOf line = none ∧ isChunked line = false ∧
            h' = { h with headers := h.headers ++ [line] }) := by
  rw [headLine] at hline
  by_cases hfirst : h.firstLine = true
  · rw [if_pos hfirst] at hline
    exact .inl ⟨hfirst, statusLine_cases hline⟩
  · rw [if_neg hfirst] at hline
    exact .inr ⟨Bool.eq_false_iff.mpr hfirst, headerLine_cases hline⟩

theorem extends_headLine {h h' : Head} {line : Bytes} (hline : headLine memory h line = .ok h') :
    Extends (h, []) (h', []) := by
  rcases headLine_cases hline with ⟨hfirst, status, rfl⟩ | ⟨hfirst, hset⟩
  · exact ⟨List.prefix_rfl, .inl rfl, fun hno ↦ (by cases hno), .inl hfirst⟩
  · have hkeep : h'.headers = h.headers ++ [line] ∧ h'.firstLine = h.firstLine ∧
        h'.status = h.status := by
      rcases hset with ⟨n, -, -, rfl⟩ | ⟨-, -, rfl⟩ | ⟨-, -, rfl⟩ <;> exact ⟨rfl, rfl, rfl⟩
    refine ⟨hkeep.1 ▸ List.prefix_append _ _, .inl rfl, fun hno ↦ ?_, .inr hkeep.2.2.symm⟩
    rw [hkeep.2.1, hfirst] at hno
    cases hno

/-- **What a step does to them.** -/
theorem locals_step {p p' : Phase} {xs : Bytes} {n : ℕ} {y : Head × Bytes}
    (hstep : (reader memory).step p xs = some (p', n)) (hy : p'.locals = some y) :
    ∃ x, p.locals = some x ∧ (y = x ∨ (∃ b, y = (x.1, x.2 ++ [b])) ∨
      ∃ line h', headLine memory x.1 line = .ok h' ∧ x.2 = [] ∧ y = (h', [])) := by
  cases p with
  | head h =>
    obtain ⟨i, -, hline, -⟩ := stepLine_iff.mp hstep
    refine ⟨_, rfl, ?_⟩
    rw [Phase.afterLine] at hline
    split at hline
    · split at hline <;> subst hline <;> cases hy <;> exact .inl rfl
    · cases hset : headLine memory h (xs.take i) with
      | error f =>
        rw [hset] at hline
        subst hline
        cases hy
      | ok h' =>
        rw [hset] at hline
        subst hline
        cases hy
        exact .inr (.inr ⟨_, h', hset, rfl, rfl⟩)
  | identity h body =>
    cases xs with
    | nil => cases hstep
    | cons b xs =>
      obtain ⟨rfl, -⟩ := Prod.mk.inj (Option.some.inj hstep)
      cases hy
      exact ⟨_, rfl, .inr (.inl ⟨b, rfl⟩)⟩
  | size h body =>
    obtain ⟨i, -, hline, -⟩ := stepLine_iff.mp hstep
    refine ⟨_, rfl, .inl ?_⟩
    rw [Phase.afterSize] at hline
    split at hline
    · subst hline
      cases hy
    · split at hline
      · subst hline
        cases hy
        rfl
      · split at hline <;> subst hline <;> cases hy
        rfl
  | data h body left =>
    cases xs with
    | nil => cases hstep
    | cons b xs =>
      obtain ⟨rfl, -⟩ := Prod.mk.inj (Option.some.inj hstep)
      refine ⟨_, rfl, .inr (.inl ⟨b, ?_⟩)⟩
      rw [Phase.afterByte] at hy
      split at hy
      · cases hy
      · split at hy <;> cases hy <;> rfl
  | skip h body =>
    cases xs with
    | nil => cases hstep
    | cons b xs =>
      cases xs with
      | nil => cases hstep
      | cons c xs =>
        obtain ⟨rfl, -⟩ := Prod.mk.inj (Option.some.inj hstep)
        cases hy
        exact ⟨_, rfl, .inl rfl⟩
  | done h body | failed f => cases hstep

theorem extends_step {p p' : Phase} {xs : Bytes} {n : ℕ} {y : Head × Bytes}
    (hstep : (reader memory).step p xs = some (p', n)) (hy : p'.locals = some y) :
    ∃ x, p.locals = some x ∧ Extends x y := by
  obtain ⟨x, hx, rfl | ⟨b, rfl⟩ | ⟨line, h', hline, hnil, rfl⟩⟩ := locals_step hstep hy
  · exact ⟨_, hx, .refl _⟩
  · exact ⟨x, hx, extends_concat x.1 x.2 b⟩
  · refine ⟨x, hx, ?_⟩
    rw [← Prod.mk.eta (p := x), hnil]
    exact extends_headLine hline

/-- **What has been read is kept** by whatever follows. -/
theorem extends_drain {p : Phase} {xs : Bytes} {y : Head × Bytes}
    (hy : ((reader memory).drain p xs).1.locals = some y) :
    ∃ x, p.locals = some x ∧ Extends x y := by
  refine Incremental.drain_rel (M := reader memory)
    (R := fun p q ↦ ∀ y, q.locals = some y → ∃ x, p.locals = some x ∧ Extends x y)
    (fun p y hy ↦ ⟨y, hy, .refl y⟩) (fun p q r hpq hqr z hz ↦ ?_)
    (fun p xs p' n hstep y hy ↦ extends_step hstep hy) p xs y hy
  obtain ⟨y, hy, hyz⟩ := hqr z hz
  obtain ⟨x, hx, hxy⟩ := hpq y hy
  exact ⟨x, hx, hxy.trans hyz⟩

/-! ## What the lines of the header announce -/

/-- The length of the body that the header announces last. -/
def declared (headers : List Bytes) : Option ℕ := (headers.filterMap contentLengthOf).getLast?

/-- The locals say what the lines announce. -/
structure Head.Announces (h : Head) : Prop where
  chunked : h.chunkedResponse = h.headers.any isChunked
  length : (if h.contentLengthReceived then some h.contentLength else none) = declared h.headers

theorem Head.Announces.headLine {h h' : Head} {line : Bytes} (h₀ : h.Announces)
    (hline : headLine memory h line = .ok h') : h'.Announces := by
  obtain ⟨hchunked, hlength⟩ := h₀
  have hconcat (l : List Bytes) : declared (l ++ [line]) =
      (contentLengthOf line).or (declared l) := by
    rw [declared, List.filterMap_append, List.getLast?_append, declared, List.filterMap_cons,
      List.filterMap_nil]
    cases contentLengthOf line <;> rfl
  rcases headLine_cases hline with ⟨-, status, rfl⟩ | ⟨-, ⟨n, hn, hno, rfl⟩ | ⟨hn, hyes, rfl⟩ |
    ⟨hn, hno, rfl⟩⟩
  · exact ⟨hchunked, hlength⟩
  · refine ⟨?_, ?_⟩
    · rw [List.any_append, ← hchunked, List.any_cons, hno, List.any_nil, Bool.or_false,
        Bool.or_false]
    · rw [hconcat, hn, if_pos rfl, Option.some_or]
  · refine ⟨?_, ?_⟩
    · rw [List.any_append, List.any_cons, hyes, Bool.true_or, Bool.or_true]
    · rw [hconcat, hn, Option.none_or, ← hlength]
  · refine ⟨?_, ?_⟩
    · rw [List.any_append, ← hchunked, List.any_cons, hno, List.any_nil, Bool.or_false,
        Bool.or_false]
    · rw [hconcat, hn, Option.none_or, ← hlength]

theorem announces_parse (stream : Bytes) {y : Head × Bytes}
    (hy : (parse memory stream).locals = some y) : y.1.Announces := by
  refine Incremental.drain_rel (M := reader memory)
    (R := fun p q ↦ (∀ x, p.locals = some x → x.1.Announces) →
      ∀ y, q.locals = some y → y.1.Announces)
    (fun _ h ↦ h) (fun _ _ _ hpq hqr h ↦ hqr (hpq h)) (fun p xs p' n hstep h y hy ↦ ?_)
    (.head {}) stream (fun x hx ↦ ?_) y hy
  · obtain ⟨x, hx, rfl | ⟨b, rfl⟩ | ⟨line, h', hline, -, rfl⟩⟩ := locals_step hstep hy
    · exact h _ hx
    · exact h x hx
    · exact (h x hx).headLine hline
  · cases hx
    exact ⟨rfl, rfl⟩

end Http

end OtTcpListener
