import Mathlib

/-!
# Incremental readers

A reader takes a stream that arrives in portions. It has a state, and whenever what has arrived
allows it makes a step: it changes its state and uses up some cells at the front. What it cannot use
yet it keeps. Two laws make such a reader independent of the portions: a step that is possible stays
the same step when more arrives, and it looks at nothing but the cells that it uses up.

`drain` makes all steps that are possible. Draining a stream in two portions is draining it at once
(`drain_append`).

## Watching the reader between two portions

`read` takes portions in until the state is `settled`, which it looks at after each portion. It may
therefore overshoot: it stops behind the portion in which the state became settled, and how much of
the stream that is depends on the cut. When no step leaves the settled states, or changes a certain
`view` of them, that view of what `read` returns depends on the stream alone (`view_read`), and so
does whether `read` ever stops (`read_snd`).
-/

universe u v w

/-- A reader with states `σ` and cells `β`. -/
structure Incremental (σ : Type u) (β : Type v) where
  /-- The next state, and how many cells the step uses up. -/
  step : σ → List β → Option (σ × ℕ)
  step_pos : ∀ {s s' : σ} {xs : List β} {n : ℕ}, step s xs = some (s', n) → 0 < n
  step_le : ∀ {s s' : σ} {xs : List β} {n : ℕ}, step s xs = some (s', n) → n ≤ xs.length
  /-- What arrives later does not change the step. -/
  step_append : ∀ {s : σ} {xs : List β} {r : σ × ℕ} (ys : List β), step s xs = some r →
    step s (xs ++ ys) = some r
  /-- Only the cells that are used up decide on the step. -/
  step_take : ∀ {s s' : σ} {xs : List β} {n : ℕ}, step s xs = some (s', n) →
    step s (xs.take n) = some (s', n)

namespace Incremental

variable {σ : Type u} {β : Type v} (M : Incremental σ β)

/-- No step is possible. -/
def Stuck (s : σ) (xs : List β) : Prop := M.step s xs = none

/-- The state after all possible steps, and the cells not used up. -/
def drain (s : σ) (xs : List β) : σ × List β :=
  match _h : M.step s xs with
  | none => (s, xs)
  | some (s', n) => drain s' (xs.drop n)
termination_by xs.length
decreasing_by
  have hpos := M.step_pos _h
  have hle := M.step_le _h
  rw [List.length_drop]
  omega

variable {M} {s s' : σ} {xs : List β} {n : ℕ}

theorem Stuck.drain_eq (h : M.Stuck s xs) : M.drain s xs = (s, xs) := by
  rw [drain]
  split
  · rfl
  · next hsome => cases h.symm.trans hsome

theorem drain_of_step (h : M.step s xs = some (s', n)) :
    M.drain s xs = M.drain s' (xs.drop n) := by
  rw [drain]
  split
  · next hnone => cases hnone.symm.trans h
  · next s'' m hsome =>
    obtain ⟨rfl, rfl⟩ := Prod.mk.inj (Option.some.inj (hsome.symm.trans h))
    rfl

/-- Nothing can be done with nothing. -/
theorem stuck_nil (M : Incremental σ β) (s : σ) : M.Stuck s [] := by
  rw [Stuck, Option.eq_none_iff_forall_ne_some]
  rintro ⟨s', n⟩ h
  exact absurd (M.step_le h) (Nat.not_le.mpr (M.step_pos h))

@[simp] theorem drain_nil (s : σ) : M.drain s [] = (s, []) := (M.stuck_nil s).drain_eq

/-- **Induction along the steps**, from the last one back. -/
theorem drain_induction (M : Incremental σ β) {motive : σ → List β → Prop}
    (stuck : ∀ s xs, M.Stuck s xs → motive s xs)
    (step : ∀ s xs s' n, M.step s xs = some (s', n) → motive s' (xs.drop n) → motive s xs)
    (s : σ) (xs : List β) : motive s xs := by
  induction hlen : xs.length using Nat.strong_induction_on generalizing s xs with
  | _ k ih =>
    cases h : M.step s xs with
    | none => exact stuck s xs h
    | some r =>
      obtain ⟨s', n⟩ := r
      have hpos := M.step_pos h
      have hle := M.step_le h
      exact step s xs s' n h (ih _ (by rw [List.length_drop]; omega) s' _ rfl)

/-- After all possible steps no further one is possible. -/
theorem stuck_drain (s : σ) (xs : List β) : M.Stuck (M.drain s xs).1 (M.drain s xs).2 := by
  induction s, xs using drain_induction M with
  | stuck s xs h => rwa [h.drain_eq]
  | step s xs s' n h ih => rwa [drain_of_step h]

/-- **Draining in two portions.** -/
theorem drain_append (s : σ) (xs ys : List β) :
    M.drain s (xs ++ ys) = M.drain (M.drain s xs).1 ((M.drain s xs).2 ++ ys) := by
  induction s, xs using drain_induction M with
  | stuck s xs h => rw [h.drain_eq]
  | step s xs s' n h ih =>
    rw [drain_of_step h, drain_of_step (M.step_append ys h),
      List.drop_append_of_le_length (M.step_le h), ih]

/-- A relation that every step keeps holds between the first state and the last. -/
theorem drain_rel {R : σ → σ → Prop} (hrefl : ∀ s, R s s)
    (htrans : ∀ s t u, R s t → R t u → R s u)
    (hstep : ∀ s xs s' n, M.step s xs = some (s', n) → R s s') (s : σ) (xs : List β) :
    R s (M.drain s xs).1 := by
  induction s, xs using drain_induction M with
  | stuck s xs h =>
    rw [h.drain_eq]
    exact hrefl s
  | step s xs s' n h ih =>
    rw [drain_of_step h]
    exact htrans s s' _ (hstep s xs s' n h) ih

/-- A step that more input has made possible uses up all that was there before. -/
theorem Stuck.lt_of_step_append {ys : List β} (h : M.Stuck s xs)
    (hstep : M.step s (xs ++ ys) = some (s', n)) : xs.length < n := by
  by_contra hle
  have htake := M.step_take hstep
  rw [List.take_append_of_le_length (Nat.not_lt.mp hle)] at htake
  have hbefore := M.step_append (xs.drop n) htake
  rw [List.take_append_drop] at hbefore
  cases h.symm.trans hbefore

/-! ## Portions -/

variable (M) in
/-- Take in portions until the state is settled. The flag says whether it is; without it the
portions have run out. -/
def read (settled : σ → Bool) : σ → List β → List (List β) → σ × Bool
  | s, _, [] => (s, false)
  | s, rest, chunk :: chunks =>
    let next := M.drain s (rest ++ chunk)
    if settled next.1 then (next.1, true) else read settled next.1 next.2 chunks

variable {settled : σ → Bool} {rest : List β}

/-- What `read` returns: the state behind as many portions as it takes to settle, or behind all of
them if they do not suffice. -/
theorem read_eq (settled : σ → Bool) (s : σ) (rest : List β) (chunks : List (List β))
    (hrest : M.Stuck s rest) :
    (∃ front back, chunks = front ++ back ∧
      M.read settled s rest chunks = ((M.drain s (rest ++ front.flatten)).1, true) ∧
        settled (M.drain s (rest ++ front.flatten)).1 = true) ∨
      M.read settled s rest chunks = ((M.drain s (rest ++ chunks.flatten)).1, false) ∧
        ∀ front back, front ≠ [] → chunks = front ++ back →
          settled (M.drain s (rest ++ front.flatten)).1 = false := by
  induction chunks generalizing s rest with
  | nil =>
    refine .inr ⟨?_, fun front back hne h ↦ ?_⟩
    · rw [read, List.flatten_nil, List.append_nil, hrest.drain_eq]
    · exact absurd (List.append_eq_nil_iff.mp h.symm).1 hne
  | cons chunk chunks ih =>
    have hsplit (front : List (List β)) :
        M.drain s (rest ++ (chunk :: front).flatten) =
          M.drain (M.drain s (rest ++ chunk)).1
            ((M.drain s (rest ++ chunk)).2 ++ front.flatten) := by
      rw [List.flatten_cons, ← List.append_assoc, drain_append]
    rw [read]
    by_cases hsettled : settled (M.drain s (rest ++ chunk)).1 = true
    · refine .inl ⟨[chunk], chunks, rfl, ?_, ?_⟩
      · rw [if_pos hsettled, List.flatten_singleton]
      · rwa [List.flatten_singleton]
    · rw [if_neg hsettled]
      rcases ih _ _ (stuck_drain s (rest ++ chunk)) with
        ⟨front, back, rfl, hread, hfront⟩ | ⟨hread, hnone⟩
      · refine .inl ⟨chunk :: front, back, rfl, ?_, ?_⟩
        · rw [hread, hsplit]
        · rwa [hsplit]
      · refine .inr ⟨by rw [hread, hsplit], fun front back hne h ↦ ?_⟩
        cases front with
        | nil => exact absurd rfl hne
        | cons chunk' front =>
          obtain ⟨rfl, hchunks⟩ := List.cons.inj h
          rw [hsplit]
          cases front with
          | nil =>
            -- behind the first portion it is not settled, as has been seen
            rw [List.flatten_nil, List.append_nil, (stuck_drain s (rest ++ chunk)).drain_eq]
            exact Bool.eq_false_iff.mpr hsettled
          | cons chunk'' front => exact hnone _ back (List.cons_ne_nil _ _) hchunks

/-- Settled states stay settled. -/
def Persists (M : Incremental σ β) (settled : σ → Bool) : Prop :=
  ∀ {s s' : σ} {xs : List β} {n : ℕ}, M.step s xs = some (s', n) → settled s = true →
    settled s' = true

theorem Persists.drain (h : M.Persists settled) {s : σ} (hs : settled s = true) (xs : List β) :
    settled (M.drain s xs).1 = true :=
  drain_rel (R := fun s t ↦ settled s = true → settled t = true) (fun _ ↦ id)
    (fun _ _ _ hst htu ↦ htu ∘ hst) (fun _ _ _ _ hstep ↦ h hstep) s xs hs

variable (settled) in
/-- **Whether `read` stops** depends on the stream alone. -/
theorem read_snd (h : M.Persists settled) (hs : settled s = false) (hrest : M.Stuck s rest)
    (chunks : List (List β)) :
    (M.read settled s rest chunks).2 = settled (M.drain s (rest ++ chunks.flatten)).1 := by
  rcases read_eq settled s rest chunks hrest with ⟨front, back, rfl, hread, hfront⟩ | ⟨hread, hnone⟩
  · rw [hread, List.flatten_append, ← List.append_assoc,
      drain_append s (rest ++ front.flatten), h.drain hfront]
  · rw [hread]
    cases chunks with
    | nil => rw [List.flatten_nil, List.append_nil, hrest.drain_eq, hs]
    | cons chunk chunks => exact (hnone _ [] (List.cons_ne_nil _ _) (List.append_nil _).symm).symm

/-- **What `read` returns**, seen through a view that settled states keep, depends on the stream
alone. -/
theorem view_read {τ : Type w} (view : σ → τ)
    (hview : ∀ {s s' : σ} {xs : List β} {n : ℕ}, M.step s xs = some (s', n) → settled s = true →
      settled s' = true ∧ view s' = view s) (hrest : M.Stuck s rest) (chunks : List (List β)) :
    view (M.read settled s rest chunks).1 = view (M.drain s (rest ++ chunks.flatten)).1 := by
  rcases read_eq settled s rest chunks hrest with ⟨front, back, rfl, hread, hfront⟩ | ⟨hread, -⟩
  · have hkeep := drain_rel (M := M)
      (R := fun s t ↦ settled s = true → settled t = true ∧ view t = view s)
      (fun _ hs ↦ ⟨hs, rfl⟩)
      (fun _ _ _ hst htu hs ↦ ⟨(htu (hst hs).1).1, (htu (hst hs).1).2.trans (hst hs).2⟩)
      (fun _ _ _ _ hstep hs ↦ hview hstep hs) (M.drain s (rest ++ front.flatten)).1
      ((M.drain s (rest ++ front.flatten)).2 ++ back.flatten) hfront
    rw [hread, List.flatten_append, ← List.append_assoc,
      drain_append s (rest ++ front.flatten), hkeep.2]
  · rw [hread]

end Incremental
