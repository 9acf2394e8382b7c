import Mathlib

/-!
# Self-delimiting formats

A stream is cut into frames by reading, at the start of each frame, how long that frame is. Here
this is an arbitrary partial function `size` on strings: the size of the frame a string starts with,
once enough of it is there to tell.

`pieces` is the greedy cut: the complete frames from the left, and what is left over. It inverts
concatenation (`pieces_flatten_append`), and every stream arises that way
(`flatten_pieces_append`, `isFrame_of_mem_pieces`), so the cut is the only one. `walk` gives the
same cut as a sequence of offsets, each the previous one plus the size found there.

The induction rule `pieces_induction` is the one consumers use: a property of streams holds of all
of them if it holds of the incomplete ones and is preserved by putting a frame in front.

Records that announce no size can be told apart as well, if each is opened by a mark that occurs
nowhere else in it (`splitBy_flatten_of_opened`).
-/

universe u

/-- A format in which every frame announces its own size. -/
structure SelfDelimiting (β : Type u) where
  /-- The size of the frame a string starts with, if the string is long enough to tell. -/
  size : List β → Option ℕ
  /-- No frame is empty. -/
  size_pos : ∀ {xs : List β} {n : ℕ}, size xs = some n → 0 < n
  /-- What follows does not change the size once it is known. -/
  size_append : ∀ {xs : List β} {n : ℕ} (ys : List β), size xs = some n → size (xs ++ ys) = some n
  /-- The size is announced inside the frame. -/
  size_take : ∀ {xs : List β} {n : ℕ}, size xs = some n → n ≤ xs.length →
    size (xs.take n) = some n

namespace SelfDelimiting

variable {β : Type u} (F : SelfDelimiting β)

/-- One whole frame and nothing else. -/
def IsFrame (x : List β) : Prop := F.size x = some x.length

/-- The size of the complete frame at the start of a string. -/
def headSize (xs : List β) : Option ℕ := (F.size xs).filter (· ≤ xs.length)

/-- No complete frame at the start: either the size is not known yet or too few cells are there. -/
def Incomplete (xs : List β) : Prop := F.headSize xs = none

instance (x : List β) : Decidable (F.IsFrame x) := inferInstanceAs (Decidable (_ = _))

instance (xs : List β) : Decidable (F.Incomplete xs) := inferInstanceAs (Decidable (_ = _))

variable {F}

theorem headSize_eq_some {xs : List β} {n : ℕ} :
    F.headSize xs = some n ↔ F.size xs = some n ∧ n ≤ xs.length := by
  simp [headSize, Option.filter_eq_some_iff]

theorem incomplete_iff {xs : List β} :
    F.Incomplete xs ↔ ∀ n, F.size xs = some n → xs.length < n := by
  rw [Incomplete, Option.eq_none_iff_forall_ne_some]
  refine forall_congr' fun n ↦ ?_
  rw [ne_eq, headSize_eq_some, not_and, not_le]

theorem incomplete_nil (F : SelfDelimiting β) : F.Incomplete [] :=
  incomplete_iff.mpr fun _ h ↦ F.size_pos h

theorem IsFrame.headSize_append {x : List β} (h : F.IsFrame x) (ys : List β) :
    F.headSize (x ++ ys) = some x.length :=
  headSize_eq_some.mpr ⟨F.size_append ys h, by rw [List.length_append]; omega⟩

/-- A complete string is a frame followed by the rest. -/
theorem isFrame_take {xs : List β} {n : ℕ} (h : F.headSize xs = some n) :
    F.IsFrame (xs.take n) := by
  obtain ⟨hsize, hle⟩ := headSize_eq_some.mp h
  rw [IsFrame, F.size_take hsize hle, List.length_take_of_le hle]

/-- A frame cut short is incomplete. -/
theorem IsFrame.incomplete_of_append {y z : List β} (h : F.IsFrame (y ++ z)) (hz : z ≠ []) :
    F.Incomplete y := by
  refine incomplete_iff.mpr fun n hn ↦ ?_
  have hlen : n = (y ++ z).length :=
    Option.some.inj ((F.size_append z hn).symm.trans h)
  rw [hlen, List.length_append]
  exact Nat.lt_add_of_pos_right (List.length_pos_iff.mpr hz)

/-! ## The greedy cut -/

variable (F) in
/-- The complete frames of a stream from the left, and what is left over. -/
def pieces (xs : List β) : List (List β) × List β :=
  match _h : F.headSize xs with
  | none => ([], xs)
  | some n => (xs.take n :: (pieces (xs.drop n)).1, (pieces (xs.drop n)).2)
termination_by xs.length
decreasing_by
  all_goals
    obtain ⟨hsize, hle⟩ := headSize_eq_some.mp _h
    have hpos := F.size_pos hsize
    rw [List.length_drop]
    omega

theorem Incomplete.pieces_eq {xs : List β} (h : F.Incomplete xs) : F.pieces xs = ([], xs) := by
  rw [pieces]
  split
  · rfl
  · next n hn => exact absurd (h.symm.trans hn) (by simp)

@[simp] theorem pieces_nil (F : SelfDelimiting β) : F.pieces [] = ([], []) :=
  (incomplete_nil F).pieces_eq

theorem IsFrame.pieces_append {x : List β} (h : F.IsFrame x) (ys : List β) :
    F.pieces (x ++ ys) = (x :: (F.pieces ys).1, (F.pieces ys).2) := by
  have hhead := h.headSize_append ys
  rw [pieces]
  split
  · next hn => exact absurd (hn.symm.trans hhead) (by simp)
  · next n hn =>
    obtain rfl : n = x.length := Option.some.inj (hn.symm.trans hhead)
    rw [List.take_left, List.drop_left]

/-- **Induction along the cut.** A property of all incomplete streams that survives putting a frame
in front is a property of all streams. -/
theorem pieces_induction (F : SelfDelimiting β) {motive : List β → Prop}
    (incomplete : ∀ xs, F.Incomplete xs → motive xs)
    (frame : ∀ x ys, F.IsFrame x → motive ys → motive (x ++ ys)) (xs : List β) : motive xs := by
  induction hn : xs.length using Nat.strong_induction_on generalizing xs with
  | _ n ih =>
    cases hsize : F.headSize xs with
    | none => exact incomplete xs hsize
    | some k =>
      -- a frame is not empty, so what follows it is shorter
      obtain ⟨hk, hle⟩ := headSize_eq_some.mp hsize
      have hpos := F.size_pos hk
      rw [← List.take_append_drop k xs]
      exact frame _ _ (isFrame_take hsize)
        (ih _ (by rw [List.length_drop]; omega) _ rfl)

/-- **The cut inverts concatenation**, whatever incomplete string follows. -/
theorem pieces_flatten_append {frames : List (List β)} (h : ∀ x ∈ frames, F.IsFrame x)
    {rest : List β} (hrest : F.Incomplete rest) :
    F.pieces (frames.flatten ++ rest) = (frames, rest) := by
  induction frames with
  | nil => exact hrest.pieces_eq
  | cons x frames ih =>
    have htail := ih fun y hy ↦ h y (List.mem_cons_of_mem x hy)
    rw [List.flatten_cons, List.append_assoc, (h x List.mem_cons_self).pieces_append, htail]

/-- The pieces and the rest are the stream. -/
theorem flatten_pieces_append (xs : List β) : (F.pieces xs).1.flatten ++ (F.pieces xs).2 = xs := by
  induction xs using pieces_induction F with
  | incomplete xs h => rw [h.pieces_eq, List.flatten_nil, List.nil_append]
  | frame x ys h ih => rw [h.pieces_append, List.flatten_cons, List.append_assoc, ih]

theorem isFrame_of_mem_pieces {xs x : List β} (hx : x ∈ (F.pieces xs).1) : F.IsFrame x := by
  induction xs using pieces_induction F with
  | incomplete xs h => rw [h.pieces_eq] at hx; exact absurd hx List.not_mem_nil
  | frame y ys h ih =>
    rw [h.pieces_append] at hx
    rcases List.mem_cons.mp hx with rfl | hx
    · exact h
    · exact ih hx

/-! ## The cut as a walk -/

variable (F) in
/-- The offsets found by starting at `0` and advancing by the size announced at each offset. -/
def walk (xs : List β) : ℕ → ℕ
  | 0 => 0
  | k + 1 => walk xs k + (F.size (xs.drop (walk xs k))).getD 0

@[simp] theorem walk_zero (xs : List β) : F.walk xs 0 = 0 := rfl

theorem walk_succ (xs : List β) (k : ℕ) :
    F.walk xs (k + 1) = F.walk xs k + (F.size (xs.drop (F.walk xs k))).getD 0 := rfl

/-- Past a frame the walk is the walk of what follows. -/
theorem IsFrame.walk_append_succ {x : List β} (h : F.IsFrame x) (ys : List β) (k : ℕ) :
    F.walk (x ++ ys) (k + 1) = x.length + F.walk ys k := by
  induction k with
  | zero =>
    rw [walk_succ, walk_zero, walk_zero, List.drop_zero, F.size_append ys h, Option.getD_some]
    omega
  | succ k ih =>
    rw [walk_succ, ih, walk_succ ys, List.drop_append, List.drop_eq_nil_of_le (by omega),
      List.nil_append, Nat.add_sub_cancel_left, Nat.add_assoc]

/-- The `k`-th piece is what lies between the `k`-th offset of the walk and the next. -/
theorem getElem?_pieces (xs : List β) {k : ℕ} (hk : k < (F.pieces xs).1.length) :
    F.walk xs (k + 1) ≤ xs.length ∧
      (F.pieces xs).1[k]? = some ((xs.take (F.walk xs (k + 1))).drop (F.walk xs k)) := by
  induction xs using pieces_induction F generalizing k with
  | incomplete xs h =>
    rw [h.pieces_eq] at hk
    exact absurd hk (Nat.not_lt_zero k)
  | frame x ys h ih =>
    rw [h.pieces_append] at hk ⊢
    rw [List.length_append]
    cases k with
    | zero =>
      rw [h.walk_append_succ, walk_zero, walk_zero, Nat.add_zero, List.drop_zero, List.take_left]
      exact ⟨by omega, rfl⟩
    | succ k =>
      obtain ⟨hle, hpiece⟩ := ih (Nat.lt_of_succ_lt_succ hk)
      rw [h.walk_append_succ, h.walk_append_succ, List.getElem?_cons_succ, hpiece,
        List.take_length_add_append, List.drop_length_add_append]
      exact ⟨by omega, rfl⟩

/-- The walk reaches exactly the end of the last piece. -/
theorem walk_length_pieces (xs : List β) :
    F.walk xs (F.pieces xs).1.length + (F.pieces xs).2.length = xs.length := by
  induction xs using pieces_induction F with
  | incomplete xs h => rw [h.pieces_eq, List.length_nil, walk_zero, Nat.zero_add]
  | frame x ys h ih =>
    rw [h.pieces_append, List.length_cons, h.walk_append_succ, List.length_append, Nat.add_assoc,
      ih]

/-! ## Records opened by a mark -/

/-- Records that are opened by a mark, and hold it nowhere else, can be told apart in a row. -/
theorem splitBy_flatten_of_opened {opens : β → Bool} {records : List (List β)}
    (h : ∀ x ∈ records, ∃ mark rest, x = mark :: rest ∧ opens mark = true ∧
      ∀ b ∈ rest, opens b = false) :
    records.flatten.splitBy (fun _ b ↦ !opens b) = records := by
  refine List.splitBy_flatten ?_ (fun x hx ↦ ?_) ?_
  · intro hnil
    obtain ⟨mark, rest, heq, -⟩ := h [] hnil
    cases heq
  · obtain ⟨mark, rest, rfl, -, hrest⟩ := h x hx
    have hmark : ∀ b ∈ rest, (!opens b) = true := fun b hb ↦ by rw [hrest b hb, Bool.not_false]
    exact (List.pairwise_cons.mpr
      ⟨hmark, List.pairwise_of_forall_mem_list fun _ _ b hb ↦ hmark b hb⟩).isChain
  · refine (List.pairwise_of_forall_mem_list fun x hx y hy ↦ ?_).isChain
    obtain ⟨_, _, rfl, -, -⟩ := h x hx
    obtain ⟨mark, rest, rfl, hopens, -⟩ := h y hy
    refine ⟨List.cons_ne_nil _ _, List.cons_ne_nil _ _, ?_⟩
    rw [List.head_cons, hopens, Bool.not_true]

end SelfDelimiting
