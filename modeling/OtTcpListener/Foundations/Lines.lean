import OtTcpListener.Foundations.SelfDelimiting

/-!
# Lines ended by two marks

A line ends where two given cells stand side by side, a carriage return and a line feed for
instance. `search` finds the first such place. What comes later does not move it, and it depends on
nothing behind the two marks, so lines form a self-delimiting format (`lines`), and all that is
known of those applies: the cut of a stream into complete lines and a rest is unique.

A line without marks of its own is `Unbroken`. When the marks differ, the two marks behind an
unbroken line are the first ones in any continuation (`search_append_cons`).
-/

universe u

namespace Lines

variable {α : Type u} [DecidableEq α]

/-- The place at which `c` and `d` first stand side by side. -/
def search (c d : α) : List α → Option ℕ
  | [] => none
  | a :: xs => if a = c ∧ xs.head? = some d then some 0 else (search c d xs).map (· + 1)

/-- A list in which the marks never stand side by side. -/
def Unbroken (c d : α) (line : List α) : Prop := search c d line = none

instance (c d : α) (line : List α) : Decidable (Unbroken c d line) :=
  inferInstanceAs (Decidable (_ = _))

variable {c d : α} {xs : List α} {i : ℕ}

theorem search_cons (a : α) (xs : List α) :
    search c d (a :: xs) =
      if a = c ∧ xs.head? = some d then some 0 else (search c d xs).map (· + 1) := rfl

theorem unbroken_cons_iff {a : α} :
    Unbroken c d (a :: xs) ↔ ¬(a = c ∧ xs.head? = some d) ∧ Unbroken c d xs := by
  rw [Unbroken, search_cons]
  split
  · next hmark => exact iff_of_false (fun h ↦ by cases h) fun h ↦ h.1 hmark
  · next hmark =>
    rw [Option.map_eq_none_iff]
    exact (and_iff_right hmark).symm

/-- A list without the first mark has no end of a line. -/
theorem unbroken_of_notMem (h : c ∉ xs) : Unbroken c d xs := by
  induction xs with
  | nil => rfl
  | cons a xs ih =>
    rw [List.mem_cons, not_or] at h
    exact unbroken_cons_iff.mpr ⟨fun hmark ↦ h.1 hmark.1.symm, ih h.2⟩

/-- What stands at the place found. -/
theorem search_eq_some (h : search c d xs = some i) :
    Unbroken c d (xs.take i) ∧ xs = xs.take i ++ c :: d :: xs.drop (i + 2) := by
  induction xs generalizing i with
  | nil => cases h
  | cons a xs ih =>
    rw [search_cons] at h
    by_cases hmark : a = c ∧ xs.head? = some d
    · rw [if_pos hmark, Option.some.injEq] at h
      obtain ⟨rfl, hhead⟩ := hmark
      obtain ⟨xs, rfl⟩ : ∃ ys, xs = d :: ys := by
        cases xs with
        | nil => cases hhead
        | cons b xs => exact ⟨xs, by rw [Option.some.inj hhead]⟩
      rw [← h]
      exact ⟨rfl, rfl⟩
    · rw [if_neg hmark, Option.map_eq_some_iff] at h
      obtain ⟨j, hj, rfl⟩ := h
      obtain ⟨hfree, heq⟩ := ih hj
      refine ⟨?_, ?_⟩
      · -- what has been taken does not end between the two marks
        rw [Unbroken, List.take_succ_cons, search_cons, hfree, Option.map_none, if_neg]
        rintro ⟨rfl, hhead⟩
        cases j with
        | zero => cases hhead
        | succ j =>
          rw [List.head?_take, if_neg (Nat.succ_ne_zero j)] at hhead
          exact hmark ⟨rfl, hhead⟩
      · rw [List.take_succ_cons, List.cons_append, Nat.succ_add, List.drop_succ_cons, ← heq]

theorem add_two_le_of_search (h : search c d xs = some i) : i + 2 ≤ xs.length := by
  obtain ⟨-, heq⟩ := search_eq_some h
  have hlen := congrArg List.length heq
  rw [List.length_append, List.length_take, List.length_cons, List.length_cons,
    List.length_drop] at hlen
  omega

theorem search_append (h : search c d xs = some i) (ys : List α) :
    search c d (xs ++ ys) = some i := by
  induction xs generalizing i with
  | nil => cases h
  | cons a xs ih =>
    rw [search_cons] at h
    rw [List.cons_append, search_cons]
    by_cases hmark : a = c ∧ xs.head? = some d
    · rw [if_pos hmark] at h
      rw [if_pos ⟨hmark.1, by rw [List.head?_append, hmark.2, Option.some_or]⟩, h]
    · rw [if_neg hmark, Option.map_eq_some_iff] at h
      obtain ⟨j, hj, rfl⟩ := h
      have hne : xs.head? ≠ none := by
        rintro hnil
        rw [List.head?_eq_none_iff.mp hnil] at hj
        cases hj
      obtain ⟨b, hb⟩ := Option.ne_none_iff_exists'.mp hne
      rw [List.head?_append, hb, Option.some_or, ← hb, if_neg hmark, ih hj, Option.map_some]

/-- The two marks behind an unbroken line are the first ones. -/
theorem search_append_cons (hcd : c ≠ d) {line : List α} (h : Unbroken c d line) (rest : List α) :
    search c d (line ++ c :: d :: rest) = some line.length := by
  induction line with
  | nil => exact if_pos ⟨rfl, rfl⟩
  | cons a line ih =>
    rw [Unbroken, search_cons] at h
    by_cases hmark : a = c ∧ line.head? = some d
    · rw [if_pos hmark] at h
      cases h
    · rw [if_neg hmark, Option.map_eq_none_iff] at h
      rw [List.cons_append, search_cons, ih h, if_neg]
      · rfl
      · rintro ⟨rfl, hhead⟩
        cases line with
        | nil => exact hcd (Option.some.inj hhead)
        | cons b line => exact hmark ⟨rfl, hhead⟩

/-- Around a cell that is no mark, the two sides are lines of their own. -/
theorem unbroken_append_cons {e : α} (hc : e ≠ c) (hd : e ≠ d) {ys : List α} :
    Unbroken c d (xs ++ e :: ys) ↔ Unbroken c d xs ∧ Unbroken c d ys := by
  induction xs with
  | nil =>
    rw [List.nil_append, unbroken_cons_iff, and_iff_right fun h ↦ hc h.1]
    exact (and_iff_right rfl).symm
  | cons a xs ih =>
    have hhead : (xs ++ e :: ys).head? = some d ↔ xs.head? = some d := by
      cases xs with
      | nil => exact iff_of_false (fun h ↦ hd (Option.some.inj h)) (fun h ↦ by cases h)
      | cons b xs => exact Iff.rfl
    rw [List.cons_append, unbroken_cons_iff, unbroken_cons_iff, hhead, ih, and_assoc]

theorem search_take (h : search c d xs = some i) : search c d (xs.take (i + 2)) = some i := by
  induction xs generalizing i with
  | nil => cases h
  | cons a xs ih =>
    rw [search_cons] at h
    rw [List.take_succ_cons, search_cons]
    by_cases hmark : a = c ∧ xs.head? = some d
    · rw [if_pos hmark] at h
      rw [if_pos ⟨hmark.1, by rw [List.head?_take, if_neg (Nat.succ_ne_zero i), hmark.2]⟩, h]
    · rw [if_neg hmark, Option.map_eq_some_iff] at h
      obtain ⟨j, hj, rfl⟩ := h
      rw [List.head?_take, if_neg (Nat.succ_ne_zero _), if_neg hmark, ih hj, Option.map_some]

/-! ## The format -/

/-- A line with its two marks, as a self-delimiting format. -/
def lines (c d : α) : SelfDelimiting α where
  size xs := (search c d xs).map (· + 2)
  size_pos h := by
    obtain ⟨i, -, rfl⟩ := Option.map_eq_some_iff.mp h
    exact Nat.succ_pos _
  size_append ys h := by
    obtain ⟨i, hi, rfl⟩ := Option.map_eq_some_iff.mp h
    rw [search_append hi, Option.map_some]
  size_take h hle := by
    obtain ⟨i, hi, rfl⟩ := Option.map_eq_some_iff.mp h
    rw [search_take hi, Option.map_some]

/-- A string without marks is incomplete, and no other is. -/
theorem incomplete_lines_iff : (lines c d).Incomplete xs ↔ Unbroken c d xs := by
  rw [SelfDelimiting.incomplete_iff, Unbroken, Option.eq_none_iff_forall_ne_some]
  constructor
  · intro h i hi
    have hlt := h (i + 2) (Option.map_eq_some_iff.mpr ⟨i, hi, rfl⟩)
    exact absurd (add_two_le_of_search hi) (Nat.not_le.mpr hlt)
  · intro h n hn
    obtain ⟨i, hi, -⟩ := Option.map_eq_some_iff.mp hn
    exact absurd hi (h i)

/-- A frame is an unbroken line and the two marks. -/
theorem isFrame_lines_iff (hcd : c ≠ d) :
    (lines c d).IsFrame xs ↔ ∃ line, Unbroken c d line ∧ xs = line ++ [c, d] := by
  rw [SelfDelimiting.IsFrame]
  constructor
  · intro h
    obtain ⟨i, hi, hlen⟩ := Option.map_eq_some_iff.mp h
    obtain ⟨hfree, heq⟩ := search_eq_some hi
    refine ⟨xs.take i, hfree, heq.trans ?_⟩
    rw [List.drop_eq_nil_of_le (Nat.le_of_eq hlen.symm)]
  · rintro ⟨line, hfree, rfl⟩
    rw [List.length_append]
    exact Option.map_eq_some_iff.mpr ⟨line.length, search_append_cons hcd hfree [], rfl⟩

end Lines
