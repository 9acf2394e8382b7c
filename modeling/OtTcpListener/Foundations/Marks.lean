import Mathlib.Data.List.Infix

/-!
# Cutting at a mark

A text is cut at every occurrence of a mark, from left to right. When the first letter of the mark
does not occur in it again, no two occurrences overlap, and then the parts that were joined are
found again: `cut_flatMap`.
-/

universe u

namespace Marks

variable {α : Type u} [DecidableEq α]

/-- Where a mark occurs first. -/
def search (mark : List α) : List α → Option ℕ
  | [] => if mark = [] then some 0 else none
  | x :: xs => if mark.isPrefixOf (x :: xs) then some 0 else (search mark xs).map (· + 1)

variable {mark xs : List α} {k : ℕ}

theorem search_eq_none_iff : search mark xs = none ↔ ¬mark <:+: xs := by
  induction xs with
  | nil => simp [search, List.infix_nil]
  | cons x xs ih =>
    rw [search, List.infix_cons_iff, not_or, ← List.isPrefixOf_iff_prefix]
    split
    · next h => exact iff_of_false (Option.some_ne_none _) fun hnot ↦ hnot.1 h
    · next h => rw [Option.map_eq_none_iff, ih, and_iff_right h]

theorem add_length_le_of_search (h : search mark xs = some k) : k + mark.length ≤ xs.length := by
  induction xs generalizing k with
  | nil =>
    rw [search] at h
    split at h
    · next hnil => rw [← Option.some.inj h, hnil]; rfl
    · cases h
  | cons x xs ih =>
    rw [search] at h
    split at h
    · next hbegins =>
      rw [← Option.some.inj h, Nat.zero_add]
      exact (List.isPrefixOf_iff_prefix.mp hbegins).length_le
    · obtain ⟨j, hj, rfl⟩ := Option.map_eq_some_iff.mp h
      have hle := ih hj
      rw [List.length_cons]
      omega

/-- The parts between the marks. -/
def cut (mark : List α) (xs : List α) : List (List α) :=
  match _h : search mark xs with
  | none => [xs]
  | some k =>
    if _hmark : mark = [] then [xs] else xs.take k :: cut mark (xs.drop (k + mark.length))
termination_by xs.length
decreasing_by
  have hle := add_length_le_of_search _h
  have hpos := List.length_pos_iff.mpr _hmark
  rw [List.length_drop]
  omega

theorem cut_of_not_infix (h : ¬mark <:+: xs) : cut mark xs = [xs] := by
  rw [cut]
  split
  · rfl
  · next hsome => cases (search_eq_none_iff.mpr h).symm.trans hsome

theorem cut_of_search (hmark : mark ≠ []) (h : search mark xs = some k) :
    cut mark xs = xs.take k :: cut mark (xs.drop (k + mark.length)) := by
  rw [cut]
  split
  · next hnone => cases hnone.symm.trans h
  · next j hsome =>
    obtain rfl := Option.some.inj (hsome.symm.trans h)
    rw [dif_neg hmark]

/-! ## Marks that do not overlap -/

variable {x : α} {tail : List α}

omit [DecidableEq α] in
/-- An occurrence does not begin in front of another one and reach into it. -/
theorem not_prefix_append (hx : x ∉ tail) {y : α} {part : List α}
    (h : ¬x :: tail <+: y :: part) (rest : List α) :
    ¬x :: tail <+: y :: part ++ (x :: tail ++ rest) := by
  rintro ⟨back, hback⟩
  rcases le_or_gt (x :: tail).length (y :: part).length with hle | hlt
  · exact h (List.prefix_of_prefix_length_le ⟨back, hback⟩ (List.prefix_append _ _) hle)
  · -- the mark would go on behind the part, and begin again there
    obtain ⟨excess, hexcess⟩ : y :: part <+: x :: tail :=
      List.prefix_of_prefix_length_le (List.prefix_append _ _) ⟨back, hback⟩ hlt.le
    have hne : excess ≠ [] := by
      rintro rfl
      rw [← hexcess, List.append_nil] at hlt
      exact hlt.false
    obtain ⟨z, excess, rfl⟩ := List.exists_cons_of_ne_nil hne
    have htail : z ∈ tail := by
      have hcons := (List.cons.inj hexcess).2
      exact hcons ▸ List.mem_append_right _ List.mem_cons_self
    have hagain : z :: excess ++ back = x :: tail ++ rest := by
      rw [← List.append_cancel_left_eq (y :: part), ← List.append_assoc, hexcess, hback]
    exact hx ((List.cons.inj hagain).1 ▸ htail)

/-- Behind a part without one, the next occurrence is found. -/
theorem search_append (hx : x ∉ tail) {part : List α} (h : ¬x :: tail <:+: part) (rest : List α) :
    search (x :: tail) (part ++ (x :: tail ++ rest)) = some part.length := by
  induction part with
  | nil =>
    have hbegins : (x :: tail).isPrefixOf (x :: (tail ++ rest)) = true :=
      List.isPrefixOf_iff_prefix.mpr ⟨rest, rfl⟩
    rw [List.nil_append, List.cons_append, search, if_pos hbegins]
    rfl
  | cons y part ih =>
    rw [List.infix_cons_iff, not_or] at h
    rw [List.cons_append, search, ih h.2, if_neg, Option.map_some, List.length_cons]
    rw [List.isPrefixOf_iff_prefix]
    exact not_prefix_append hx h.1 rest

/-- **Parts are found again.** -/
theorem cut_flatMap (hx : x ∉ tail) {part : List α} {parts : List (List α)}
    (h : ∀ p ∈ part :: parts, ¬x :: tail <:+: p) :
    cut (x :: tail) (part ++ parts.flatMap (x :: tail ++ ·)) = part :: parts := by
  induction parts generalizing part with
  | nil =>
    rw [List.flatMap_nil, List.append_nil]
    exact cut_of_not_infix (h part List.mem_cons_self)
  | cons p parts ih =>
    rw [List.forall_mem_cons] at h
    have hdrop : (part ++ (x :: tail ++ (p ++ parts.flatMap (x :: tail ++ ·)))).drop
        (part.length + (x :: tail).length) = p ++ parts.flatMap (x :: tail ++ ·) := by
      rw [← List.drop_drop, List.drop_left, List.drop_left]
    rw [List.flatMap_cons, List.append_assoc (x :: tail),
      cut_of_search (List.cons_ne_nil _ _) (search_append hx h.1 _), List.take_left, hdrop, ih h.2]

end Marks
