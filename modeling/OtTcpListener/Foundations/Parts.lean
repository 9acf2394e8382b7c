import Mathlib.Data.List.Basic
import Mathlib.Data.List.Count

/-!
# Parts between separators

A list cut at every occurrence of a separator falls into parts without separators, one more than
there are occurrences, and joining the parts gives the list back. The parts are the only non-empty
list of parts without separators that does.

`located` tags each part with the offset at which it lies in the list. Whatever precedes a part
either is empty or ends in a separator.
-/

universe u

namespace Parts

variable {α : Type u}

/-- The parts of a list, each with its offset, the first one at `o`. Between two parts lies one
separator. -/
def located : ℕ → List (List α) → List (ℕ × List α)
  | _, [] => []
  | o, p :: ps => (o, p) :: located (o + p.length + 1) ps

@[simp] theorem length_located (o : ℕ) (ps : List (List α)) :
    (located o ps).length = ps.length := by
  induction ps generalizing o with
  | nil => rfl
  | cons p ps ih => rw [located, List.length_cons, ih, List.length_cons]

@[simp] theorem map_snd_located (o : ℕ) (ps : List (List α)) :
    (located o ps).map Prod.snd = ps := by
  induction ps generalizing o with
  | nil => rfl
  | cons p ps ih => rw [located, List.map_cons, ih]

/-- Where a located part lies in the joined list. -/
theorem exists_of_mem_located {d : α} {o : ℕ} {ps : List (List α)} {x : ℕ × List α}
    (hx : x ∈ located o ps) :
    ∃ front back, [d].intercalate ps = front ++ x.2 ++ back ∧ o + front.length = x.1 ∧
      (front = [] ∨ ∃ before, front = before ++ [d]) := by
  induction ps generalizing o with
  | nil => exact absurd hx List.not_mem_nil
  | cons p ps ih =>
    rw [located, List.mem_cons] at hx
    cases ps with
    | nil =>
      obtain rfl := hx.resolve_right List.not_mem_nil
      exact ⟨[], [], by simp, rfl, .inl rfl⟩
    | cons q ps =>
      have hjoin : [d].intercalate (p :: q :: ps) = p ++ [d] ++ [d].intercalate (q :: ps) := by
        simp
      rcases hx with rfl | hx
      · exact ⟨[], [d] ++ [d].intercalate (q :: ps), by rw [hjoin]; simp, rfl, .inl rfl⟩
      · obtain ⟨front, back, hmem, hoff, hend⟩ := ih hx
        refine ⟨p ++ [d] ++ front, back, by rw [hjoin, hmem]; simp, ?_, .inr ?_⟩
        · rw [List.length_append, List.length_append, List.length_singleton, ← hoff]
          omega
        · rcases hend with rfl | ⟨before, rfl⟩
          · exact ⟨p, by rw [List.append_nil]⟩
          · exact ⟨p ++ [d] ++ before, by rw [List.append_assoc _ before]⟩

variable [BEq α] [LawfulBEq α]

/-! ## The parts of a list -/

/-- Induction along the separators: a list without any is its only part, and otherwise a first
part, a separator and a list with parts of its own. -/
theorem parts_induction (d : α) {motive : List α → Prop} (last : ∀ s, d ∉ s → motive s)
    (cons : ∀ p s, d ∉ p → motive s → motive (p ++ d :: s)) (s : List α) : motive s := by
  by_cases hd : d ∈ s
  · obtain ⟨p, s', hs, hp⟩ := List.eq_append_cons_of_mem hd
    have hlen : s'.length < s.length := by
      rw [hs, List.length_append, List.length_cons]
      omega
    rw [hs]
    exact cons p s' hp (parts_induction d last cons s')
  · exact last s hd
termination_by s.length

theorem notMem_of_mem_splitOn {s p : List α} {d : α} (hp : p ∈ s.splitOn d) : d ∉ p := by
  induction s using parts_induction d with
  | last s hd =>
    rw [List.splitOn_eq_singleton hd, List.mem_singleton] at hp
    rwa [hp]
  | cons q s hq ih =>
    rw [List.splitOn_append_cons_self_of_not_mem hq, List.mem_cons] at hp
    rcases hp with rfl | hp
    · exact hq
    · exact ih hp

theorem length_splitOn (s : List α) (d : α) : (s.splitOn d).length = s.count d + 1 := by
  induction s using parts_induction d with
  | last s hd =>
    rw [List.splitOn_eq_singleton hd, List.length_singleton, List.count_eq_zero_of_not_mem hd]
  | cons q s hq ih =>
    rw [List.splitOn_append_cons_self_of_not_mem hq, List.length_cons, List.count_append,
      List.count_eq_zero_of_not_mem hq, List.count_cons_self, Nat.zero_add, ih]

/-- **The parts are determined.** Any non-empty list of parts without separators that joins to a
list is what the list is cut into. -/
theorem eq_splitOn_iff {s : List α} {d : α} {ps : List (List α)} :
    ps = s.splitOn d ↔ ps ≠ [] ∧ (∀ p ∈ ps, d ∉ p) ∧ [d].intercalate ps = s := by
  constructor
  · rintro rfl
    exact ⟨List.splitOn_ne_nil d s, fun p ↦ notMem_of_mem_splitOn, List.intercalate_splitOn d⟩
  · rintro ⟨hne, hfree, rfl⟩
    rw [List.splitOn_intercalate d hfree hne]

end Parts
