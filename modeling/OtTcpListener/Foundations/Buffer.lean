import OtTcpListener.Foundations.Probe

/-!
# Buffers inside an address space

A finite buffer sits at the start of an infinite address space whose remaining cells hold whatever
they hold: `buffer xs beyond` is the list `xs` followed by the cells of `beyond`. A program that
stays inside the buffer cannot tell two fillings of the rest apart.

`copy` is the loop that reads `n` consecutive cells.
-/

universe u

namespace Probe

variable {β : Type u}

/-- The cells of `xs`, and past its end the cells of `beyond`. -/
def buffer (xs : List β) (beyond : ℕ → β) : ℕ → β := fun i ↦ xs.getD i (beyond i)

theorem buffer_of_lt {xs : List β} {i : ℕ} (h : i < xs.length) (beyond : ℕ → β) :
    buffer xs beyond i = xs[i] := List.getD_eq_getElem _ _ h

@[simp] theorem buffer_cons_succ (x : β) (xs : List β) (beyond : ℕ → β) (i : ℕ) :
    buffer (x :: xs) beyond (i + 1) = buffer xs (fun i ↦ beyond (i + 1)) i := rfl

theorem buffer_append_add (xs ys : List β) (beyond : ℕ → β) (i : ℕ) :
    buffer (xs ++ ys) beyond (xs.length + i) = buffer ys (fun i ↦ beyond (xs.length + i)) i := by
  rw [buffer, buffer, List.getD_append_right _ _ _ _ (Nat.le_add_right _ _),
    Nat.add_sub_cancel_left]

/-! ## Copying a range -/

/-- Read `n` consecutive cells from `offset` on. -/
def copy (offset n : ℕ) : Probe ℕ β (List β) := (List.range n).mapM fun i ↦ cell (offset + i)

@[simp] theorem run_copy (offset n : ℕ) (m : ℕ → β) :
    (copy offset n).run m = (List.range n).map fun i ↦ m (offset + i) := by
  rw [copy, run_mapM]
  rfl

@[simp] theorem readsIn_copy {P : ℕ → Prop} (offset n : ℕ) (m : ℕ → β) :
    ReadsIn P (copy offset n) m ↔ ∀ i < n, P (offset + i) := by
  simp [copy]

/-- Copying a range that lies inside a buffer gives the slice. An empty range may start anywhere. -/
theorem run_copy_buffer {xs : List β} {offset n : ℕ} (h : 0 < n → offset + n ≤ xs.length)
    (beyond : ℕ → β) :
    (copy offset n).run (buffer xs beyond) = (xs.drop offset).take n := by
  rw [run_copy]
  refine List.ext_getElem ?_ fun i hi _ ↦ ?_
  · rw [List.length_map, List.length_range, List.length_take, List.length_drop]
    omega
  · rw [List.length_map, List.length_range] at hi
    have := h (by omega)
    rw [List.getElem_map, List.getElem_range, List.getElem_take, List.getElem_drop,
      buffer_of_lt (by omega)]

end Probe
