import Mathlib

/-!
# Machines that run down

A deterministic machine whose every step lowers a natural number stops. `trace` lists the states it
goes through; consecutive ones are related by a step (`isChain_trace`). When every step lowers the
number by a fixed amount at least, and the number stays positive, there are proportionally few
states (`mul_length_trace_lt`).

`trace_induction` is the rule for properties of the states from which the machine runs: they hold of
those at which it stops, and are carried back over a step.
-/

universe u

/-- A machine whose every step lowers a measure. -/
structure Descent (α : Type u) where
  /-- The next state, if there is one. -/
  next : α → Option α
  measure : α → ℕ
  next_lt : ∀ {a b : α}, next a = some b → measure b < measure a

namespace Descent

variable {α : Type u} (D : Descent α)

/-- The states from `a` on. -/
def trace (a : α) : List α :=
  match _h : D.next a with
  | none => [a]
  | some b => a :: trace b
termination_by D.measure a
decreasing_by exact D.next_lt _h

variable {D}

theorem trace_of_none {a : α} (h : D.next a = none) : D.trace a = [a] := by
  rw [trace]
  split
  · rfl
  · next b hb => exact absurd (h.symm.trans hb) (by simp)

theorem trace_of_some {a b : α} (h : D.next a = some b) : D.trace a = a :: D.trace b := by
  rw [trace]
  split
  · next hnone => exact absurd (hnone.symm.trans h) (by simp)
  · next b' hb' => rw [Option.some.inj (hb'.symm.trans h)]

/-- Induction along a run, from its end. -/
theorem trace_induction (D : Descent α) {motive : α → Prop}
    (last : ∀ a, D.next a = none → motive a)
    (step : ∀ a b, D.next a = some b → motive b → motive a) (a : α) : motive a := by
  induction h : D.measure a using Nat.strong_induction_on generalizing a with
  | _ n ih =>
    subst h
    cases hnext : D.next a with
    | none => exact last a hnext
    | some b => exact step a b hnext (ih _ (D.next_lt hnext) b rfl)

theorem head?_trace (a : α) : (D.trace a).head? = some a := by
  cases h : D.next a with
  | none => rw [trace_of_none h, List.head?_cons]
  | some b => rw [trace_of_some h, List.head?_cons]

/-- Consecutive states are related by a step. -/
theorem isChain_trace (a : α) : (D.trace a).IsChain fun a b ↦ D.next a = some b := by
  induction a using trace_induction D with
  | last a h =>
    rw [trace_of_none h]
    exact .singleton a
  | step a b h ih =>
    rw [trace_of_some h]
    refine List.isChain_cons.mpr ⟨fun c hc ↦ ?_, ih⟩
    rw [head?_trace, Option.mem_some_iff] at hc
    rw [h, hc]

/-- Big steps make a short run. -/
theorem mul_length_trace_lt {k : ℕ} (hpos : ∀ a, 0 < D.measure a)
    (hstep : ∀ a b, D.next a = some b → D.measure b + k ≤ D.measure a) (a : α) :
    k * (D.trace a).length < D.measure a + k := by
  induction a using trace_induction D with
  | last a h =>
    rw [trace_of_none h, List.length_singleton, Nat.mul_one]
    exact Nat.lt_add_of_pos_left (hpos a)
  | step a b h ih =>
    rw [trace_of_some h, List.length_cons, Nat.mul_succ]
    exact Nat.add_lt_add_right (ih.trans_le (hstep a b h)) k

end Descent
