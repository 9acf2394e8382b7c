import Mathlib.Data.List.Basic

/-!
# Loops that throw

A loop over a list can end at an element, by returning or by an exception. `mapM_eq_ok_iff` is about
the loop that goes to the end and gathers what it computes. `Reaches` is for the loop that looks
for an element to return at: such an element is there, and nothing before it has ended the loop.
-/

universe u v

namespace Throwing

variable {ε : Type u} {α β : Type v}

@[simp] theorem ok_bind (x : α) (f : α → Except ε β) : (Except.ok x >>= f) = f x := rfl

@[simp] theorem error_bind (e : ε) (f : α → Except ε β) :
    (Except.error e >>= f) = Except.error e := rfl

/-- A loop over a list throws unless no step throws, and then gathers what the steps return. -/
theorem mapM_eq_ok_iff {f : α → Except ε β} {l : List α} {ys : List β} :
    l.mapM f = .ok ys ↔ l.map f = ys.map .ok := by
  induction l generalizing ys with
  | nil =>
    cases ys with
    | nil => exact iff_of_true rfl rfl
    | cons y ys => exact iff_of_false (fun h ↦ by cases h) fun h ↦ by cases h
  | cons x l ih =>
    rw [List.mapM_cons, List.map_cons]
    cases ys with
    | nil =>
      refine iff_of_false (fun h ↦ ?_) (List.cons_ne_nil _ _)
      cases hx : f x <;> cases hl : l.mapM f <;> rw [hx, hl] at h <;> cases h
    | cons y ys =>
      rw [List.map_cons, List.cons.injEq, ← ih]
      cases f x with
      | error e => exact iff_of_false (fun h ↦ by cases h) fun h ↦ by cases h.1
      | ok y' =>
        cases l.mapM f with
        | error e => exact iff_of_false (fun h ↦ by cases h) fun h ↦ by cases h.2
        | ok ys' =>
          change Except.ok (y' :: ys') = Except.ok (y :: ys) ↔ _
          simp only [Except.ok.injEq, List.cons.injEq]

/-! ## The element at which a loop returns -/

/-- Some member of a list has `Q`, and all before it have `P`. -/
def Reaches (P Q : α → Prop) (l : List α) : Prop :=
  ∃ front x back, l = front ++ x :: back ∧ (∀ y ∈ front, P y) ∧ Q x

variable {P Q : α → Prop}

theorem not_reaches_nil : ¬Reaches P Q [] := by
  rintro ⟨front, x, back, h, -⟩
  exact List.append_ne_nil_of_right_ne_nil front (List.cons_ne_nil x back) h.symm

theorem reaches_cons_iff {x : α} {l : List α} :
    Reaches P Q (x :: l) ↔ Q x ∨ P x ∧ Reaches P Q l := by
  constructor
  · rintro ⟨front, y, back, h, hfront, hy⟩
    cases front with
    | nil =>
      rw [List.nil_append, List.cons.injEq] at h
      exact .inl (h.1 ▸ hy)
    | cons z front =>
      rw [List.cons_append, List.cons.injEq] at h
      rw [List.forall_mem_cons, ← h.1] at hfront
      exact .inr ⟨hfront.1, front, y, back, h.2, hfront.2, hy⟩
  · rintro (hx | ⟨hx, front, y, back, rfl, hfront, hy⟩)
    · exact ⟨[], x, l, rfl, fun _ h ↦ absurd h List.not_mem_nil, hx⟩
    · exact ⟨x :: front, y, back, rfl, List.forall_mem_cons.mpr ⟨hx, hfront⟩, hy⟩

/-- Only what the two properties say of the members matters. -/
theorem reaches_congr {P' Q' : α → Prop} {l : List α} (hP : ∀ x ∈ l, P x ↔ P' x)
    (hQ : ∀ x ∈ l, Q x ↔ Q' x) : Reaches P Q l ↔ Reaches P' Q' l := by
  induction l with
  | nil => exact iff_of_false not_reaches_nil not_reaches_nil
  | cons x l ih =>
    rw [List.forall_mem_cons] at hP hQ
    rw [reaches_cons_iff, reaches_cons_iff, hP.1, hQ.1, ih hP.2 hQ.2]

end Throwing
