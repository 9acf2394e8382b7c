import Mathlib

/-!
# Runs and their histories

A machine that takes one event after the other reaches a state that the finite list of its events
determines. What such a state satisfies often depends on the order of the events: on whether
something happened and has not been undone since. `Since` is the past-time operator that says so.

## Proving a history property

`foldl_invariant` reduces a relation between history and state to one event, appended at the end of
the history. On the side of the history the recurrence is `since_concat`: an occurrence is either
the last event, or an earlier one that the last event leaves standing.
-/

universe u v

namespace History

variable {α : Type u} {σ : Type v}

/-- A relation between history and state that holds at the start and is kept by every event holds
after every run. -/
theorem foldl_invariant {step : σ → α → σ} {init : σ} {Inv : List α → σ → Prop}
    (hinit : Inv [] init)
    (hstep : ∀ history s a, Inv history s → Inv (history ++ [a]) (step s a)) (history : List α) :
    Inv history (history.foldl step init) := by
  induction history using List.reverseRecOn with
  | nil => exact hinit
  | append_singleton history a ih =>
    rw [List.foldl_append, List.foldl_cons, List.foldl_nil]
    exact hstep history _ a ih

/-- Some event was an `occurs`, given what came before it, and all later ones satisfy `hold`. -/
def Since (hold : α → Prop) (occurs : List α → α → Prop) (history : List α) : Prop :=
  ∃ before a after, history = before ++ a :: after ∧ occurs before a ∧ ∀ b ∈ after, hold b

variable {hold : α → Prop} {occurs : List α → α → Prop}

theorem not_since_nil : ¬Since hold occurs [] := by
  rintro ⟨before, a, after, h, -⟩
  cases before <;> cases h

/-- **The recurrence.** Either the last event is an occurrence, or it leaves one standing. -/
theorem since_concat {history : List α} {b : α} :
    Since hold occurs (history ++ [b]) ↔ occurs history b ∨ hold b ∧ Since hold occurs history := by
  constructor
  · rintro ⟨before, a, after, h, hoccurs, hafter⟩
    rcases List.eq_nil_or_concat after with rfl | ⟨after, c, rfl⟩
    · obtain ⟨rfl, heq⟩ := List.append_inj' h rfl
      obtain rfl := (List.cons.inj heq).1
      exact .inl hoccurs
    · rw [List.concat_eq_append, ← List.cons_append, ← List.append_assoc] at h
      obtain ⟨rfl, heq⟩ := List.append_inj' h rfl
      obtain rfl := (List.cons.inj heq).1
      refine .inr ⟨hafter _ (by simp), before, a, after, rfl, hoccurs, fun d hd ↦ hafter d ?_⟩
      rw [List.concat_eq_append]
      exact List.mem_append_left _ hd
  · rintro (hoccurs | ⟨hb, before, a, after, rfl, hoccurs, hafter⟩)
    · exact ⟨history, b, [], rfl, hoccurs, fun _ h ↦ absurd h List.not_mem_nil⟩
    · refine ⟨before, a, after ++ [b], ?_, hoccurs, fun c hc ↦ ?_⟩
      · rw [List.append_assoc, List.cons_append]
      · rcases List.mem_append.mp hc with hc | hc
        · exact hafter c hc
        · rw [List.mem_singleton.mp hc]
          exact hb

end History
