import Mathlib

/-!
# Probes: adaptive reads of a store

A `Probe ι β α` is a finite decision tree that reads cells of a store `ι → β`, may choose each
address from the contents read so far, and returns an `α`. Running it against a store gives a value
(`run`) and the addresses it visited, in order (`reads`).

Both are functions of the tree, so every probe satisfies a frame rule by construction: changing the
store at addresses that were not visited changes neither the value nor the visit (`run_congr`,
`reads_congr`). Bounds on the visited addresses are stated with `ReadsIn`, whose rules follow the
shape of the program.
-/

universe u v w

/-- A finite adaptive reader of cells of type `β` addressed by `ι`. -/
inductive Probe (ι : Type u) (β : Type v) (α : Type w) where
  /-- Stop with a value. -/
  | pure (a : α)
  /-- Read one cell and continue with its contents. -/
  | read (i : ι) (k : β → Probe ι β α)

namespace Probe

variable {ι : Type u} {β : Type v} {α α' : Type w}

/-- Sequencing. -/
def bind : Probe ι β α → (α → Probe ι β α') → Probe ι β α'
  | .pure a, f => f a
  | .read i k, f => .read i fun b ↦ (k b).bind f

instance : Monad (Probe ι β) where
  pure := .pure
  bind := .bind

theorem bind_def (p : Probe ι β α) (f : α → Probe ι β α') : (p >>= f) = p.bind f := rfl

private theorem map_id_probe (p : Probe ι β α) : id <$> p = p := by
  induction p with
  | pure a => rfl
  | read i k ih => exact congrArg (Probe.read i) (funext ih)

private theorem bind_assoc_probe {α'' : Type w} (p : Probe ι β α) (f : α → Probe ι β α')
    (g : α' → Probe ι β α'') : p >>= f >>= g = p >>= fun a ↦ f a >>= g := by
  induction p with
  | pure a => rfl
  | read i k ih => exact congrArg (Probe.read i) (funext ih)

instance : LawfulMonad (Probe ι β) :=
  LawfulMonad.mk' (Probe ι β) map_id_probe (fun _ _ ↦ rfl) bind_assoc_probe

/-- Read one cell. -/
def cell {β : Type w} (i : ι) : Probe ι β β := .read i .pure

/-! ## Running a probe -/

/-- The value a probe returns on a store. -/
def run : Probe ι β α → (ι → β) → α
  | .pure a, _ => a
  | .read i k, m => (k (m i)).run m

/-- The addresses a probe visits on a store, in order. -/
def reads : Probe ι β α → (ι → β) → List ι
  | .pure _, _ => []
  | .read i k, m => i :: (k (m i)).reads m

@[simp] theorem run_pure (a : α) (m : ι → β) : (Pure.pure a : Probe ι β α).run m = a := rfl

@[simp] theorem reads_pure (a : α) (m : ι → β) : (Pure.pure a : Probe ι β α).reads m = [] := rfl

@[simp] theorem run_cell {β : Type w} (i : ι) (m : ι → β) : (cell i).run m = m i := rfl

@[simp] theorem reads_cell {β : Type w} (i : ι) (m : ι → β) : (cell i).reads m = [i] := rfl

@[simp] theorem run_bind (p : Probe ι β α) (f : α → Probe ι β α') (m : ι → β) :
    (p >>= f).run m = (f (p.run m)).run m := by
  rw [bind_def]
  induction p with
  | pure a => rfl
  | read i k ih => exact ih (m i)

@[simp] theorem reads_bind (p : Probe ι β α) (f : α → Probe ι β α') (m : ι → β) :
    (p >>= f).reads m = p.reads m ++ (f (p.run m)).reads m := by
  rw [bind_def]
  induction p with
  | pure a => rfl
  | read i k ih => exact congrArg (i :: ·) (ih (m i))

@[simp] theorem run_map {α α' : Type w} (f : α → α') (p : Probe ι β α) (m : ι → β) :
    (f <$> p).run m = f (p.run m) := by
  rw [← bind_pure_comp, run_bind, run_pure]

@[simp] theorem reads_map {α α' : Type w} (f : α → α') (p : Probe ι β α) (m : ι → β) :
    (f <$> p).reads m = p.reads m := by
  rw [← bind_pure_comp, reads_bind, reads_pure, List.append_nil]

@[simp] theorem run_ite (c : Prop) [Decidable c] (p q : Probe ι β α) (m : ι → β) :
    (if c then p else q).run m = if c then p.run m else q.run m := by
  split <;> rfl

@[simp] theorem run_dite (c : Prop) [Decidable c] (p : c → Probe ι β α) (q : ¬c → Probe ι β α)
    (m : ι → β) :
    (if h : c then p h else q h).run m = if h : c then (p h).run m else (q h).run m := by
  split <;> rfl

@[simp] theorem run_mapM {γ : Type*} (f : γ → Probe ι β α) (l : List γ) (m : ι → β) :
    (l.mapM f).run m = l.map fun x ↦ (f x).run m := by
  induction l with
  | nil => rfl
  | cons x l ih => rw [List.mapM_cons, run_bind, run_bind, run_pure, ih, List.map_cons]

@[simp] theorem reads_mapM {γ : Type*} (f : γ → Probe ι β α) (l : List γ) (m : ι → β) :
    (l.mapM f).reads m = l.flatMap fun x ↦ (f x).reads m := by
  induction l with
  | nil => rfl
  | cons x l ih =>
    rw [List.mapM_cons, reads_bind, reads_bind, reads_pure, List.append_nil, ih, List.flatMap_cons]

/-! ## The frame rule -/

/-- **The frame rule.** Stores that agree on the cells visited in the first give the same value and
the same visit. -/
theorem run_reads_congr (p : Probe ι β α) {m m' : ι → β} (h : ∀ i ∈ p.reads m, m i = m' i) :
    p.run m = p.run m' ∧ p.reads m = p.reads m' := by
  induction p with
  | pure a => exact ⟨rfl, rfl⟩
  | read i k ih =>
    have hi : m i = m' i := h i List.mem_cons_self
    obtain ⟨hrun, hreads⟩ := ih (m i) fun j hj ↦ h j (List.mem_cons_of_mem i hj)
    rw [run, run, reads, reads, ← hi, hrun, hreads]
    exact ⟨rfl, rfl⟩

theorem run_congr (p : Probe ι β α) {m m' : ι → β} (h : ∀ i ∈ p.reads m, m i = m' i) :
    p.run m = p.run m' := (p.run_reads_congr h).1

theorem reads_congr (p : Probe ι β α) {m m' : ι → β} (h : ∀ i ∈ p.reads m, m i = m' i) :
    p.reads m = p.reads m' := (p.run_reads_congr h).2

/-! ## Where a probe reads -/

/-- Every cell visited on `m` satisfies `P`. -/
def ReadsIn (P : ι → Prop) (p : Probe ι β α) (m : ι → β) : Prop := ∀ i ∈ p.reads m, P i

variable {P : ι → Prop}

@[simp] theorem readsIn_pure (a : α) (m : ι → β) : ReadsIn P (Pure.pure a : Probe ι β α) m := by
  simp [ReadsIn]

@[simp] theorem readsIn_cell {β : Type w} (i : ι) (m : ι → β) : ReadsIn P (cell i) m ↔ P i := by
  simp [ReadsIn]

@[simp] theorem readsIn_bind (p : Probe ι β α) (f : α → Probe ι β α') (m : ι → β) :
    ReadsIn P (p >>= f) m ↔ ReadsIn P p m ∧ ReadsIn P (f (p.run m)) m := by
  simp only [ReadsIn, reads_bind, List.mem_append, or_imp, forall_and]

@[simp] theorem readsIn_map {α α' : Type w} (f : α → α') (p : Probe ι β α) (m : ι → β) :
    ReadsIn P (f <$> p) m ↔ ReadsIn P p m := by
  rw [ReadsIn, reads_map, ReadsIn]

@[simp] theorem readsIn_ite (c : Prop) [Decidable c] (p q : Probe ι β α) (m : ι → β) :
    ReadsIn P (if c then p else q) m ↔ if c then ReadsIn P p m else ReadsIn P q m := by
  split <;> rfl

@[simp] theorem readsIn_dite (c : Prop) [Decidable c] (p : c → Probe ι β α)
    (q : ¬c → Probe ι β α) (m : ι → β) :
    ReadsIn P (if h : c then p h else q h) m ↔
      if h : c then ReadsIn P (p h) m else ReadsIn P (q h) m := by
  split <;> rfl

@[simp] theorem readsIn_mapM {γ : Type*} (f : γ → Probe ι β α) (l : List γ) (m : ι → β) :
    ReadsIn P (l.mapM f) m ↔ ∀ x ∈ l, ReadsIn P (f x) m := by
  simp only [ReadsIn, reads_mapM, List.mem_flatMap]
  exact ⟨fun h x hx i hi ↦ h i ⟨x, hx, hi⟩, fun h i ⟨x, hx, hi⟩ ↦ h x hx i hi⟩

/-- The value of a probe that stays inside `P` depends only on the part of the store inside `P`. -/
theorem ReadsIn.run_congr {p : Probe ι β α} {m m' : ι → β} (h : ReadsIn P p m)
    (hm : ∀ i, P i → m i = m' i) : p.run m = p.run m' :=
  p.run_congr fun i hi ↦ hm i (h i hi)

/-- Staying inside `P` also depends only on the part of the store inside `P`. -/
theorem ReadsIn.congr {p : Probe ι β α} {m m' : ι → β} (h : ReadsIn P p m)
    (hm : ∀ i, P i → m i = m' i) : ReadsIn P p m' := by
  rw [ReadsIn, ← p.reads_congr fun i hi ↦ hm i (h i hi)]
  exact h

end Probe
