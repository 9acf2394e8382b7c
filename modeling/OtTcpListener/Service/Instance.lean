import Mathlib

/-!
# One service at a time

A service that starts asks the one that may be running whether it is alive (`start`). If no answer
comes, a new process is spawned. That removes whatever is at the path of the control socket, binds
its own socket there and listens (`setPath`). A service that ends closes its socket first and
removes the path then (`close`), whoever has bound it meanwhile.

Nothing locks any of this. As long as no start and no end of a service overlap, there is at most one
service, and it is the one at the path (`single_instance`). Two overlapping starts give two
services, and a start that overlaps with the end of a service may give one without a path. Such a
service cannot be reached any more, whatever comes (`lost_forever`).
-/

namespace OtTcpListener

namespace Service

/-! ## Processes -/

/-- What a process is doing about the control socket. -/
inductive Phase where
  | absent
  /-- In `start`, connected to a service, which has not answered yet. -/
  | asking (q : ℕ)
  /-- The detached process, before `setPath`. -/
  | spawned
  /-- In `setPath`, behind `unlink`. -/
  | unlinked
  /-- In `setPath`, behind `bind`. -/
  | bound
  /-- In the event loop, listening. -/
  | running
  /-- In the event loop, with no socket: `bind` has failed, and nobody is told. -/
  | silent
  /-- Out of the event loop. -/
  | quitting
  /-- In `close`, behind `QTcpServer::close`. -/
  | closed
  | ended
  deriving DecidableEq

namespace Phase

/-- Connections to a process are accepted. -/
def listens : Phase → Bool
  | .running | .quitting => true
  | _ => false

/-- A start or an end of a service is under way. -/
def busy : Phase → Bool
  | .asking _ | .spawned | .unlinked | .bound | .quitting | .closed => true
  | _ => false

/-- A phase in which no service is running. -/
def alone : Phase → Bool
  | .spawned | .unlinked | .bound | .quitting | .closed => true
  | _ => false

/-- What the phase of a process says about the path. -/
def Holds (path : Option ℕ) (p : ℕ) : Phase → Prop
  | .asking q => path = some q
  | .unlinked => path = none
  | .bound | .running => path = some p
  | .silent => False
  | _ => True

/-- Behind `bind`. -/
def past : Phase → Bool
  | .running | .silent | .quitting | .closed | .ended => true
  | _ => false

theorem busy_of_alone {phase : Phase} (h : phase.alone = true) : phase.busy = true := by
  cases phase <;> first | rfl | cases h

end Phase

/-- The processes, and the one whose socket is at the path. -/
structure Processes where
  phase : ℕ → Phase
  path : Option ℕ

namespace Processes

/-- Before the first start. -/
def init : Processes := ⟨fun _ ↦ .absent, none⟩

/-- A step of the process `p`. -/
inductive Event where
  /-- `connectTo` in `start`. -/
  | connectTo (p : ℕ)
  /-- `start` is answered, or its connection is closed. -/
  | reply (p : ℕ)
  /-- `unlink`, in `setPath` or in `close`. -/
  | unlink (p : ℕ)
  | bind (p : ℕ)
  | listen (p : ℕ)
  /-- The event loop ends. -/
  | quit (p : ℕ)
  /-- `QTcpServer::close`. -/
  | close (p : ℕ)
  /-- A signal. What is at the path stays there. -/
  | kill (p : ℕ)
  deriving DecidableEq

variable (s : Processes)

/-- One process goes on to another phase. -/
def setPhase (p : ℕ) (phase : Phase) : Processes :=
  { s with phase := Function.update s.phase p phase }

/-- A step. An event that is not possible changes nothing. -/
def step : Event → Processes
  | .connectTo p =>
    match s.phase p, s.path with
    | .absent, some q => s.setPhase p (if (s.phase q).listens then .asking q else .spawned)
    | .absent, none => s.setPhase p .spawned
    | _, _ => s
  | .reply p =>
    match s.phase p with
    | .asking q =>
      match s.phase q with
      | .running => s.setPhase p .absent
      -- accepted by the system, but no slot runs any more
      | .quitting => s
      | _ => s.setPhase p .spawned
    | _ => s
  | .unlink p =>
    match s.phase p with
    | .spawned => { s.setPhase p .unlinked with path := none }
    | .closed => { s.setPhase p .ended with path := none }
    | _ => s
  | .bind p =>
    match s.phase p, s.path with
    | .unlinked, none => { s.setPhase p .bound with path := some p }
    | .unlinked, some _ => s.setPhase p .silent
    | _, _ => s
  | .listen p => if s.phase p = .bound then s.setPhase p .running else s
  | .quit p =>
    match s.phase p with
    | .running => s.setPhase p .quitting
    | .silent => s.setPhase p .ended
    | _ => s
  | .close p => if s.phase p = .quitting then s.setPhase p .closed else s
  | .kill p => if s.phase p = .absent then s else s.setPhase p .ended

/-- A run. -/
def run (events : List Event) : Processes := events.foldl step init

/-! ## Starts and ends that do not overlap -/

/-- A start or an end of a service begins. -/
def Event.begins : Event → Bool
  | .connectTo _ | .quit _ => true
  | _ => false

/-- Nothing is under way. -/
def Quiet (s : Processes) : Prop := ∀ p, (s.phase p).busy = false

/-- From a state on, nothing begins while something else is under way. -/
def Serialized : Processes → List Event → Prop
  | _, [] => True
  | s, e :: events => (e.begins = true → s.Quiet) ∧ Serialized (s.step e) events

/-- What holds as long as nothing overlaps. -/
structure Inv (s : Processes) : Prop where
  holds : ∀ p, (s.phase p).Holds s.path p
  alone : ∀ p q, (s.phase p).alone = true → s.phase q ≠ .running
  single : ∀ p q, (s.phase p).busy = true → (s.phase q).busy = true → p = q

variable {s : Processes}

theorem Inv.holds_of (h : s.Inv) {p : ℕ} {phase : Phase} (hp : s.phase p = phase) :
    phase.Holds s.path p := hp ▸ h.holds p

theorem Inv.path_of_running (h : s.Inv) {p : ℕ} (hp : s.phase p = .running) : s.path = some p :=
  h.holds_of hp

theorem Inv.others (h : s.Inv) {p : ℕ} (hp : (s.phase p).busy = true) (q : ℕ) (hq : q ≠ p) :
    (s.phase q).busy = false :=
  Bool.eq_false_iff.mpr fun hbusy ↦ hq (h.single q p hbusy hp)

/-- The process that is busy goes on, or one becomes busy while nothing is under way. -/
theorem Inv.update (h : s.Inv) {p : ℕ} {phase : Phase} {path : Option ℕ}
    (hothers : ∀ q ≠ p, (s.phase q).busy = false) (hholds : phase.Holds path p)
    (hrunning : ∀ q ≠ p, s.phase q = .running → path = some q ∧ phase.alone = false) :
    Inv ⟨Function.update s.phase p phase, path⟩ := by
  have hself : Function.update s.phase p phase p = phase := Function.update_self ..
  have hother {q : ℕ} (hq : q ≠ p) : Function.update s.phase p phase q = s.phase q :=
    Function.update_of_ne hq ..
  have hbusy {q : ℕ} (hq : (Function.update s.phase p phase q).busy = true) : q = p := by
    by_contra hne
    rw [hother hne, hothers q hne] at hq
    cases hq
  refine ⟨fun q ↦ ?_, fun q r hq hr ↦ ?_, fun q r hq hr ↦ (hbusy hq).trans (hbusy hr).symm⟩
  · dsimp only
    by_cases hq : q = p
    · rw [hq, hself]
      exact hholds
    · have hold := h.holds q
      have hidle := hothers q hq
      rw [hother hq]
      cases hphase : s.phase q with
      | running => exact (hrunning q hq hphase).1
      | silent => rwa [hphase] at hold
      | absent | ended => trivial
      | asking | spawned | unlinked | bound | quitting | closed =>
        rw [hphase] at hidle
        cases hidle
  · obtain rfl := hbusy (Phase.busy_of_alone hq)
    dsimp only at hq hr
    by_cases hrq : r = q
    · rw [hself] at hq
      rw [hrq, hself] at hr
      rw [hr] at hq
      cases hq
    · rw [hother hrq] at hr
      rw [hself] at hq
      cases hq.symm.trans (hrunning r hrq hr).2

/-- A signal may come at any time. -/
theorem Inv.kill (h : s.Inv) (p : ℕ) : (s.setPhase p .ended).Inv := by
  have hcases (q : ℕ) : (s.setPhase p .ended).phase q = .ended ∨
      (s.setPhase p .ended).phase q = s.phase q := by
    by_cases hq : q = p
    · exact .inl (hq ▸ Function.update_self ..)
    · exact .inr (Function.update_of_ne hq ..)
  refine ⟨fun q ↦ ?_, fun q r hq hr ↦ ?_, fun q r hq hr ↦ ?_⟩
  · rcases hcases q with hended | hsame
    · rw [hended]
      trivial
    · rw [hsame]
      exact h.holds q
  · rcases hcases q with hended | hsame
    · rw [hended] at hq
      cases hq
    · rcases hcases r with hended' | hsame'
      · cases hended'.symm.trans hr
      · exact h.alone q r (hsame ▸ hq) (hsame' ▸ hr)
  · rcases hcases q with hended | hsame
    · rw [hended] at hq
      cases hq
    · rcases hcases r with hended' | hsame'
      · rw [hended'] at hr
        cases hr
      · exact h.single q r (hsame ▸ hq) (hsame' ▸ hr)

/-- The process that is busy goes on to another phase in which no service is running. -/
theorem Inv.update_alone (h : s.Inv) {p : ℕ} {phase : Phase} {path : Option ℕ}
    (hp : (s.phase p).alone = true) (hholds : phase.Holds path p) :
    Inv ⟨Function.update s.phase p phase, path⟩ :=
  h.update (h.others (Phase.busy_of_alone hp)) hholds fun q _ hq ↦ absurd hq (h.alone p q hp)

theorem Inv.connectTo (h : s.Inv) (hquiet : s.Quiet) (p : ℕ) : (s.step (.connectTo p)).Inv := by
  have hothers (q : ℕ) (_ : q ≠ p) : (s.phase q).busy = false := hquiet q
  rw [Processes.step]
  split
  · next q _ hpath =>
    by_cases hlistens : (s.phase q).listens = true
    · rw [if_pos hlistens]
      exact h.update hothers hpath fun r _ hr ↦ ⟨h.path_of_running hr, rfl⟩
    · -- a service that is running is at the path, and listens there
      rw [if_neg hlistens]
      refine h.update hothers trivial fun r _ hr ↦ absurd ?_ hlistens
      obtain rfl := Option.some.inj ((h.path_of_running hr).symm.trans hpath)
      rw [hr]
      rfl
  · next hpath =>
    refine h.update hothers trivial fun r _ hr ↦ ?_
    cases hpath.symm.trans (h.path_of_running hr)
  · exact h

theorem Inv.reply (h : s.Inv) (p : ℕ) : (s.step (.reply p)).Inv := by
  rw [Processes.step]
  split
  · next q hp =>
    have hothers := h.others (p := p) (by rw [hp]; rfl)
    have hpath : s.path = some q := h.holds_of hp
    split
    · exact h.update hothers trivial fun r _ hr ↦ ⟨h.path_of_running hr, rfl⟩
    · exact h
    · -- no service is running, since it would be the one that was asked
      next hq _ =>
      refine h.update hothers trivial fun r _ hr ↦ absurd ?_ hq
      rwa [Option.some.inj (hpath.symm.trans (h.path_of_running hr))]
  · exact h

theorem Inv.step (h : s.Inv) {e : Event} (he : e.begins = true → s.Quiet) : (s.step e).Inv := by
  cases e with
  | connectTo p => exact h.connectTo (he rfl) p
  | reply p => exact h.reply p
  | unlink p =>
    rw [Processes.step]
    split
    · next hp => exact h.update_alone (by rw [hp]; rfl) rfl
    · next hp => exact h.update_alone (by rw [hp]; rfl) trivial
    · exact h
  | bind p =>
    rw [Processes.step]
    split
    · next hp _ => exact h.update_alone (by rw [hp]; rfl) rfl
    · next hp hpath => cases (h.holds_of hp).symm.trans hpath
    · exact h
  | listen p =>
    rw [Processes.step]
    split
    · next hp =>
      have hpath := h.holds_of hp
      exact h.update_alone (by rw [hp]; rfl) hpath
    · exact h
  | quit p =>
    rw [Processes.step]
    split
    · next hp =>
      refine h.update (fun q _ ↦ he rfl q) trivial fun q hq hrunning ↦ ?_
      have hsame := (h.path_of_running hp).symm.trans (h.path_of_running hrunning)
      exact absurd (Option.some.inj hsame).symm hq
    · next hp => exact (h.holds_of hp).elim
    · exact h
  | close p =>
    rw [Processes.step]
    split
    · next hp => exact h.update_alone (by rw [hp]; rfl) trivial
    · exact h
  | kill p =>
    rw [Processes.step]
    split
    · exact h
    · exact h.kill p

theorem inv_init : Inv init where
  holds _ := trivial
  alone _ _ h := by cases h
  single _ _ h := by cases h

theorem Inv.foldl (h : s.Inv) {events : List Event} (hs : Serialized s events) :
    (events.foldl Processes.step s).Inv := by
  induction events generalizing s with
  | nil => exact h
  | cons e events ih => exact ih (h.step hs.1) hs.2

/-- A start that finds a service gives up. -/
theorem Inv.start_running (h : s.Inv) {p q : ℕ} (hp : s.phase p = .absent)
    (hq : s.phase q = .running) : (s.step (.connectTo p)).step (.reply p) = s := by
  have hne : q ≠ p := by
    rintro rfl
    cases hp.symm.trans hq
  have hconnect : s.step (.connectTo p) = s.setPhase p (.asking q) := by
    rw [Processes.step, hp, h.path_of_running hq]
    dsimp only
    rw [hq]
    rfl
  have hasking : (s.setPhase p (.asking q)).phase p = .asking q := Function.update_self ..
  have hrunning : (s.setPhase p (.asking q)).phase q = .running :=
    (Function.update_of_ne hne ..).trans hq
  rw [hconnect, Processes.step, hasking]
  dsimp only
  rw [hrunning]
  dsimp only [setPhase]
  rw [Function.update_idem, ← hp, Function.update_eq_self]

/-- **One service at a time.** As long as no start and no end of a service overlap, no two services
run, none runs without a socket, the one that runs is at the path, and a start that finds it changes
nothing. -/
theorem single_instance {events : List Event} (h : Serialized init events) :
    (∀ p, (run events).phase p ≠ .silent) ∧
    ∀ p, (run events).phase p = .running → (run events).path = some p ∧
      (∀ q, (run events).phase q = .running → q = p) ∧
      ∀ q, (run events).phase q = .absent →
        run (events ++ [.connectTo q, .reply q]) = run events := by
  have hinv : (run events).Inv := inv_init.foldl h
  refine ⟨fun p hp ↦ ?_, fun p hp ↦ ⟨hinv.path_of_running hp, fun q hq ↦ ?_, fun q hq ↦ ?_⟩⟩
  · exact hinv.holds_of hp
  · exact Option.some.inj ((hinv.path_of_running hq).symm.trans (hinv.path_of_running hp))
  · rw [run, List.foldl_append]
    exact hinv.start_running hq hp

/-- A start, and another one that finds the service. -/
theorem single_instance_two :
    (run [.connectTo 0, .unlink 0, .bind 0, .listen 0, .connectTo 1, .reply 1]).path = some 0 := by
  have hserialized : Serialized init [.connectTo 0, .unlink 0, .bind 0, .listen 0, .connectTo 1,
      .reply 1] := by
    refine ⟨fun _ _ ↦ rfl, fun h ↦ ?_, fun h ↦ ?_, fun h ↦ ?_, fun _ p ↦ ?_, fun h ↦ ?_, trivial⟩
    · cases h
    · cases h
    · cases h
    · cases p <;> rfl
    · cases h
  exact ((single_instance hserialized).2 0 (by decide)).1

/-! ## A service that has lost its path -/

/-- What one process does in a step. -/
structure Move (s : Processes) (p : ℕ) (phase : Phase) (path : Option ℕ) : Prop where
  path_cases : path = s.path ∨ path = none ∨ path = some p ∧ s.phase p = .unlinked
  past : (s.phase p).past = true → phase.past = true
  asking : ∀ q, phase = .asking q → s.phase p = .asking q ∨ s.path = some q

/-- **One step**: one process moves. -/
theorem exists_move (s : Processes) (e : Event) :
    ∃ p phase path, s.step e = ⟨Function.update s.phase p phase, path⟩ ∧ Move s p phase path := by
  have hsame : ∃ p phase path, s = ⟨Function.update s.phase p phase, path⟩ ∧ Move s p phase path :=
    ⟨0, s.phase 0, s.path, by rw [Function.update_eq_self], .inl rfl, id, fun _ h ↦ .inl h⟩
  have hmove {p : ℕ} {phase : Phase} {path : Option ℕ}
      (hpath : path = s.path ∨ path = none ∨ path = some p ∧ s.phase p = .unlinked)
      (hpast : (s.phase p).past = false ∨ phase.past = true)
      (hasking : ∀ q, phase = .asking q → s.path = some q) :
      ∃ p' phase' path', (⟨Function.update s.phase p phase, path⟩ : Processes) =
        ⟨Function.update s.phase p' phase', path'⟩ ∧ Move s p' phase' path' := by
    refine ⟨p, phase, path, rfl, hpath, fun h ↦ ?_, fun q hq ↦ .inr (hasking q hq)⟩
    exact hpast.resolve_left (by rw [h]; exact Bool.noConfusion)
  cases e with
  | connectTo p =>
    rw [step]
    split
    · next q hp hpath =>
      refine hmove (.inl rfl) (.inl (by rw [hp]; rfl)) fun r hr ↦ ?_
      split at hr
      · rwa [← Phase.asking.inj hr]
      · cases hr
    · next hp _ => exact hmove (.inl rfl) (.inl (by rw [hp]; rfl)) nofun
    · exact hsame
  | reply p =>
    rw [step]
    split
    · next hp =>
      split
      · exact hmove (.inl rfl) (.inl (by rw [hp]; rfl)) nofun
      · exact hsame
      · exact hmove (.inl rfl) (.inl (by rw [hp]; rfl)) nofun
    · exact hsame
  | unlink p =>
    rw [step]
    split
    · next hp => exact hmove (.inr (.inl rfl)) (.inl (by rw [hp]; rfl)) nofun
    · exact hmove (.inr (.inl rfl)) (.inr rfl) nofun
    · exact hsame
  | bind p =>
    rw [step]
    split
    · next hp _ => exact hmove (.inr (.inr ⟨rfl, hp⟩)) (.inl (by rw [hp]; rfl)) nofun
    · exact hmove (.inl rfl) (.inr rfl) nofun
    · exact hsame
  | listen p | close p =>
    rw [step]
    split
    · exact hmove (.inl rfl) (.inr rfl) nofun
    · exact hsame
  | quit p =>
    rw [step]
    split
    · exact hmove (.inl rfl) (.inr rfl) nofun
    · exact hmove (.inl rfl) (.inr rfl) nofun
    · exact hsame
  | kill p =>
    rw [step]
    split
    · exact hsame
    · exact hmove (.inl rfl) (.inr rfl) nofun

/-- A process that is behind `bind` and not at the path. -/
def Lost (s : Processes) (p : ℕ) : Prop := (s.phase p).past = true ∧ s.path ≠ some p

/-- Nothing puts a process back, and no start connects to it. -/
theorem Lost.step {p : ℕ} (h : s.Lost p) (e : Event) :
    (s.step e).Lost p ∧ ∀ q, (s.step e).phase q = .asking p → s.phase q = .asking p := by
  obtain ⟨r, phase, path, hstep, hmove⟩ := s.exists_move e
  rw [hstep]
  refine ⟨⟨?_, fun hpath ↦ ?_⟩, fun q hq ↦ ?_⟩
  · dsimp only
    by_cases hr : p = r
    · subst hr
      rw [Function.update_self]
      exact hmove.past h.1
    · rw [Function.update_of_ne hr]
      exact h.1
  · rcases hmove.path_cases with hsame | hnone | ⟨hsome, hunlinked⟩
    · exact h.2 (hsame.symm.trans hpath)
    · cases hnone.symm.trans hpath
    · obtain rfl := Option.some.inj (hsome.symm.trans hpath)
      have hpast := h.1
      rw [hunlinked] at hpast
      cases hpast
  · dsimp only at hq
    by_cases hr : q = r
    · subst hr
      rw [Function.update_self] at hq
      exact (hmove.asking p hq).resolve_right h.2
    · rwa [Function.update_of_ne hr] at hq

/-- **Lost is lost.** In every run, a process that is behind `bind` and not at the path will never
be there again, and no start will connect to it. -/
theorem lost_forever {events : List Event} {p : ℕ} (h : (run events).Lost p)
    (later : List Event) :
    (run (events ++ later)).Lost p ∧
      ∀ q, (run (events ++ later)).phase q = .asking p → (run events).phase q = .asking p := by
  induction later using List.reverseRecOn with
  | nil =>
    rw [List.append_nil]
    exact ⟨h, fun _ hq ↦ hq⟩
  | append_singleton later e ih =>
    have hrun : run (events ++ (later ++ [e])) = (run (events ++ later)).step e := by
      rw [← List.append_assoc, run, List.foldl_append]
      rfl
    obtain ⟨hlost, hasking⟩ := ih.1.step e
    rw [hrun]
    exact ⟨hlost, fun q hq ↦ ih.2 q (hasking q hq)⟩

/-- Two starts overlap, and the second takes the path away. -/
theorem lost_forever_two :
    let events : List Event := [.connectTo 0, .connectTo 1, .unlink 0, .bind 0, .listen 0,
      .unlink 1, .bind 1, .listen 1]
    (run events).phase 0 = .running ∧ (run (events ++ [.quit 1, .close 1, .unlink 1])).Lost 0 := by
  intro events
  have hlost : (run events).Lost 0 := ⟨by decide, by decide⟩
  exact ⟨by decide, (lost_forever hlost _).1⟩

end Processes

end Service

end OtTcpListener
