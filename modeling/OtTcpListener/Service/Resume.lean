import OtTcpListener.Service.Listener

/-!
# Resuming a paused service

`Adapter::setPause(true)` raises `m_stop`. `Adapter::setPause(false)` starts the thread again and
leaves the flag up, and no other function lowers it: the restarted loop ends at its first test.

Hence every adapter in the list has its flag down if and only if none of them was there when a pause
came (`capturing_iff`). Another start does not help a paused adapter either; it adds a second one.
-/

namespace OtTcpListener

open History

namespace Service

/-! ## Histories -/

/-- A start has come and no stop since. -/
def Started : List Event → Prop :=
  Since (· ≠ .callback .stop) fun _ e ↦ e = .callback .start

/-- A pause has come after a start, with no stop between them and none since. -/
def PausedWhileStarted : List Event → Prop :=
  Since (· ≠ .callback .stop) fun before e ↦ e = .callback .pause ∧ Started before

/-- The service has been started and not stopped since, and the last callback told it to run. -/
def Resumed (events : List Event) : Prop :=
  Started events ∧
    ∃ c, (c = .start ∨ c = .resume) ∧
      Since (fun e ↦ ∃ i, e = .thread i) (fun _ e ↦ e = .callback c) events

/-- Every adapter in the list has its flag down. -/
def OtListener.Capturing (l : OtListener) : Prop :=
  ∀ i ∈ l.adapterList, l.m_stop i = some false

theorem started_concat {events : List Event} {e : Event} : Started (events ++ [e]) ↔
    e = .callback .start ∨ e ≠ .callback .stop ∧ Started events := since_concat

theorem pausedWhileStarted_concat {events : List Event} {e : Event} :
    PausedWhileStarted (events ++ [e]) ↔
      (e = .callback .pause ∧ Started events) ∨
        e ≠ .callback .stop ∧ PausedWhileStarted events := since_concat

theorem PausedWhileStarted.started {events : List Event} (h : PausedWhileStarted events) :
    Started events := by
  induction events using List.reverseRecOn with
  | nil => exact absurd h not_since_nil
  | append_singleton events e ih =>
    rw [started_concat]
    rcases pausedWhileStarted_concat.mp h with ⟨rfl, hstarted⟩ | ⟨hne, hpaused⟩
    · exact .inr ⟨by decide, hstarted⟩
    · exact .inr ⟨hne, ih hpaused⟩

/-! ## One event -/

namespace OtListener

theorem capturing_init_iff (l : OtListener) : l.init.Capturing ↔ l.Capturing := by
  constructor
  · intro h i hi
    rw [← l.m_stop_init (l.adapterList_lt i hi)]
    exact h i (List.mem_append_left _ hi)
  · intro h i hi
    rcases List.mem_append.mp hi with hi | hi
    · rw [l.m_stop_init (l.adapterList_lt i hi)]
      exact h i hi
    · rw [List.mem_singleton.mp hi]
      exact l.m_stop_init_length

/-- After a pause the listed adapters do not capture. -/
theorem capturing_setPause_true_iff (l : OtListener) :
    (l.setPause true).Capturing ↔ l.adapterList = [] := by
  constructor
  · intro h
    by_contra hne
    obtain ⟨i, hi⟩ := List.exists_mem_of_ne_nil _ hne
    have hflag := h i hi
    rw [l.m_stop_setPause true hi] at hflag
    obtain ⟨s, -, hs⟩ := Option.map_eq_some_iff.mp hflag
    cases hs
  · intro hnil i hi
    change i ∈ l.adapterList at hi
    rw [hnil] at hi
    exact absurd hi List.not_mem_nil

/-- A resume changes no flag. -/
theorem capturing_setPause_false_iff (l : OtListener) :
    (l.setPause false).Capturing ↔ l.Capturing := by
  refine forall₂_congr fun i hi ↦ ?_
  rw [l.m_stop_setPause false hi]
  cases l.m_stop i <;> rfl

theorem capturing_step_thread_iff (l : OtListener) (j : ℕ) :
    (l.step (.thread j)).Capturing ↔ l.Capturing :=
  forall₂_congr fun i _ ↦ by rw [m_stop_step_thread]

end OtListener

/-! ## Runs -/

/-- What the history says about the list and its flags. -/
def Describes (events : List Event) (l : OtListener) : Prop :=
  (l.adapterList ≠ [] ↔ Started events) ∧ (l.Capturing ↔ ¬PausedWhileStarted events)

theorem Describes.step {events : List Event} {l : OtListener} (h : Describes events l)
    (e : Event) : Describes (events ++ [e]) (l.step e) := by
  obtain ⟨hlist, hcapturing⟩ := h
  rw [Describes, started_concat, pausedWhileStarted_concat]
  cases e with
  | thread j =>
    have hkeep : (l.step (.thread j)).adapterList = l.adapterList := rfl
    rw [hkeep, l.capturing_step_thread_iff, hcapturing]
    simpa using hlist
  | callback c =>
    cases c with
    | start =>
      rw [OtListener.step, Callback.apply, l.capturing_init_iff, hcapturing]
      simp [OtListener.init]
    | pause =>
      -- the pause is an occurrence exactly when there was an adapter to pause
      have hnil : l.adapterList = [] ↔ ¬Started events := by rw [← hlist, not_not]
      rw [OtListener.step, Callback.apply, l.capturing_setPause_true_iff, hnil, not_iff_not]
      refine ⟨by simpa [OtListener.setPause] using hlist, fun h ↦ .inl ⟨rfl, h⟩, ?_⟩
      rintro (⟨-, h⟩ | ⟨-, h⟩)
      · exact h
      · exact h.started
    | resume =>
      rw [OtListener.step, Callback.apply, l.capturing_setPause_false_iff, hcapturing]
      simpa [OtListener.setPause] using hlist
    | stop =>
      rw [OtListener.step, Callback.apply]
      simp [OtListener.stop, OtListener.Capturing]

theorem describes_run (events : List Event) : Describes events (run events) :=
  foldl_invariant ⟨iff_of_false (fun h ↦ h rfl) not_since_nil,
    iff_of_true (fun _ hi ↦ absurd hi List.not_mem_nil) not_since_nil⟩
    (fun _ _ e h ↦ h.step e) events

/-- **Resuming.** After any run, every adapter in the list has its flag down if and only if no pause
has come after a start, with no stop between them and none since. -/
theorem capturing_iff (events : List Event) :
    (run events).Capturing ↔ ¬PausedWhileStarted events := (describes_run events).2

/-- A start, a pause and a resume: the service says it has resumed and captures nothing. -/
theorem not_capturing_start_pause_resume :
    ¬∀ events : List Event, Resumed events → (run events).Capturing := by
  intro h
  have hstarted : Started [.callback .start, .callback .pause, .callback .resume] :=
    ⟨[], .callback .start, _, rfl, rfl, by decide⟩
  have hresumed : Resumed [.callback .start, .callback .pause, .callback .resume] :=
    ⟨hstarted, .resume, .inr rfl, [.callback .start, .callback .pause], .callback .resume, [], rfl,
      rfl, fun _ h ↦ absurd h List.not_mem_nil⟩
  have hflag := h _ hresumed 0 (by decide)
  exact absurd hflag (by decide)

end Service

end OtTcpListener
