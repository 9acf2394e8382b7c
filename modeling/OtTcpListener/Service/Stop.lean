import OtTcpListener.Service.Listener

/-!
# Stopping is final

`OtListener::stop` and `OtListener::setPause` are loops over `adapterList`, and the threads of the
sniffers go on while a loop is under way: each of its rounds may wait for half a second. Here a
callback is therefore not one event. A `call` enters its loop, each `advance` of the service thread
visits one adapter or leaves the loop, and steps of the threads may come anywhere between. The
callback whose rounds follow one another undisturbed is the one of `Callback.apply`
(`foldl_advance`).

The destructor of `OtService` calls `OtListener::stop` once more. It is not a callback of the
service manager, but to the listener it is a `stop` like the others, and a run may hold any number
of them.

## Why a flag that is up settles the matter

No function lowers `m_stop`. With the flag up both tests of the loop fail, so a thread that is not
past the second of them never reaches a packet again, whether or not a resume starts it anew. What
`stop` has dropped from the list it has flagged before.
-/

namespace OtTcpListener

namespace Service

/-! ## A thread whose flag is up -/

namespace Sniffer

/-- A thread that is started is not at a packet. -/
theorem position_start_eq_packet_iff (s : Sniffer) :
    s.start.position = .packet ↔ s.position = .packet := by
  obtain ⟨m_stop, position⟩ := s
  cases position <;> simp [start]

/-- The entry test keeps a stopped thread from the packet. -/
theorem position_step_ne_packet {s : Sniffer} (h : s.m_stop = true) :
    s.step.position ≠ .packet := by
  obtain ⟨m_stop, position⟩ := s
  cases position <;> simp_all [step]

end Sniffer

/-! ## Callbacks under way -/

/-- The body of a loop over `adapterList`. -/
inductive Visit where
  /-- `adapter->stopLoop()`. -/
  | stopLoop
  /-- `adapter->setPause(_pause)`. -/
  | setPause (_pause : Bool)
  deriving DecidableEq

namespace Visit

/-- What a round does to the adapter it visits. -/
def body : Visit → Adapter → Adapter
  | .stopLoop => Adapter.stopLoop
  | .setPause _pause => Adapter.setPause _pause

/-- Whether the loop raises the flags of the adapters it visits. -/
def raises : Visit → Bool
  | .stopLoop => true
  | .setPause _pause => _pause

@[simp] theorem m_stop_body (v : Visit) (a : Adapter) :
    (v.body a).m_stop = (v.raises || a.m_stop) := by
  cases v with
  | stopLoop => rfl
  | setPause _pause => exact a.m_stop_setPause _pause

/-- No round takes a thread to a packet or away from one. -/
theorem position_body_eq_packet_iff (v : Visit) (a : Adapter) :
    (v.body a).sniffer.position = .packet ↔ a.sniffer.position = .packet := by
  rcases v with _ | (_ | _)
  · exact Iff.rfl
  · exact a.sniffer.position_start_eq_packet_iff
  · exact Iff.rfl

end Visit

/-- Where the thread of the callbacks stands. -/
inductive Control where
  /-- Between two callbacks. -/
  | idle
  /-- In a loop over `adapterList`, with these adapters ahead. -/
  | visiting (v : Visit) (ahead : List ℕ)
  deriving DecidableEq

/-- A step of the service or of a thread. -/
inductive Action where
  /-- The service manager issues a callback. -/
  | call (c : Callback)
  /-- The callback under way makes its next round, or returns. -/
  | advance
  /-- The loop of one adapter makes a step. -/
  | thread (i : ℕ)
  deriving DecidableEq

/-- The listener together with the callback that is under way. -/
structure System where
  listener : OtListener
  control : Control

namespace OtListener

/-- A change of one adapter. -/
def modify (l : OtListener) (i : ℕ) (f : Adapter → Adapter) : OtListener where
  adapters := l.adapters.modify i f
  adapterList := l.adapterList
  adapterList_lt j hj := by
    rw [List.length_modify]
    exact l.adapterList_lt j hj

theorem getElem?_modify_self (l : OtListener) {i : ℕ} {a : Adapter} (h : l.adapters[i]? = some a)
    (f : Adapter → Adapter) : (l.modify i f).adapters[i]? = some (f a) := by
  rw [modify, List.getElem?_modify_eq, h]
  rfl

theorem getElem?_modify_of_ne (l : OtListener) {i j : ℕ} {a : Adapter}
    (h : l.adapters[i]? = some a) (hj : j ≠ i) (f : Adapter → Adapter) :
    (l.modify j f).adapters[i]? = some a := by
  rw [modify, List.getElem?_modify_ne _ _ hj, h]

/-- A new adapter leaves the old ones alone. -/
theorem getElem?_init (l : OtListener) {i : ℕ} {a : Adapter} (h : l.adapters[i]? = some a) :
    l.init.adapters[i]? = some a := by
  rw [init, List.getElem?_append_left (List.getElem?_eq_some_iff.mp h).1, h]

/-- Visiting adapters one at a time. -/
theorem foldl_modify (f : Adapter → Adapter) (ahead : List ℕ) (l : OtListener) :
    ahead.foldl (fun l i ↦ l.modify i f) l =
      ⟨visit f ahead l.adapters, l.adapterList, fun i hi ↦ by
        rw [length_visit]
        exact l.adapterList_lt i hi⟩ := by
  induction ahead generalizing l with
  | nil => rfl
  | cons i ahead ih =>
    rw [List.foldl_cons, ih]
    rfl

/-- `adapterList.clear()`. -/
def clear (l : OtListener) : OtListener where
  adapters := l.adapters
  adapterList := []
  adapterList_lt _ h := absurd h List.not_mem_nil

end OtListener

/-- What a callback does after its last round. -/
def Visit.leave : Visit → OtListener → OtListener
  | .stopLoop, l => l.clear
  | .setPause _, l => l

namespace System

/-- A callback starts. `OtListener::init` has no loop. -/
def enter (l : OtListener) : Callback → System
  | .start => ⟨l.init, .idle⟩
  | .pause => ⟨l, .visiting (.setPause true) l.adapterList⟩
  | .resume => ⟨l, .visiting (.setPause false) l.adapterList⟩
  | .stop => ⟨l, .visiting .stopLoop l.adapterList⟩

def step (s : System) : Action → System
  | .call c =>
    match s.control with
    | .idle => enter s.listener c
    -- callbacks are issued by one thread: none starts before the last has returned
    | .visiting _ _ => s
  | .advance =>
    match s.control with
    | .idle => s
    | .visiting v [] => ⟨v.leave s.listener, .idle⟩
    | .visiting v (i :: ahead) => ⟨s.listener.modify i v.body, .visiting v ahead⟩
  | .thread i => ⟨s.listener.step (.thread i), s.control⟩

/-- A run from the start of the process. -/
def run (actions : List Action) : System := actions.foldl step ⟨.empty, .idle⟩

theorem foldl_advance_idle (n : ℕ) (l : OtListener) :
    (List.replicate n .advance).foldl step ⟨l, .idle⟩ = ⟨l, .idle⟩ := by
  induction n with
  | zero => rfl
  | succ n ih => exact ih

/-- The rounds of a loop, one after the other. -/
theorem foldl_advance_visiting (v : Visit) (ahead : List ℕ) (l : OtListener) :
    (List.replicate (ahead.length + 1) .advance).foldl step ⟨l, .visiting v ahead⟩ =
      ⟨v.leave (ahead.foldl (fun l i ↦ l.modify i v.body) l), .idle⟩ := by
  induction ahead generalizing l with
  | nil => rfl
  | cons i ahead ih =>
    rw [List.length_cons, List.replicate_succ, List.foldl_cons, List.foldl_cons, ← ih]
    rfl

/-- **An undisturbed callback.** When the rounds of a callback follow one another, it does what it
does as a single event. -/
theorem foldl_advance (l : OtListener) (c : Callback) :
    (List.replicate (l.adapterList.length + 1) .advance).foldl step (enter l c) =
      ⟨c.apply l, .idle⟩ := by
  cases c with
  | start => exact foldl_advance_idle _ _
  | pause =>
    rw [enter, foldl_advance_visiting, Visit.leave, OtListener.foldl_modify]
    rfl
  | resume =>
    rw [enter, foldl_advance_visiting, Visit.leave, OtListener.foldl_modify]
    rfl
  | stop =>
    rw [enter, foldl_advance_visiting, Visit.leave, OtListener.foldl_modify]
    rfl

/-! ## One step -/

variable (s : System) (e : Action)

/-- **What a step does to one adapter.** Its own thread steps, or the loop under way visits it. -/
theorem getElem?_step {i : ℕ} {a : Adapter} (h : s.listener.adapters[i]? = some a) :
    (s.step e).listener.adapters[i]? = some (if e = .thread i then ⟨a.sniffer.step⟩ else a) ∨
      ∃ v ahead, s.control = .visiting v (i :: ahead) ∧ e = .advance ∧
        (s.step e).listener.adapters[i]? = some (v.body a) := by
  obtain ⟨l, control⟩ := s
  cases e with
  | call c =>
    refine .inl ?_
    rw [if_neg (by simp)]
    rcases control with _ | ⟨v, ahead⟩
    · cases c with
      | start => exact l.getElem?_init h
      | pause => exact h
      | resume => exact h
      | stop => exact h
    · exact h
  | advance =>
    rcases control with _ | ⟨v, _ | ⟨j, ahead⟩⟩
    · exact .inl h
    · cases v with
      | stopLoop => exact .inl h
      | setPause _pause => exact .inl h
    · by_cases hj : j = i
      · subst hj
        exact .inr ⟨v, ahead, rfl, rfl, l.getElem?_modify_self h v.body⟩
      · exact .inl (l.getElem?_modify_of_ne h hj v.body)
  | thread j =>
    refine .inl ?_
    by_cases hj : j = i
    · rw [hj, if_pos rfl]
      exact l.getElem?_modify_self h fun a ↦ ⟨a.sniffer.step⟩
    · rw [if_neg (mt Action.thread.inj hj)]
      exact l.getElem?_modify_of_ne h hj fun a ↦ ⟨a.sniffer.step⟩

/-! ## Flags stay up -/

/-- The flag of an adapter is up. -/
def Flagged (s : System) (i : ℕ) : Prop := s.listener.m_stop i = some true

/-- The flag of an adapter is up, or the loop under way is about to raise it. -/
def Due (s : System) (i : ℕ) : Prop :=
  s.Flagged i ∨ ∃ v ahead, s.control = .visiting v ahead ∧ v.raises = true ∧ i ∈ ahead

variable {s}

theorem flagged_iff {i : ℕ} :
    s.Flagged i ↔ ∃ a, s.listener.adapters[i]? = some a ∧ a.m_stop = true := by
  rw [Flagged, OtListener.m_stop, Option.map_eq_some_iff]

/-- Nothing lowers a flag. -/
theorem Flagged.step {i : ℕ} (h : s.Flagged i) (e : Action) : (s.step e).Flagged i := by
  obtain ⟨a, ha, hflag⟩ := flagged_iff.mp h
  rw [flagged_iff]
  rcases s.getElem?_step e ha with hstep | ⟨v, ahead, -, -, hstep⟩
  · refine ⟨_, hstep, ?_⟩
    split
    · exact (Sniffer.m_stop_step _).trans hflag
    · exact hflag
  · exact ⟨_, hstep, by rw [Visit.m_stop_body, hflag, Bool.or_true]⟩

/-- What a loop is about to flag, it flags. -/
theorem Due.step {i : ℕ} (hi : i < s.listener.adapters.length) (h : s.Due i) (e : Action) :
    (s.step e).Due i := by
  rcases h with h | ⟨v, ahead, hcontrol, hraises, hmem⟩
  · exact .inl (h.step e)
  · obtain ⟨l, control⟩ := s
    obtain rfl : control = .visiting v ahead := hcontrol
    cases e with
    | call c => exact .inr ⟨v, ahead, rfl, hraises, hmem⟩
    | thread j => exact .inr ⟨v, ahead, rfl, hraises, hmem⟩
    | advance =>
      rcases ahead with _ | ⟨j, ahead⟩
      · exact absurd hmem List.not_mem_nil
      · rcases List.mem_cons.mp hmem with rfl | hmem
        · have hround := l.getElem?_modify_self (List.getElem?_eq_getElem hi) v.body
          refine .inl (flagged_iff.mpr ⟨_, hround, ?_⟩)
          rw [Visit.m_stop_body, hraises, Bool.true_or]
        · exact .inr ⟨v, ahead, rfl, hraises, hmem⟩

theorem lt_length_step {i : ℕ} (hi : i < s.listener.adapters.length) (e : Action) :
    i < (s.step e).listener.adapters.length := by
  rcases s.getElem?_step e (List.getElem?_eq_getElem hi) with hstep | ⟨_, _, -, -, hstep⟩
  · exact (List.getElem?_eq_some_iff.mp hstep).1
  · exact (List.getElem?_eq_some_iff.mp hstep).1

theorem Due.foldl {i : ℕ} (hi : i < s.listener.adapters.length) (h : s.Due i)
    (actions : List Action) : (actions.foldl System.step s).Due i := by
  induction actions generalizing s with
  | nil => exact h
  | cons e actions ih => exact ih (lt_length_step hi e) (h.step hi e)

/-- With no round ahead nothing is pending. -/
theorem Due.flagged {i : ℕ} (h : s.Due i)
    (hdone : ∀ v ahead, s.control = .visiting v ahead → ahead = []) : s.Flagged i := by
  rcases h with h | ⟨v, ahead, hcontrol, -, hmem⟩
  · exact h
  · rw [hdone v ahead hcontrol] at hmem
    exact absurd hmem List.not_mem_nil

/-! ## What is dropped has been flagged -/

/-- Every adapter is in the list or flagged, and a stop under way flags the whole list before it
drops it. -/
structure Safe (s : System) : Prop where
  listed_or_flagged : ∀ i < s.listener.adapters.length,
    i ∈ s.listener.adapterList ∨ s.Flagged i
  due : ∀ ahead, s.control = .visiting .stopLoop ahead → ∀ i ∈ s.listener.adapterList, s.Due i

/-- A step that creates no adapter, drops none and enters no stop. -/
theorem Safe.keep (h : s.Safe) {e : Action}
    (hlength : (s.step e).listener.adapters.length = s.listener.adapters.length)
    (hlist : (s.step e).listener.adapterList = s.listener.adapterList)
    (hcontrol : ∀ ahead, (s.step e).control = .visiting .stopLoop ahead →
      ∃ ahead', s.control = .visiting .stopLoop ahead') : (s.step e).Safe := by
  constructor
  · intro i hi
    rw [hlength] at hi
    rw [hlist]
    exact (h.listed_or_flagged i hi).imp_right fun hflag ↦ hflag.step e
  · intro ahead hahead i hi
    rw [hlist] at hi
    obtain ⟨ahead', hahead'⟩ := hcontrol ahead hahead
    exact (h.due ahead' hahead' i hi).step (s.listener.adapterList_lt i hi) e

theorem Safe.step (h : s.Safe) (e : Action) : (s.step e).Safe := by
  obtain ⟨l, control⟩ := s
  cases e with
  | thread j => exact h.keep (List.length_modify ..) rfl fun ahead hahead ↦ ⟨ahead, hahead⟩
  | call c =>
    rcases control with _ | ⟨v, ahead⟩
    · cases c with
      | start =>
        constructor
        · intro i hi
          have hlength : l.init.adapters.length = l.adapters.length + 1 := List.length_append
          rcases Nat.lt_succ_iff_lt_or_eq.mp (hlength ▸ hi) with hi | rfl
          · exact (h.listed_or_flagged i hi).imp (List.mem_append_left _) fun hflag ↦
              hflag.step (.call .start)
          · exact .inl (List.mem_append_right _ (List.mem_singleton_self _))
        · intro ahead hahead
          cases hahead
      | pause => exact h.keep rfl rfl fun _ hahead ↦ by cases hahead
      | resume => exact h.keep rfl rfl fun _ hahead ↦ by cases hahead
      | stop =>
        refine ⟨h.listed_or_flagged, fun ahead _ i hi ↦ ?_⟩
        exact .inr ⟨.stopLoop, l.adapterList, rfl, rfl, hi⟩
    · exact h.keep rfl rfl fun ahead hahead ↦ ⟨ahead, hahead⟩
  | advance =>
    rcases control with _ | ⟨v, _ | ⟨j, ahead⟩⟩
    · exact h.keep rfl rfl fun ahead hahead ↦ ⟨ahead, hahead⟩
    · cases v with
      | stopLoop =>
        constructor
        · intro i hi
          refine .inr ?_
          rcases h.listed_or_flagged i hi with hlisted | hflag
          · have hdone : ∀ v ahead, Control.visiting .stopLoop [] = .visiting v ahead →
                ahead = [] := fun _ _ hcontrol ↦ (Control.visiting.inj hcontrol).2.symm
            exact ((h.due [] rfl i hlisted).flagged hdone).step .advance
          · exact hflag.step .advance
        · intro ahead hahead
          cases hahead
      | setPause _pause => exact h.keep rfl rfl fun _ hahead ↦ by cases hahead
    · refine h.keep (List.length_modify ..) rfl fun ahead' hahead ↦ ⟨j :: ahead, ?_⟩
      rw [(Control.visiting.inj hahead).1]

theorem safe_run (actions : List Action) : (run actions).Safe :=
  List.foldlRecOn actions step
    ⟨fun _ hi ↦ absurd hi (Nat.not_lt_zero _), fun _ _ _ hi ↦ absurd hi List.not_mem_nil⟩
    fun _ h e _ ↦ h.step e

/-! ## Frames -/

/-- The frame that the thread of an adapter is at: one or none. -/
def inFlight (s : System) (i : ℕ) : ℕ :=
  if s.listener.adapters[i]?.map (·.sniffer.position) = some .packet then 1 else 0

/-- The frames that the thread of an adapter processes in the course of a run. -/
def frames (i : ℕ) : System → List Action → ℕ
  | _, [] => 0
  | s, e :: actions => (if e = .thread i then s.inFlight i else 0) + frames i (s.step e) actions

theorem inFlight_eq {i : ℕ} {a : Adapter} (h : s.listener.adapters[i]? = some a) :
    s.inFlight i = if a.sniffer.position = .packet then 1 else 0 := by
  simp only [inFlight, h, Option.map_some, Option.some.injEq]

/-- One step of a flagged adapter: what it processes and what is in flight afterwards was in flight
before. -/
theorem Flagged.inFlight_step_le {i : ℕ} (h : s.Flagged i) (e : Action) :
    (if e = .thread i then s.inFlight i else 0) + (s.step e).inFlight i ≤ s.inFlight i := by
  obtain ⟨a, ha, hflag⟩ := flagged_iff.mp h
  rcases s.getElem?_step e ha with hstep | ⟨v, ahead, -, rfl, hstep⟩
  · rw [inFlight_eq hstep]
    split
    · rw [if_neg (Sniffer.position_step_ne_packet hflag), Nat.add_zero]
    · rw [inFlight_eq ha, Nat.zero_add]
  · rw [inFlight_eq hstep, inFlight_eq ha, if_neg (by simp), Nat.zero_add]
    simp only [v.position_body_eq_packet_iff, le_refl]

/-- **A flag is final.** Whatever comes, a flagged adapter processes no frame but the one it is
at. -/
theorem Flagged.frames_le {i : ℕ} (h : s.Flagged i) (actions : List Action) :
    frames i s actions ≤ s.inFlight i := by
  induction actions generalizing s with
  | nil => exact Nat.zero_le _
  | cons e actions ih =>
    calc (if e = .thread i then s.inFlight i else 0) + frames i (s.step e) actions
        ≤ (if e = .thread i then s.inFlight i else 0) + (s.step e).inFlight i :=
          Nat.add_le_add_left (ih (h.step e)) _
      _ ≤ s.inFlight i := h.inFlight_step_le e

/-- What a stop or a pause finds in the list is flagged when it returns. -/
theorem flagged_of_call {c : Callback} (hc : c = .pause ∨ c = .stop) {before during : List Action}
    (hidle : (run before).control = .idle)
    (hreturned : (run (before ++ .call c :: during)).control = .idle) {i : ℕ}
    (hi : i ∈ (run before).listener.adapterList) :
    (run (before ++ .call c :: during)).Flagged i := by
  have hlt := (run before).listener.adapterList_lt i hi
  have hcall : ((run before).step (.call c)).Due i := by
    right
    rw [step, hidle]
    rcases hc with rfl | rfl
    · exact ⟨.setPause true, _, rfl, rfl, hi⟩
    · exact ⟨.stopLoop, _, rfl, rfl, hi⟩
  have hdue := hcall.foldl (lt_length_step hlt _) during
  have hrun : run (before ++ .call c :: during) =
      during.foldl step ((run before).step (.call c)) := by
    rw [run, List.foldl_append, List.foldl_cons, run]
  rw [hrun] at hreturned ⊢
  refine hdue.flagged fun v ahead hcontrol ↦ ?_
  rw [hreturned] at hcontrol
  cases hcontrol

/-- **Stopping is final.** In every run, an adapter is in the list or its flag is up. When a stop or
a pause has returned, the flags of the adapters it found in the list are up. And an adapter whose
flag is up, or that is no longer in the list, processes no frame but the one it is at, whatever
comes. -/
theorem stop_final (before : List Action) :
    (∀ i < (run before).listener.adapters.length,
      i ∈ (run before).listener.adapterList ∨ (run before).Flagged i) ∧
    (∀ (c : Callback) (during : List Action), c = .pause ∨ c = .stop →
      (run before).control = .idle → (run (before ++ .call c :: during)).control = .idle →
      ∀ i ∈ (run before).listener.adapterList, (run (before ++ .call c :: during)).Flagged i) ∧
    ∀ i < (run before).listener.adapters.length,
      (run before).Flagged i ∨ i ∉ (run before).listener.adapterList →
      ∀ after : List Action, frames i (run before) after ≤ (run before).inFlight i := by
  have hsafe := (safe_run before).listed_or_flagged
  refine ⟨hsafe, ?_, ?_⟩
  · intro c during hc hidle hreturned i hi
    exact flagged_of_call hc hidle hreturned hi
  · rintro i hi (hflag | hdropped)
    · exact hflag.frames_le
    · exact ((hsafe i hi).resolve_left hdropped).frames_le

/-- A stop that finds a thread at a packet, and whose rounds are interrupted by another thread. -/
theorem stop_final_two :
    (run [.call .start, .call .start, .thread 0, .thread 0, .call .stop, .advance, .thread 1,
      .advance, .advance]).Flagged 1 ∧
    ∀ after : List Action, frames 0 (run [.call .start, .call .start, .thread 0, .thread 0,
      .call .stop, .advance, .thread 1, .advance, .advance]) after ≤ 1 := by
  constructor
  · exact (stop_final [.call .start, .call .start, .thread 0, .thread 0]).2.1 .stop
      [.advance, .thread 1, .advance, .advance] (.inr rfl) rfl rfl 1 (by decide)
  · exact (stop_final _).2.2 0 (by decide) (.inr (by decide))

end System

end Service

end OtTcpListener
