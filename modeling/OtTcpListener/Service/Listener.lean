import OtTcpListener.Foundations.History

/-!
# The service, its adapters and their threads

`OtService` forwards the callbacks of the service manager to `OtListener`, which keeps a list of
adapters. An `Adapter` owns a `Sniffer`, a thread whose loop tests the flag `m_stop`. The callbacks
run on one thread and the loops on others, so a run of the system is a sequence of callbacks and of
steps of loops, in any order.

Adapters are never destroyed while the listener lives: `stop` only forgets them. The state keeps all
of them, in the order of their creation, and an index serves as the pointer.

`quit` does nothing to a thread without an event loop, and `wait(500)` gives a loop time to make
steps but may return before it has made any. Neither has an effect of its own here.
-/

namespace OtTcpListener

namespace Service

/-! ## A sniffer and its loop -/

/-- Where the thread of a sniffer stands. -/
inductive Position where
  /-- The thread is not running. -/
  | finished
  /-- About to test `m_stop` in `run`. -/
  | loopTest
  /-- About to test `m_stop` in `MonitorPcap`. -/
  | entryTest
  /-- Past both tests, with a poll and a packet ahead. -/
  | packet
  /-- Asleep until the next round. -/
  | sleep
  deriving DecidableEq

/-- The part of `Sniffer` that the callbacks and the loop share. -/
structure Sniffer where
  m_stop : Bool
  position : Position
  deriving DecidableEq

namespace Sniffer

/-- `Sniffer::stopLoop`. -/
def stopLoop (s : Sniffer) : Sniffer := { s with m_stop := true }

/-- `QThread::start`: enter `run`, unless the thread is running. -/
def start (s : Sniffer) : Sniffer :=
  match s.position with
  | .finished => { s with position := .loopTest }
  | _ => s

/-- A step of the loop in `Sniffer::run`. -/
def step (s : Sniffer) : Sniffer :=
  match s.position with
  | .finished => s
  | .loopTest => { s with position := if s.m_stop then .finished else .entryTest }
  | .entryTest => { s with position := if s.m_stop then .sleep else .packet }
  | .packet => { s with position := .sleep }
  | .sleep => { s with position := .loopTest }

/-- Starting the thread leaves the flag as it was. -/
@[simp] theorem m_stop_start (s : Sniffer) : s.start.m_stop = s.m_stop := by
  rw [start]
  split <;> rfl

@[simp] theorem start_start (s : Sniffer) : s.start.start = s.start := by
  obtain ⟨m_stop, position⟩ := s
  cases position <;> rfl

/-- The loop reads the flag and never writes it. -/
@[simp] theorem m_stop_step (s : Sniffer) : s.step.m_stop = s.m_stop := by
  rw [step]
  split <;> rfl

end Sniffer

/-! ## Adapters -/

/-- An `Adapter`. -/
structure Adapter where
  sniffer : Sniffer
  deriving DecidableEq

namespace Adapter

/-- The constructor: a sniffer with its flag down, and started. -/
def create : Adapter := ⟨Sniffer.start ⟨false, .finished⟩⟩

/-- `Adapter::stopLoop`. -/
def stopLoop (a : Adapter) : Adapter := ⟨a.sniffer.stopLoop⟩

/-- `Adapter::setPause`. -/
def setPause (_pause : Bool) (a : Adapter) : Adapter :=
  -- the flag that a pause raised stays up
  if _pause then ⟨a.sniffer.stopLoop⟩ else ⟨a.sniffer.start⟩

/-- The flag of the sniffer. -/
def m_stop (a : Adapter) : Bool := a.sniffer.m_stop

@[simp] theorem setPause_setPause (_pause : Bool) (a : Adapter) :
    (a.setPause _pause).setPause _pause = a.setPause _pause := by
  cases _pause with
  | true => rfl
  | false => exact congrArg Adapter.mk a.sniffer.start_start

/-- Pausing raises the flag, and resuming leaves it as it was. -/
@[simp] theorem m_stop_setPause (_pause : Bool) (a : Adapter) :
    (a.setPause _pause).m_stop = (_pause || a.m_stop) := by
  cases _pause with
  | true => rfl
  | false => exact a.sniffer.m_stop_start

end Adapter

/-! ## The listener -/

/-- `OtListener`, with every adapter it has created. -/
structure OtListener where
  adapters : List Adapter
  adapterList : List ℕ
  /-- The list holds adapters that exist. -/
  adapterList_lt : ∀ i ∈ adapterList, i < adapters.length

namespace OtListener

/-- A loop over `adapterList`. -/
def visit (f : Adapter → Adapter) (adapterList : List ℕ) (adapters : List Adapter) :
    List Adapter :=
  adapterList.foldl (fun adapters i ↦ adapters.modify i f) adapters

@[simp] theorem length_visit (f : Adapter → Adapter) (adapterList : List ℕ)
    (adapters : List Adapter) : (visit f adapterList adapters).length = adapters.length := by
  induction adapterList generalizing adapters with
  | nil => rfl
  | cons i adapterList ih =>
    rw [visit, List.foldl_cons, ← visit, ih, List.length_modify]

/-- A loop with an idempotent body applies it once to the adapters in the list. -/
theorem getElem?_visit {f : Adapter → Adapter} (hf : ∀ a, f (f a) = f a) (adapterList : List ℕ)
    (adapters : List Adapter) (i : ℕ) :
    (visit f adapterList adapters)[i]? =
      adapters[i]?.map fun a ↦ if i ∈ adapterList then f a else a := by
  induction adapterList generalizing adapters with
  | nil => simp [visit]
  | cons j adapterList ih =>
    rw [visit, List.foldl_cons, ← visit, ih, List.getElem?_modify, Option.map_eq_map,
      Option.map_map]
    congr 1
    funext a
    by_cases hj : i = j
    · by_cases hi : i ∈ adapterList <;> simp [← hj, hi, hf]
    · simp [hj, Ne.symm hj]

/-- The constructor. -/
def empty : OtListener := ⟨[], [], fun _ h ↦ absurd h List.not_mem_nil⟩

/-- `OtListener::init`. -/
def init (l : OtListener) : OtListener where
  adapters := l.adapters ++ [.create]
  adapterList := l.adapterList ++ [l.adapters.length]
  adapterList_lt i hi := by
    rw [List.length_append, List.length_singleton]
    rcases List.mem_append.mp hi with hi | hi
    · exact (l.adapterList_lt i hi).trans (Nat.lt_succ_self _)
    · rw [List.mem_singleton.mp hi]
      exact Nat.lt_succ_self _

/-- `OtListener::stop`. -/
def stop (l : OtListener) : OtListener where
  adapters := visit Adapter.stopLoop l.adapterList l.adapters
  adapterList := []
  adapterList_lt _ h := absurd h List.not_mem_nil

/-- `OtListener::setPause`. -/
def setPause (_pause : Bool) (l : OtListener) : OtListener where
  adapters := visit (Adapter.setPause _pause) l.adapterList l.adapters
  adapterList := l.adapterList
  adapterList_lt i hi := by
    rw [length_visit]
    exact l.adapterList_lt i hi

end OtListener

/-! ## Runs -/

/-- The callbacks of `OtService`. -/
inductive Callback where
  | start
  | pause
  | resume
  | stop
  deriving DecidableEq

/-- What a callback does. -/
def Callback.apply : Callback → OtListener → OtListener
  | .start, l => l.init
  | .pause, l => l.setPause true
  | .resume, l => l.setPause false
  | .stop, l => l.stop

/-- A callback, or a step of the loop of one adapter. -/
inductive Event where
  | callback (c : Callback)
  | thread (i : ℕ)
  deriving DecidableEq

def OtListener.step (l : OtListener) : Event → OtListener
  | .callback c => c.apply l
  | .thread i =>
    { l with
      adapters := l.adapters.modify i fun a ↦ ⟨a.sniffer.step⟩
      adapterList_lt := by
        rw [List.length_modify]
        exact l.adapterList_lt }

/-- A run from the start of the process. -/
def run (events : List Event) : OtListener := events.foldl OtListener.step .empty

/-! ## The flags -/

namespace OtListener

/-- The flag of an adapter that exists. -/
def m_stop (l : OtListener) (i : ℕ) : Option Bool := l.adapters[i]?.map Adapter.m_stop

theorem m_stop_init (l : OtListener) {i : ℕ} (hi : i < l.adapters.length) :
    l.init.m_stop i = l.m_stop i := by
  rw [m_stop, m_stop, init, List.getElem?_append_left hi]

theorem m_stop_init_length (l : OtListener) : l.init.m_stop l.adapters.length = some false := by
  rw [m_stop, init, List.getElem?_append_right le_rfl, Nat.sub_self]
  rfl

theorem m_stop_setPause (l : OtListener) (_pause : Bool) {i : ℕ} (hi : i ∈ l.adapterList) :
    (l.setPause _pause).m_stop i = (l.m_stop i).map (_pause || ·) := by
  rw [m_stop, m_stop, setPause, getElem?_visit (Adapter.setPause_setPause _pause), Option.map_map,
    Option.map_map]
  congr 1
  funext a
  rw [Function.comp_apply, if_pos hi, Adapter.m_stop_setPause, Function.comp_apply]

theorem m_stop_step_thread (l : OtListener) (i j : ℕ) :
    (l.step (.thread j)).m_stop i = l.m_stop i := by
  rw [m_stop, m_stop, step, List.getElem?_modify, Option.map_eq_map, Option.map_map]
  congr 1
  funext a
  rw [Function.comp_apply]
  split
  · exact a.sniffer.m_stop_step
  · rfl

end OtListener

end Service

end OtTcpListener
