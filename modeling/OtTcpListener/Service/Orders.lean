import OtTcpListener.Service.World

/-!
# What controllers bring about

What `OtService` is called for is what the controllers have asked for: of each callback, it gets at
least as many as controllers have been told of, and at most as many as they have asked for
(`calls_count`). Whoever is told that the service has stopped can rely on it (`stop_returned`), and
while `quit` has not been called, no call of `sendCmd` is stuck (`sendCmd_answerable`).
-/

namespace OtTcpListener

namespace Service

/-! ## Callbacks in a history -/

/-- The callback that an action calls. -/
def Action.called : Action → Option Callback
  | .call c => some c
  | .advance => none
  | .thread _ => none

namespace System

variable {s : System} {callbacks : List Callback} {actions : List Action}

/-- Actions that make callbacks call these and no others, and end between two of them. -/
theorem called_of_serves (h : s.serves callbacks actions = true) :
    actions.filterMap Action.called = callbacks ∧ (actions.foldl step s).control = .idle := by
  induction actions generalizing s callbacks with
  | nil =>
    obtain ⟨hnil, hidle⟩ := of_decide_eq_true h
    exact ⟨hnil.symm, hidle⟩
  | cons e actions ih =>
    cases e with
    | call c =>
      obtain ⟨-, hhead, hrest⟩ := of_decide_eq_true h
      obtain ⟨hcalled, hidle⟩ := ih hrest
      obtain ⟨callbacks, rfl⟩ := List.head?_eq_some_iff.mp hhead
      exact ⟨congrArg (c :: ·) hcalled, hidle⟩
    | advance => exact ih h
    | thread i => exact ih h

/-- The first callback is called while none is under way. -/
theorem serves_cons {c : Callback} (h : s.serves (c :: callbacks) actions = true) :
    ∃ before during, actions = before ++ .call c :: during ∧
      before.filterMap Action.called = [] ∧ (before.foldl step s).control = .idle := by
  induction actions generalizing s with
  | nil => exact absurd (of_decide_eq_true h).1 (List.cons_ne_nil _ _)
  | cons e actions ih =>
    cases e with
    | call c' =>
      obtain ⟨hidle, hhead, -⟩ := of_decide_eq_true h
      obtain rfl := Option.some.inj hhead
      exact ⟨[], actions, rfl, rfl, hidle⟩
    | advance =>
      obtain ⟨before, during, rfl, hcalled, hidle⟩ := ih h
      exact ⟨.advance :: before, during, rfl, hcalled, hidle⟩
    | thread i =>
      obtain ⟨before, during, rfl, hcalled, hidle⟩ := ih h
      exact ⟨.thread i :: before, during, rfl, hcalled, hidle⟩

/-- Only a start creates an adapter. -/
theorem length_step {e : Action} (h : e.called ≠ some .start) :
    (s.step e).listener.adapters.length = s.listener.adapters.length := by
  obtain ⟨l, control⟩ := s
  cases e with
  | call c =>
    rcases control with _ | ⟨v, ahead⟩
    · cases c with
      | start => exact absurd rfl h
      | pause => rfl
      | resume => rfl
      | stop => rfl
    · rfl
  | advance =>
    rcases control with _ | ⟨v, _ | ⟨i, ahead⟩⟩
    · rfl
    · cases v <;> rfl
    · exact List.length_modify ..
  | thread i => exact List.length_modify ..

theorem length_foldl (h : .start ∉ actions.filterMap Action.called) :
    (actions.foldl step s).listener.adapters.length = s.listener.adapters.length := by
  induction actions generalizing s with
  | nil => rfl
  | cons e actions ih =>
    have he : e.called ≠ some .start := fun he ↦
      h (List.mem_filterMap.mpr ⟨e, List.mem_cons_self, he⟩)
    have hrest : .start ∉ actions.filterMap Action.called := fun hmem ↦ by
      obtain ⟨a, ha, hcalled⟩ := List.mem_filterMap.mp hmem
      exact h (List.mem_filterMap.mpr ⟨a, List.mem_cons_of_mem _ ha, hcalled⟩)
    exact (ih hrest).trans (length_step he)

theorem Flagged.foldl {i : ℕ} (h : s.Flagged i) (actions : List Action) :
    (actions.foldl System.step s).Flagged i := by
  induction actions generalizing s with
  | nil => exact h
  | cons e actions ih => exact ih (h.step e)

/-- **A stop among other things.** When actions have made the callback `stop`, every adapter has its
flag up. -/
theorem flagged_of_serves {history : List Action}
    (h : (run history).serves [.stop] actions = true) {i : ℕ}
    (hi : i < (actions.foldl step (run history)).listener.adapters.length) :
    (actions.foldl step (run history)).Flagged i := by
  obtain ⟨hcalled, hreturned⟩ := called_of_serves h
  obtain ⟨before, during, rfl, hbefore, hidle⟩ := serves_cons h
  have hrun (actions : List Action) :
      run (history ++ before ++ actions) = (before ++ actions).foldl step (run history) := by
    rw [List.append_assoc, run, List.foldl_append, run]
  have hidle' : (run (history ++ before)).control = .idle := by
    rw [← List.append_nil (history ++ before), hrun, List.append_nil]
    exact hidle
  rw [← hrun] at hreturned hi ⊢
  have hlength : (run (history ++ before ++ .call .stop :: during)).listener.adapters.length =
      (run (history ++ before)).listener.adapters.length := by
    rw [run, List.foldl_append, ← run]
    refine length_foldl ?_
    rw [List.filterMap_append, hbefore, List.nil_append] at hcalled
    rw [hcalled]
    decide
  rw [hlength] at hi
  rcases (safe_run (history ++ before)).listed_or_flagged i hi with hlisted | hflag
  · exact flagged_of_call (.inr rfl) hidle' hreturned hlisted
  · rw [run, List.foldl_append, ← run]
    exact hflag.foldl _

/-- The flag of an adapter is up, and it processes no frame but the one it is at, whatever comes. -/
def Final (s : System) (i : ℕ) : Prop :=
  s.Flagged i ∧ ∀ actions, frames i s actions ≤ s.inFlight i

theorem Flagged.final {i : ℕ} (h : s.Flagged i) : s.Final i := ⟨h, h.frames_le⟩

/-- With nothing under way any callbacks can be made. -/
theorem exists_serves (hidle : s.control = .idle) (callbacks : List Callback) :
    ∃ actions, s.serves callbacks actions = true := by
  induction callbacks generalizing s with
  | nil => exact ⟨[], decide_eq_true ⟨rfl, hidle⟩⟩
  | cons c callbacks ih =>
    have hadvance (n : ℕ) (s : System) (rest : List Action) :
        s.serves callbacks (List.replicate n .advance ++ rest) =
          ((List.replicate n .advance).foldl step s).serves callbacks rest := by
      induction n generalizing s with
      | zero => rfl
      | succ n ih => exact ih _
    have hreturned := foldl_advance s.listener c
    obtain ⟨rest, hrest⟩ := ih (s := ⟨c.apply s.listener, .idle⟩) rfl
    refine ⟨.call c :: (List.replicate (s.listener.adapterList.length + 1) .advance ++ rest),
      decide_eq_true ⟨hidle, rfl, ?_⟩⟩
    have hcall : s.step (.call c) = enter s.listener c := by rw [step, hidle]
    rw [List.tail_cons, hadvance, hcall, hreturned]
    exact hrest

end System

variable {serviceFlags : ServiceFlags}

/-! ## What an event does to the listener -/

theorem start_notMem_callbacks (o : Order) : .start ∉ o.callbacks serviceFlags := by
  rw [Order.callbacks]
  split
  · cases o <;> simp [Order.call, Call.callback]
  · exact List.not_mem_nil

/-- The execution of a command creates no adapter. -/
theorem start_notMem_of_serves {s : System} {o : Order} {actions : List Action}
    (h : s.serves (o.callbacks serviceFlags) actions = true) :
    .start ∉ actions.filterMap Action.called := by
  rw [(System.called_of_serves h).1]
  exact start_notMem_callbacks o

namespace World

/-- The callbacks that `OtService` has got. -/
def calls (w : World) : List Callback := w.history.filterMap Action.called

/-- What a step does to the listener, the log and the course of the service. -/
inductive Effect (serviceFlags : ServiceFlags) (w w' : World) : Prop
  /-- Nothing is executed. Threads step, or `exec` returns. -/
  | quiet (actions : List Action) (hcalled : actions.filterMap Action.called = [])
    (hsystem : w'.system = actions.foldl System.step w.system)
    (hidle : w.system.control = .idle → w'.system.control = .idle)
    (hcalls : w'.calls = w.calls) (hlog : w'.log = w.log) (hquitting : w'.quitting = w.quitting)
    (hstarted : w'.started = w.started)
    (hexited : w'.exited = w.exited ∨ w.quitting = true ∧ w'.exited = true)
    (hdestroyed : w'.destroyed = w.destroyed)
  | start (hbefore : w.exited = false ∧ w.started = false)
    (hsystem : w'.system = w.system.step (.call .start)) (hcalls : w'.calls = w.calls ++ [.start])
    (hlog : w'.log = w.log) (hquitting : w'.quitting = w.quitting) (hstarted : w'.started = true)
    (hexited : w'.exited = false) (hdestroyed : w'.destroyed = w.destroyed)
  /-- The command of a client is executed. -/
  | executed (k : ℕ) (o : Order) (actions : List Action) (hbefore : w.exited = false)
    (hserves : w.system.serves (o.callbacks serviceFlags) actions = true)
    (hsystem : w'.system = actions.foldl System.step w.system)
    (hcalls : w'.calls = w.calls ++ o.callbacks serviceFlags)
    (hlog : w'.log = w.log ++ [(k, o.cmd.toList, o.accepted serviceFlags)])
    (hquitting : w'.quitting = (w.quitting || o.stops serviceFlags))
    (hstarted : w'.started = w.started) (hexited : w'.exited = false)
    (hdestroyed : w'.destroyed = w.destroyed)
  /-- The service is destroyed, and the listener stopped once more. -/
  | destroyed (actions : List Action) (hbefore : w.exited = true)
    (hserves : w.system.serves [.stop] actions = true)
    (hsystem : w'.system = actions.foldl System.step w.system) (hcalls : w'.calls = w.calls)
    (hlog : w'.log = w.log) (hquitting : w'.quitting = w.quitting)
    (hstarted : w'.started = w.started) (hexited : w'.exited = true)

variable {w : World}

/-- Only the clients change, or the text at an address. -/
theorem Effect.of_eq {w' : World} (hhistory : w'.history = w.history) (hlog : w'.log = w.log)
    (hquitting : w'.quitting = w.quitting) (hstarted : w'.started = w.started)
    (hending : w'.ending = w.ending) (hdestroyed : w'.destroyed = w.destroyed) :
    Effect serviceFlags w w' := by
  have hsystem : w'.system = w.system := by rw [system, hhistory, hending, system]
  exact .quiet [] rfl hsystem (fun hidle ↦ hsystem ▸ hidle) (by rw [calls, hhistory, calls]) hlog
    hquitting hstarted (.inl (by rw [exited, hending, exited])) hdestroyed

/-- What the listener and the threads do while slots are served. -/
theorem system_history (w : World) (hopen : w.exited = false) (actions : List Action) :
    system { w with history := w.history ++ actions } = actions.foldl System.step w.system := by
  have hnone : w.ending = none := by simpa [exited] using hopen
  rw [system, system]
  dsimp only
  rw [hnone, Option.getD_none, List.append_nil, List.append_nil, System.run, List.foldl_append,
    System.run]

/-- What the threads and the destructor do behind `exec`. -/
theorem system_ending (w : World) {earlier : List Action} (hending : w.ending = some earlier)
    (actions : List Action) :
    system { w with ending := some (earlier ++ actions) } =
      actions.foldl System.step w.system := by
  rw [system, system]
  dsimp only
  rw [hending, Option.getD_some, Option.getD_some, ← List.append_assoc, System.run,
    List.foldl_append, System.run]

theorem calls_history (w : World) (actions : List Action) :
    calls { w with history := w.history ++ actions } =
      w.calls ++ actions.filterMap Action.called := by
  rw [calls, List.filterMap_append, calls]

theorem effect_slotReady (h : w.Inv serviceFlags) {k : ℕ} {c : Client}
    (hk : w.clients[k]? = some c) {s : Address} (hconn : c.conn = .accepted s)
    (hne : c.outgoing ≠ []) (hopen : w.exited = false) (n : ℕ) (actions : List Action) :
    Effect serviceFlags w (w.slotReady serviceFlags k c s n actions) := by
  obtain ⟨front, hfront, hcache, -, -, -⟩ := (h.progress k c hk).conn_accepted hconn hne
  have hsystem := w.system_history hopen actions
  have hcalls := w.calls_history actions
  by_cases hrest : c.outgoing.drop n = []
  · rw [slotReady_whole w hfront hcache hrest]
    split
    · next hserves =>
      rw [(System.called_of_serves hserves).1] at hcalls
      exact .executed k c.order actions hopen hserves hsystem hcalls rfl rfl rfl hopen rfl
    · exact .of_eq rfl rfl rfl rfl rfl rfl
  · rw [slotReady_part w hfront hcache hrest]
    split
    · next hserves =>
      obtain ⟨hcalled, hidle⟩ := System.called_of_serves hserves
      rw [hcalled, List.append_nil] at hcalls
      exact .quiet actions hcalled hsystem (fun _ ↦ hsystem ▸ hidle) hcalls rfl rfl rfl (.inl rfl)
        rfl
    · exact .of_eq rfl rfl rfl rfl rfl rfl

/-- The thread of an adapter steps, before `exec` has returned or after. -/
theorem effect_thread (w : World) (i : ℕ) :
    Effect serviceFlags w (w.step serviceFlags (.thread i)) := by
  rw [step]
  split
  · next hending =>
    have hsystem := w.system_history (by rw [exited, hending]; rfl) [.thread i]
    have hcalls := w.calls_history [.thread i]
    exact .quiet [.thread i] rfl hsystem (fun hidle ↦ hsystem ▸ hidle)
      (hcalls.trans (List.append_nil _)) rfl rfl rfl (.inl rfl) rfl
  · next earlier hending =>
    have hsystem := w.system_ending hending [.thread i]
    refine .quiet [.thread i] rfl hsystem (fun hidle ↦ hsystem ▸ hidle) rfl rfl rfl rfl (.inl ?_)
      rfl
    rw [exited, exited, hending]
    rfl

/-- **One event.** -/
theorem effect_step (h : w.Inv serviceFlags) (e : Event) :
    Effect serviceFlags w (w.step serviceFlags e) := by
  cases e with
  | sendCmd o => exact .of_eq rfl rfl rfl rfl rfl rfl
  | slotStart =>
    rw [step]
    split
    · next hif =>
      exact .start hif (w.system_history hif.1 [.call .start]) (w.calls_history [.call .start]) rfl
        rfl rfl hif.1 rfl
    · exact .of_eq rfl rfl rfl rfl rfl rfl
  | thread i => exact effect_thread w i
  | exit =>
    rw [step]
    split
    · next hif =>
      have hnone : w.ending = none := by simpa [exited] using hif.2
      have hsystem : system { w with ending := some [] } = w.system := by
        rw [system, system, hnone]
        rfl
      exact .quiet [] rfl hsystem (fun hidle ↦ hsystem ▸ hidle) rfl rfl rfl rfl
        (.inr ⟨hif.1, rfl⟩) rfl
    · exact .of_eq rfl rfl rfl rfl rfl rfl
  | destroy actions =>
    rw [step]
    split
    · exact .of_eq rfl rfl rfl rfl rfl rfl
    · next earlier hending =>
      split
      · next hif =>
        exact .destroyed actions (by rw [exited, hending]; rfl) hif.2
          (w.system_ending hending actions) rfl rfl rfl rfl rfl
      · exact .of_eq rfl rfl rfl rfl rfl rfl
  | slotReady k n actions =>
    simp only [step]
    split
    · next c hk =>
      rw [clientStep]
      split
      · next s hconn =>
        split
        · next hif => exact effect_slotReady h hk hconn hif.2.1 hif.1 n actions
        · exact .of_eq rfl rfl rfl rfl rfl rfl
      · exact .of_eq rfl rfl rfl rfl rfl rfl
    · exact .of_eq rfl rfl rfl rfl rfl rfl
  | incomingConnection k | readAll k | disconnected k | kill k | slotClosed k =>
    simp only [step]
    split
    · rw [clientStep]
      split <;> exact .of_eq rfl rfl rfl rfl rfl rfl
    · exact .of_eq rfl rfl rfl rfl rfl rfl

end World

/-! ## Callbacks and commands -/

/-- The callback that an executed command has made. -/
def Entry.callback (serviceFlags : ServiceFlags) (x : Entry) : Option Callback :=
  (execute serviceFlags x.2.1).2.bind Call.callback

theorem callback_entry (o : Order) (k : ℕ) :
    Entry.callback serviceFlags (k, o.cmd.toList, o.accepted serviceFlags) =
      (o.callbacks serviceFlags).head? := by
  rw [Entry.callback, execute_cmd, Order.callbacks]
  cases o.accepted serviceFlags with
  | false => rfl
  | true =>
    rw [if_pos rfl, if_pos rfl]
    cases o.call.bind Call.callback <;> rfl

theorem callbacks_eq (o : Order) :
    o.callbacks serviceFlags = (o.callbacks serviceFlags).head?.toList := by
  rw [Order.callbacks]
  split
  · cases o.call.bind Call.callback <;> rfl
  · rfl

namespace World

/-- The callbacks are those of the executed commands, in order, and at most one start. -/
def Called (serviceFlags : ServiceFlags) (w : World) : Prop :=
  w.calls.filter (· ≠ .start) = w.log.filterMap (Entry.callback serviceFlags) ∧
    w.calls.count .start = if w.started then 1 else 0

theorem Called.effect {w w' : World} (h : w.Called serviceFlags)
    (he : Effect serviceFlags w w') : w'.Called serviceFlags := by
  cases he with
  | quiet _ _ _ _ hcalls hlog _ hstarted | destroyed _ _ _ _ hcalls hlog _ hstarted =>
    rw [Called, hcalls, hlog, hstarted]
    exact h
  | start hbefore _ hcalls hlog _ hstarted =>
    rw [Called, hcalls, List.filter_append, List.count_append, hlog, hstarted, h.1, h.2, hbefore.2]
    exact ⟨List.append_nil _, rfl⟩
  | executed k o actions _ _ _ hcalls hlog _ hstarted =>
    have hfilter : (o.callbacks serviceFlags).filter (· ≠ .start) = o.callbacks serviceFlags :=
      List.filter_eq_self.mpr fun c hc ↦ decide_eq_true fun hstart ↦
        start_notMem_callbacks o (hstart ▸ hc)
    rw [Called, hcalls, List.filter_append, List.count_append, hlog, hstarted,
      List.filterMap_append, h.1, h.2, hfilter, List.count_eq_zero.mpr (start_notMem_callbacks o)]
    refine ⟨congrArg _ ?_, rfl⟩
    rw [List.filterMap_cons, callback_entry, callbacks_eq]
    cases (o.callbacks serviceFlags).head? <;> rfl

theorem called_run (events : List Event) : (run serviceFlags events).Called serviceFlags :=
  (List.foldlRecOn events (World.step serviceFlags)
    (motive := fun w ↦ w.Inv serviceFlags ∧ w.Called serviceFlags) ⟨inv_run [], rfl, rfl⟩
    fun _ h e _ ↦ ⟨h.1.step e, h.2.effect (effect_step h.1 e)⟩).2

end World

/-! ## Stopping -/

namespace World

/-- `OtService::stop` has been called, and `OtService::start` not since. -/
def Stopped (w : World) : Prop := History.Since (· ≠ .start) (fun _ c ↦ c = .stop) w.calls

/-- What holds of the end of the service: `exec` returns only when `quit` has been called, and every
flag is up while the service is stopped, and when it has been destroyed. -/
structure Halts (w : World) : Prop where
  idle : w.system.control = .idle
  exits : w.exited = true → w.quitting = true
  stopped : w.Stopped → ∀ i < w.system.listener.adapters.length, w.system.Flagged i
  destroys : w.destroyed = true →
    w.exited = true ∧ ∀ i < w.system.listener.adapters.length, w.system.Flagged i

/-- Where no adapter is created, what is flagged stays flagged. -/
theorem flagged_foldl {s : System} {actions : List Action}
    (hcalled : .start ∉ actions.filterMap Action.called)
    (h : ∀ i < s.listener.adapters.length, s.Flagged i) :
    ∀ i < (actions.foldl System.step s).listener.adapters.length,
      (actions.foldl System.step s).Flagged i := fun i hi ↦
  (h i (System.length_foldl hcalled ▸ hi)).foldl actions

theorem Halts.effect {w w' : World} (h : w.Halts) (he : Effect serviceFlags w w') : w'.Halts := by
  cases he with
  | quiet actions hcalled hsystem hidle hcalls _ hquitting _ hexited hdestroyed =>
    have hstart : .start ∉ actions.filterMap Action.called := by
      rw [hcalled]
      exact List.not_mem_nil
    refine ⟨hidle h.idle, fun hexit ↦ ?_, fun hstopped ↦ ?_, fun hdes ↦ ⟨?_, ?_⟩⟩
    · rw [hquitting]
      rcases hexited with hsame | ⟨hquit, -⟩
      · exact h.exits (hsame ▸ hexit)
      · exact hquit
    · rw [hsystem]
      rw [Stopped, hcalls] at hstopped
      exact flagged_foldl hstart (h.stopped hstopped)
    · rcases hexited with hsame | ⟨-, hexit⟩
      · exact hsame.trans (h.destroys (hdestroyed ▸ hdes)).1
      · exact hexit
    · rw [hsystem]
      exact flagged_foldl hstart (h.destroys (hdestroyed ▸ hdes)).2
  | start hbefore hsystem hcalls _ _ _ hexited hdestroyed =>
    refine ⟨?_, fun hexit ↦ ?_, fun hstopped ↦ ?_, fun hdes ↦ ?_⟩
    · rw [hsystem, System.step, h.idle]
      rfl
    · cases hexited.symm.trans hexit
    · rw [Stopped, hcalls, History.since_concat] at hstopped
      rcases hstopped with hstop | ⟨hne, -⟩
      · cases hstop
      · exact absurd rfl hne
    · cases hbefore.1.symm.trans (h.destroys (hdestroyed ▸ hdes)).1
  | executed k o actions hbefore hserves hsystem hcalls _ _ _ hexited hdestroyed =>
    have hstart := start_notMem_of_serves hserves
    refine ⟨?_, fun hexit ↦ ?_, fun hstopped ↦ ?_, fun hdes ↦ ?_⟩
    · rw [hsystem]
      exact (System.called_of_serves hserves).2
    · cases hexited.symm.trans hexit
    · rw [hsystem]
      rw [Stopped, hcalls, callbacks_eq] at hstopped
      cases hhead : (o.callbacks serviceFlags).head? with
      | none =>
        rw [hhead, Option.toList_none, List.append_nil] at hstopped
        exact flagged_foldl hstart (h.stopped hstopped)
      | some callback =>
        rw [hhead, Option.toList_some, History.since_concat] at hstopped
        rcases hstopped with rfl | ⟨-, hstopped⟩
        · rw [callbacks_eq, hhead, Option.toList_some] at hserves
          exact fun i hi ↦ System.flagged_of_serves hserves hi
        · exact flagged_foldl hstart (h.stopped hstopped)
    · cases hbefore.symm.trans (h.destroys (hdestroyed ▸ hdes)).1
  | destroyed actions hbefore hserves hsystem hcalls _ hquitting _ hexited =>
    have hflagged : ∀ i < w'.system.listener.adapters.length, w'.system.Flagged i := by
      rw [hsystem]
      exact fun i hi ↦ System.flagged_of_serves hserves hi
    refine ⟨?_, fun _ ↦ ?_, fun _ ↦ hflagged, fun _ ↦ ⟨hexited, hflagged⟩⟩
    · rw [hsystem]
      exact (System.called_of_serves hserves).2
    · rw [hquitting]
      exact h.exits hbefore

theorem halts_run (events : List Event) : (run serviceFlags events).Halts :=
  (List.foldlRecOn events (World.step serviceFlags)
    (motive := fun w ↦ w.Inv serviceFlags ∧ w.Halts)
    ⟨inv_run [], rfl, nofun, fun h ↦ absurd h History.not_since_nil, nofun⟩
    fun _ h e _ ↦ ⟨h.1.step e, h.2.effect (effect_step h.1 e)⟩).2

/-- What may come after a state. An adapter is created only by a start, which comes once and not
after `exec` has returned. -/
structure Follows (w w' : World) : Prop where
  started : w.started = true → w'.started = true
  exited : w.exited = true → w'.exited = true
  calls : w.exited = true → w'.calls = w.calls
  flagged : ∀ i < w.system.listener.adapters.length, i < w'.system.listener.adapters.length ∧
    (w.system.Flagged i → w'.system.Flagged i)
  length : w.started = true ∨ w.exited = true →
    w'.system.listener.adapters.length = w.system.listener.adapters.length

theorem Follows.refl (w : World) : w.Follows w :=
  ⟨id, id, fun _ ↦ rfl, fun _ hi ↦ ⟨hi, id⟩, fun _ ↦ rfl⟩

theorem Follows.trans {w w' w'' : World} (h : w.Follows w') (h' : w'.Follows w'') :
    w.Follows w'' where
  started hstarted := h'.started (h.started hstarted)
  exited hexited := h'.exited (h.exited hexited)
  calls hexited := (h'.calls (h.exited hexited)).trans (h.calls hexited)
  flagged i hi := ⟨(h'.flagged i (h.flagged i hi).1).1, fun hflag ↦
    (h'.flagged i (h.flagged i hi).1).2 ((h.flagged i hi).2 hflag)⟩
  length hclosed := (h'.length (hclosed.imp h.started h.exited)).trans (h.length hclosed)

/-- Actions that create no adapter. -/
theorem Follows.of_foldl {w w' : World} (hstarted : w.started = true → w'.started = true)
    (hexited : w.exited = true → w'.exited = true)
    (hcalls : w.exited = true → w'.calls = w.calls) {actions : List Action}
    (hcalled : .start ∉ actions.filterMap Action.called)
    (hsystem : w'.system = actions.foldl System.step w.system) : w.Follows w' := by
  have hlength : w'.system.listener.adapters.length = w.system.listener.adapters.length := by
    rw [hsystem]
    exact System.length_foldl hcalled
  refine ⟨hstarted, hexited, hcalls, fun i hi ↦ ⟨hlength ▸ hi, fun hflag ↦ ?_⟩, fun _ ↦ hlength⟩
  rw [hsystem]
  exact hflag.foldl actions

theorem Effect.follows {w w' : World} (he : Effect serviceFlags w w') : w.Follows w' := by
  cases he with
  | quiet actions hcalled hsystem _ hcalls _ _ hstarted hexited =>
    refine .of_foldl hstarted.trans (fun hexit ↦ ?_) (fun _ ↦ hcalls) ?_ hsystem
    · rcases hexited with hsame | ⟨-, hexited⟩
      · exact hsame.trans hexit
      · exact hexited
    · rw [hcalled]
      exact List.not_mem_nil
  | start hbefore hsystem _ _ _ hstarted =>
    have hclosed : ¬(w.started = true ∨ w.exited = true) := by
      rw [hbefore.1, hbefore.2]
      decide
    refine ⟨fun _ ↦ hstarted, fun hexit ↦ absurd (.inr hexit) hclosed,
      fun hexit ↦ absurd (.inr hexit) hclosed, fun i hi ↦ ?_, fun h ↦ absurd h hclosed⟩
    rw [hsystem]
    exact ⟨System.lt_length_step hi _, fun hflag ↦ hflag.step _⟩
  | executed k o actions hbefore hserves hsystem _ _ _ hstarted =>
    have hopen : ¬w.exited = true := by rw [hbefore]; decide
    exact .of_foldl hstarted.trans (fun h ↦ absurd h hopen) (fun h ↦ absurd h hopen)
      (start_notMem_of_serves hserves) hsystem
  | destroyed actions hbefore hserves hsystem hcalls _ _ hstarted hexited =>
    refine .of_foldl hstarted.trans (fun _ ↦ hexited) (fun _ ↦ hcalls) ?_ hsystem
    rw [(System.called_of_serves hserves).1]
    decide

theorem follows_run (events later : List Event) :
    (run serviceFlags events).Follows (run serviceFlags (events ++ later)) := by
  induction later using List.reverseRecOn with
  | nil =>
    rw [List.append_nil]
    exact .refl _
  | append_singleton later e ih =>
    have hrun : run serviceFlags (events ++ (later ++ [e])) =
        (run serviceFlags (events ++ later)).step serviceFlags e := by
      rw [← List.append_assoc, run, List.foldl_append]
      rfl
    rw [hrun]
    exact ih.trans (effect_step (inv_run _) e).follows

end World

/-- **Whoever is told that the service has stopped can rely on it.** When a call that sent
`terminate` has returned `true`, `OtService::stop` has been called. Unless `OtService::start` has
been called since, every adapter has its flag up for good and processes no frame but the one it is
at, whatever comes: slots that are served before `exec` returns, the stop of the destructor, and
steps of threads. If `OtService::start` has been called, no adapter is created any more. And when
`exec` has returned, no callback is made any more and no adapter created, and all is final when the
service has been destroyed. -/
theorem stop_returned {events : List World.Event} {k : ℕ} {c : Client}
    (hk : (World.run serviceFlags events).clients[k]? = some c) (horder : c.order = .terminate)
    (hstage : c.stage = .returned true) :
    let w := World.run serviceFlags events
    .stop ∈ w.calls ∧ ∀ later,
      let w' := World.run serviceFlags (events ++ later)
      (w.Stopped → ∀ i < w.system.listener.adapters.length, w'.system.Final i) ∧
      (w.started = true →
        w'.system.listener.adapters.length = w.system.listener.adapters.length) ∧
      (w'.exited = true → ∀ later',
        let w'' := World.run serviceFlags (events ++ later ++ later')
        w''.calls = w'.calls ∧
          w''.system.listener.adapters.length = w'.system.listener.adapters.length) ∧
      (w'.destroyed = true → ∀ i < w'.system.listener.adapters.length, w'.system.Final i) := by
  intro w
  have hhalts : w.Halts := World.halts_run events
  obtain ⟨haccepted, hlog⟩ := ((World.inv_run events).progress k c hk).of_returned_true hstage
  refine ⟨?_, fun later ↦ ?_⟩
  · have hcallback : Entry.callback serviceFlags (k, c.order.cmd.toList, true) = some .stop := by
      rw [← haccepted, callback_entry, Order.callbacks, haccepted, horder]
      rfl
    have hmem : .stop ∈ w.log.filterMap (Entry.callback serviceFlags) :=
      List.mem_filterMap.mpr ⟨_, hlog, hcallback⟩
    rw [← (World.called_run events).1] at hmem
    exact List.mem_of_mem_filter hmem
  · have hfollows : w.Follows (World.run serviceFlags (events ++ later)) :=
      World.follows_run events later
    have hhalts' : (World.run serviceFlags (events ++ later)).Halts := World.halts_run _
    refine ⟨fun hstopped i hi ↦ ?_, fun hstarted ↦ hfollows.length (.inl hstarted),
      fun hexited later' ↦ ?_, fun hdestroyed i hi ↦ ?_⟩
    · exact ((hfollows.flagged i hi).2 (hhalts.stopped hstopped i hi)).final
    · have hfollows' : (World.run serviceFlags (events ++ later)).Follows
          (World.run serviceFlags (events ++ later ++ later')) := World.follows_run _ later'
      exact ⟨hfollows'.calls hexited, hfollows'.length (.inr hexited)⟩
    · exact ((hhalts'.destroys hdestroyed).2 i hi).final

/-- A command in two portions, and a thread that steps while it is executed and once more behind
the destructor. -/
theorem stop_returned_two :
    let events : List World.Event := [.slotStart, .sendCmd .terminate, .incomingConnection 0 7,
      .slotReady 0 4 [], .slotReady 0 7 [.call .stop, .thread 0, .advance, .advance], .readAll 0 4]
    let later : List World.Event := [.exit, .destroy [.call .stop, .thread 0, .advance], .thread 0]
    let w' := World.run ⟨true, false⟩ (events ++ later)
    (World.run ⟨true, false⟩ events).calls = [.start, .stop] ∧ w'.destroyed = true ∧
      w'.system.Final 0 ∧ w'.system.listener.adapters.length = 1 := by
  intro events later w'
  have hclient : (World.run ⟨true, false⟩ events).clients[0]? =
      some ⟨.terminate, .returned true, .accepted 7, [], retString true⟩ := by decide +kernel
  have hcalls : (World.run ⟨true, false⟩ events).calls = [.start, .stop] := by decide +kernel
  have hone : (World.run ⟨true, false⟩ events).system.listener.adapters.length = 1 := by
    decide +kernel
  have hstopped : (World.run ⟨true, false⟩ events).Stopped :=
    ⟨[.start], .stop, [], hcalls, rfl, List.forall_mem_nil _⟩
  obtain ⟨hfinal, hlength, -, -⟩ := (stop_returned hclient rfl rfl).2 later
  exact ⟨hcalls, by decide +kernel, hfinal hstopped 0 (by rw [hone]; decide),
    (hlength (by decide +kernel)).trans hone⟩

/-! ## Counting -/

/-- What the listener has got on behalf of one client. -/
theorem Progress.countP_entries {cache : Address → List Char} {log : List Entry} {k : ℕ}
    {c : Client} (h : Progress serviceFlags cache log k c) (callback : Callback) :
    (entries log k).countP (fun x ↦ x.callback serviceFlags == some callback) =
      if c.order.callbacks serviceFlags = [callback] then (entries log k).length else 0 := by
  rcases h.entries_eq with hlog | hlog
  · rw [hlog]
    exact (ite_self _).symm
  · rw [hlog, List.countP_singleton, callback_entry, callbacks_eq]
    cases (c.order.callbacks serviceFlags).head? with
    | none => rfl
    | some callback' => simp

/-- A log is what it holds for each client. -/
theorem countP_eq_sum_entries (p : Entry → Bool) {log : List Entry} {m : ℕ}
    (h : ∀ x ∈ log, x.1 < m) :
    log.countP p = ∑ k ∈ Finset.range m, (entries log k).countP p := by
  induction log with
  | nil => exact (Finset.sum_eq_zero fun _ _ ↦ rfl).symm
  | cons x log ih =>
    rw [List.forall_mem_cons] at h
    have hcons (k : ℕ) : (entries (x :: log) k).countP p =
        (entries log k).countP p + if x.1 = k then (if p x then 1 else 0) else 0 := by
      rw [entries, List.filter_cons]
      by_cases hk : x.1 = k
      · rw [if_pos (decide_eq_true hk), if_pos hk, List.countP_cons, entries]
      · rw [if_neg (by simpa using hk), if_neg hk, entries, Nat.add_zero]
    rw [List.countP_cons, ih h.2, Finset.sum_congr rfl fun k _ ↦ hcons k, Finset.sum_add_distrib,
      Finset.sum_ite_eq, if_pos (Finset.mem_range.mpr h.1)]

theorem countP_eq_sum_getElem? {α : Type*} (p : α → Bool) (l : List α) :
    l.countP p = ∑ k ∈ Finset.range l.length, if l[k]?.any p then 1 else 0 := by
  induction l using List.reverseRecOn with
  | nil => rfl
  | append_singleton l a ih =>
    rw [List.countP_append, List.length_append, List.length_singleton, Finset.sum_range_succ, ih]
    congr 1
    · refine Finset.sum_congr rfl fun k hk ↦ ?_
      rw [List.getElem?_append_left (Finset.mem_range.mp hk)]
    · rw [List.getElem?_append_right le_rfl, Nat.sub_self]
      exact List.countP_singleton

/-- **No callback is lost, and none is made twice.** In every run the service is started at most
once. It gets each other callback at least as often as controllers have been told that it has, and
at most as often as they have asked for it. -/
theorem calls_count (serviceFlags : ServiceFlags) (events : List World.Event) :
    let w := World.run serviceFlags events
    w.calls.count .start ≤ 1 ∧ ∀ callback ≠ Callback.start,
      w.clients.countP (fun c ↦ c.stage = .returned true ∧
        c.order.callbacks serviceFlags = [callback]) ≤ w.calls.count callback ∧
      w.calls.count callback ≤
        w.clients.countP fun c ↦ c.order.callbacks serviceFlags = [callback] := by
  intro w
  have hinv : w.Inv serviceFlags := World.inv_run events
  obtain ⟨hcalls, hstart⟩ : w.Called serviceFlags := World.called_run events
  refine ⟨by rw [hstart]; split <;> decide, fun callback hne ↦ ?_⟩
  have hcount : w.calls.count callback =
      ∑ k ∈ Finset.range w.clients.length, (entries w.log k).countP
        fun x ↦ x.callback serviceFlags == some callback := by
    rw [← countP_eq_sum_entries _ hinv.known, ← List.count_filterMap, ← hcalls,
      List.count_filter (by simpa using hne)]
  rw [hcount, countP_eq_sum_getElem?, countP_eq_sum_getElem?]
  constructor
  · refine Finset.sum_le_sum fun k hk ↦ ?_
    have hc := List.getElem?_eq_getElem (Finset.mem_range.mp hk)
    have hprogress := hinv.progress k _ hc
    rw [hprogress.countP_entries, hc, Option.any_some]
    split
    · next hif =>
      obtain ⟨hstage, hcallbacks⟩ := of_decide_eq_true hif
      rw [if_pos hcallbacks]
      exact List.length_pos_of_mem (List.mem_filter.mpr
        ⟨(hprogress.of_returned_true hstage).2, decide_eq_true rfl⟩)
    · exact Nat.zero_le _
  · refine Finset.sum_le_sum fun k hk ↦ ?_
    have hc := List.getElem?_eq_getElem (Finset.mem_range.mp hk)
    have hprogress := hinv.progress k _ hc
    rw [hprogress.countP_entries, hc, Option.any_some]
    split
    · next hif =>
      rw [if_pos (decide_eq_true hif)]
      exact hprogress.length_entries_le
    · exact Nat.zero_le _

/-! ## No call is stuck -/

namespace World

variable {w : World} {k : ℕ} {c : Client}

variable (serviceFlags) in
/-- The client reads the answer. -/
theorem exists_returned_of_incoming (hk : w.clients[k]? = some c) (hstage : c.stage = .waiting)
    {retValue : Bool} (hincoming : c.incoming = retString retValue) :
    ∃ later : List Event, (later.foldl (World.step serviceFlags) w).clients[k]?.map Client.stage =
      some (.returned retValue) := by
  have hne : c.incoming ≠ [] := by
    rw [hincoming]
    cases retValue <;> exact List.cons_ne_nil _ _
  have hreply : decide (SysPrivate.readAll c.incoming = "true".toList) = retValue := by
    rw [hincoming, Bool.eq_iff_iff, decide_eq_true_iff, readAll_retString_iff]
  refine ⟨[.readAll k c.incoming.length], ?_⟩
  rw [List.foldl_cons, List.foldl_nil, World.step]
  simp only [hk]
  rw [clientStep, if_pos ⟨hstage, hne, List.length_pos_iff.mpr hne⟩, List.take_length]
  dsimp only
  rw [hreply, List.getElem?_set_self (List.getElem?_eq_some_iff.mp hk).1]
  rfl

/-- The service reads the rest of the command. -/
theorem exists_returned_of_accepted (hinv : w.Inv serviceFlags) (hhalts : w.Halts)
    (hk : w.clients[k]? = some c) (hstage : c.stage = .waiting) (hopen : w.exited = false)
    {s : Address} (hconn : c.conn = .accepted s) (hne : c.outgoing ≠ []) :
    ∃ later : List Event, (later.foldl (World.step serviceFlags) w).clients[k]?.map Client.stage =
      some (.returned (c.order.accepted serviceFlags)) := by
  obtain ⟨front, hfront, hcache, hincoming, -, -⟩ :=
    (hinv.progress k c hk).conn_accepted hconn hne
  obtain ⟨actions, hserves⟩ :=
    System.exists_serves hhalts.idle (c.order.callbacks serviceFlags)
  have hstep : w.step serviceFlags (.slotReady k c.outgoing.length actions) =
      w.slotReady serviceFlags k c s c.outgoing.length actions := by
    rw [World.step]
    simp only [hk]
    rw [clientStep, hconn]
    exact if_pos ⟨hopen, hne, List.length_pos_iff.mpr hne⟩
  rw [slotReady_whole w hfront hcache List.drop_length, if_pos hserves] at hstep
  have hk' : (w.step serviceFlags (.slotReady k c.outgoing.length actions)).clients[k]? =
      some { c with
        outgoing := []
        incoming := c.incoming ++ retString (c.order.accepted serviceFlags) } := by
    rw [hstep]
    exact List.getElem?_set_self (List.getElem?_eq_some_iff.mp hk).1
  obtain ⟨later, hlater⟩ := exists_returned_of_incoming serviceFlags hk' hstage
    (by rw [hincoming]; rfl)
  exact ⟨.slotReady k c.outgoing.length actions :: later, hlater⟩

/-- There is an address that no socket has. -/
theorem exists_free (clients : List Client) :
    ∃ s : Address, ∀ c ∈ clients, c.conn ≠ .accepted s := by
  have haddress (c : Client) : ∃ n : ℕ, ∀ s, c.conn = .accepted s → s < n := by
    cases c.conn with
    | pending => exact ⟨0, fun _ h ↦ by cases h⟩
    | accepted s => exact ⟨s + 1, fun _ h ↦ by cases h; exact Nat.lt_succ_self s⟩
    | closed => exact ⟨0, fun _ h ↦ by cases h⟩
  choose bound hbound using haddress
  refine ⟨(clients.map bound).sum, fun c hc hconn ↦ ?_⟩
  have hle : bound c ≤ (clients.map bound).sum := List.le_sum_of_mem (List.mem_map_of_mem hc)
  exact absurd (hbound c _ hconn) (not_lt.mpr hle)

end World

/-- **No call of `sendCmd` is stuck.** While `quit` has not been called, there is a way to go on in
which a call that waits returns what the service has to say to its command. -/
theorem sendCmd_answerable {events : List World.Event} {k : ℕ} {c : Client}
    (hk : (World.run serviceFlags events).clients[k]? = some c) (hstage : c.stage = .waiting)
    (hquitting : (World.run serviceFlags events).quitting = false) :
    ∃ later, (World.run serviceFlags (events ++ later)).clients[k]?.map Client.stage =
      some (.returned (c.order.accepted serviceFlags)) := by
  have hinv : (World.run serviceFlags events).Inv serviceFlags := World.inv_run events
  have hhalts : (World.run serviceFlags events).Halts := World.halts_run events
  have hopen : (World.run serviceFlags events).exited = false := Bool.eq_false_iff.mpr fun hexited ↦
    Bool.false_ne_true (hquitting.symm.trans (hhalts.exits hexited))
  suffices ∃ later : List World.Event, (later.foldl (World.step serviceFlags)
      (World.run serviceFlags events)).clients[k]?.map Client.stage =
        some (.returned (c.order.accepted serviceFlags)) by
    obtain ⟨later, hlater⟩ := this
    exact ⟨later, by rwa [World.run, List.foldl_append]⟩
  cases hinv.progress k c hk with
  | unread hconn houtgoing =>
    obtain ⟨s, hfree⟩ := World.exists_free (World.run serviceFlags events).clients
    have hstep : (World.run serviceFlags events).step serviceFlags (.incomingConnection k s) =
        { World.run serviceFlags events with
          clients := (World.run serviceFlags events).clients.set k
            { c with conn := .accepted s } } := by
      rw [World.step]
      simp only [hk]
      rw [World.clientStep, if_pos ⟨hopen, hconn, hfree⟩]
    have hk' : ((World.run serviceFlags events).step serviceFlags
        (.incomingConnection k s)).clients[k]? = some { c with conn := .accepted s } := by
      rw [hstep]
      exact List.getElem?_set_self (List.getElem?_eq_some_iff.mp hk).1
    obtain ⟨later, hlater⟩ := World.exists_returned_of_accepted (hinv.step _)
      (hhalts.effect (World.effect_step hinv _)) hk' hstage (by rw [hstep]; exact hopen) rfl
      (houtgoing.trans_ne (written_ne_nil c.order))
    exact ⟨.incomingConnection k s :: later, hlater⟩
  | reading s front hconn _ hne =>
    exact World.exists_returned_of_accepted hinv hhalts hk hstage hopen hconn hne
  | executed _ _ _ hincoming =>
    exact World.exists_returned_of_incoming serviceFlags hk hstage hincoming

/-- A client whose command has been read in part. -/
theorem sendCmd_answerable_pause :
    ∃ later, (World.run ⟨true, false⟩ ([.sendCmd .pause, .incomingConnection 0 7,
      .slotReady 0 4 []] ++ later)).clients[0]?.map Client.stage = some (.returned true) := by
  have hclient : (World.run ⟨true, false⟩ [.sendCmd .pause, .incomingConnection 0 7,
      .slotReady 0 4 []]).clients[0]? =
        some ⟨.pause, .waiting, .accepted 7, (written .pause).drop 4, []⟩ := by decide +kernel
  exact sendCmd_answerable hclient rfl (by decide +kernel)

end Service

end OtTcpListener
