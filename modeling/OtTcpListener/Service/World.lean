import OtTcpListener.Service.Controller
import OtTcpListener.Service.Stop

/-!
# Controllers and the service together

Any number of controllers call `sendCmd` at once. The bytes of a connection arrive in portions in
both directions, a controller may be killed at any time, the threads of the adapters step while a
callback is under way, and the service may give the address of a deleted socket to a later one. So a
run is a sequence of events (`World.Event`), in any order.

`quit` does not end the event loop at once: slots that are pending when it is called may still be
served, until `exec` returns. Then `main` destroys the service, and `~OtService` stops the listener
once more before it deletes it with its adapters.

What a controller is told is true: when `sendCmd` returns `true`, the service has executed the
command, once, and has accepted it (`sendCmd_executed`). It is not the whole truth. An answer may
arrive in two portions, and `sendCmd` reads only the first, so a command may have been accepted
though the controller was told otherwise.

## The invariant

A call of `sendCmd` goes through three states (`Progress`): the service has not accepted the
connection, it has read a part of the command, or it has executed the command. The text kept for an
address is what has been read of the command on the connection that is open there, and it is empty
when there is none. That is what makes it harmless that such texts are never removed.
-/

namespace OtTcpListener

namespace Service

/-! ## States -/

/-- How far a call of `sendCmd` is. -/
inductive Stage where
  /-- In `waitForReadyRead`. -/
  | waiting
  | returned (retValue : Bool)
  /-- The process has ended. -/
  | killed
  deriving DecidableEq

/-- The end of a connection at the service. -/
inductive Conn where
  /-- Not accepted yet. -/
  | pending
  /-- With the `QTcpSocket` at an address. -/
  | accepted (s : Address)
  /-- The socket has been deleted. -/
  | closed
  deriving DecidableEq

/-- A call of `sendCmd` that has connected and written its command. -/
structure Client where
  order : Order
  stage : Stage
  conn : Conn
  /-- What has been written and not been read by the service. -/
  outgoing : Bytes
  /-- What the service has answered. -/
  incoming : Bytes
  deriving DecidableEq

/-- The callback of `OtService` that a call ends in. Codes are left to the default of
`processCommand`, which does nothing. -/
def Call.callback : Call → Option Callback
  | .stop => some .stop
  | .pause => some .pause
  | .resume => some .resume
  | .processCommand _ => none

/-- Whether actions make the callbacks one after the other, each from its call to its return. Steps
of threads may come anywhere. -/
def System.serves : System → List Callback → List Action → Bool
  | s, callbacks, [] => callbacks = [] ∧ s.control = .idle
  | s, callbacks, .call c :: actions =>
    s.control = .idle ∧ callbacks.head? = some c ∧
      (s.step (.call c)).serves callbacks.tail actions = true
  | s, callbacks, e :: actions => (s.step e).serves callbacks actions

/-- An executed command: the call it came from, the command, and the answer. -/
abbrev Entry := ℕ × List Char × Bool

structure World where
  sys : SysPrivate
  /-- `quit` has been called. -/
  quitting : Bool
  clients : List Client
  /-- The timer of the starter has fired. -/
  started : Bool
  /-- What the listener and the threads have done while slots were served. -/
  history : List Action
  log : List Entry
  /-- What they have done since `exec` returned, if it has. -/
  ending : Option (List Action)
  /-- `~OtService` has stopped the listener. The destructors it then runs raise flags that are up
  already, and `~QThread` ends the process if a thread still runs. -/
  destroyed : Bool

namespace World

/-- At the start of the event loop. -/
def init : World := ⟨.empty, false, [], false, [], [], none, false⟩

/-- `exec` has returned: no slot is served any more. -/
def exited (w : World) : Bool := w.ending.isSome

/-- The listener and the callback that is under way. -/
def system (w : World) : System := System.run (w.history ++ w.ending.getD [])

variable (serviceFlags : ServiceFlags)

/-- `slotReady`, when `n` bytes have arrived from a client at the socket at an address. The
callbacks in it take the given actions. -/
def slotReady (w : World) (k : ℕ) (c : Client) (s : Address) (n : ℕ) (actions : List Action) :
    World :=
  let cmds := (readyLoop (w.sys.cache s ++ SysPrivate.readAll (c.outgoing.take n))).1
  let results := cmds.map fun cmd ↦ (cmd, execute serviceFlags cmd)
  if w.system.serves (results.filterMap fun r ↦ r.2.2.bind Call.callback) actions = true then
    { w with
      sys := w.sys.slotReady s (c.outgoing.take n)
      quitting := w.quitting || results.any fun r ↦ r.2.2 = some .stop
      clients := w.clients.set k
        { c with
          outgoing := c.outgoing.drop n
          incoming := c.incoming ++ results.flatMap fun r ↦ retString r.2.1 }
      history := w.history ++ actions
      log := w.log ++ results.map fun r ↦ (k, r.1, r.2.1) }
  else w

inductive Event where
  /-- A call of `sendCmd` connects and writes its command. -/
  | sendCmd (o : Order)
  /-- `incomingConnection`: the socket gets an address that no other one has. -/
  | incomingConnection (k : ℕ) (s : Address)
  /-- `n` bytes arrive at the service. -/
  | slotReady (k n : ℕ) (actions : List Action)
  /-- `n` bytes of the answer arrive at the client, which compares them with `true`. -/
  | readAll (k n : ℕ)
  /-- The service has ended, and the client reads nothing. -/
  | disconnected (k : ℕ)
  | kill (k : ℕ)
  /-- `slotClosed`, and the deletion of the socket. -/
  | slotClosed (k : ℕ)
  /-- The timer of the starter fires, which it does once. -/
  | slotStart
  /-- The thread of an adapter makes a step. -/
  | thread (i : ℕ)
  /-- `exec` returns, some time after `quit` has been called. -/
  | exit
  /-- `~OtService`, with the actions of its `OtListener::stop`. -/
  | destroy (actions : List Action)

/-- A step, from the client that it is about. An event that is not possible changes nothing. -/
def clientStep (w : World) (k : ℕ) (c : Client) : Event → World
  | .incomingConnection _ s =>
    if w.exited = false ∧ c.conn = .pending ∧ ∀ c' ∈ w.clients, c'.conn ≠ .accepted s then
      { w with clients := w.clients.set k { c with conn := .accepted s } }
    else w
  | .slotReady _ n actions =>
    match c.conn with
    | .accepted s =>
      if w.exited = false ∧ c.outgoing ≠ [] ∧ 0 < n then
        w.slotReady serviceFlags k c s n actions
      else w
    | _ => w
  | .readAll _ n =>
    if c.stage = .waiting ∧ c.incoming ≠ [] ∧ 0 < n then
      let reply := SysPrivate.readAll (c.incoming.take n)
      { w with clients := w.clients.set k { c with stage := .returned (reply = "true".toList) } }
    else w
  | .disconnected _ =>
    if w.exited = true ∧ c.stage = .waiting ∧ c.incoming = [] then
      { w with clients := w.clients.set k { c with stage := .returned false } }
    else w
  | .kill _ =>
    if c.stage = .waiting then
      { w with clients := w.clients.set k { c with stage := .killed } }
    else w
  | .slotClosed _ =>
    -- what has been written arrives before the end of the connection does
    if w.exited = false ∧ c.conn ≠ .pending ∧ c.stage ≠ .waiting ∧ c.outgoing = [] then
      { w with clients := w.clients.set k { c with conn := .closed } }
    else w
  | _ => w

def step (w : World) (e : Event) : World :=
  match e with
  | .sendCmd o => { w with clients := w.clients ++ [⟨o, .waiting, .pending, written o, []⟩] }
  | .slotStart =>
    if w.exited = false ∧ w.started = false then
      { w with started := true, history := w.history ++ [.call .start] }
    else w
  | .thread i =>
    match w.ending with
    | none => { w with history := w.history ++ [.thread i] }
    | some earlier => { w with ending := some (earlier ++ [.thread i]) }
  | .exit =>
    if w.quitting = true ∧ w.exited = false then { w with ending := some [] } else w
  | .destroy actions =>
    match w.ending with
    | none => w
    | some earlier =>
      if w.destroyed = false ∧ w.system.serves [.stop] actions = true then
        { w with ending := some (earlier ++ actions), destroyed := true }
      else w
  | .incomingConnection k _ | .slotReady k _ _ | .readAll k _ | .disconnected k | .kill k
  | .slotClosed k =>
    match w.clients[k]? with
    | some c => w.clientStep serviceFlags k c e
    | none => w

/-- A run. -/
def run (events : List Event) : World := events.foldl (step serviceFlags) init

end World

/-! ## The invariant -/

/-- The commands executed for a client. -/
def entries (log : List Entry) (k : ℕ) : List Entry := log.filter (·.1 = k)

theorem entries_append_of_ne {log new : List Entry} {k : ℕ} (h : ∀ x ∈ new, x.1 ≠ k) :
    entries (log ++ new) k = entries log k := by
  have hnone : new.filter (·.1 = k) = [] :=
    List.filter_eq_nil_iff.mpr fun x hx ↦ by simpa using h x hx
  rw [entries, List.filter_append, hnone, List.append_nil, entries]

/-- The state of a call of `sendCmd`, with the text kept for the address of its socket. -/
inductive Progress (serviceFlags : ServiceFlags) (cache : Address → List Char) (log : List Entry)
    (k : ℕ) (c : Client) : Prop
  | unread (hconn : c.conn = .pending) (houtgoing : c.outgoing = written c.order)
    (hincoming : c.incoming = []) (hstage : c.stage ≠ .returned true) (hlog : entries log k = [])
  | reading (s : Address) (front : Bytes) (hconn : c.conn = .accepted s)
    (houtgoing : front ++ c.outgoing = written c.order) (hne : c.outgoing ≠ [])
    (hcache : cache s = chars front) (hincoming : c.incoming = [])
    (hstage : c.stage ≠ .returned true) (hlog : entries log k = [])
  | executed (hconn : c.conn ≠ .pending) (houtgoing : c.outgoing = [])
    (hcache : ∀ s, c.conn = .accepted s → cache s = [])
    (hincoming : c.incoming = retString (c.order.accepted serviceFlags))
    (hstage : c.stage = .returned true → c.order.accepted serviceFlags = true)
    (hlog : entries log k = [(k, c.order.cmd.toList, c.order.accepted serviceFlags)])

namespace World

/-- What holds of every reachable state. -/
structure Inv (serviceFlags : ServiceFlags) (w : World) : Prop where
  progress : ∀ k c, w.clients[k]? = some c → Progress serviceFlags w.sys.cache w.log k c
  distinct : ∀ (k k' : ℕ) (c c' : Client) (s : Address), w.clients[k]? = some c →
    w.clients[k']? = some c' → c.conn = .accepted s → c'.conn = .accepted s → k = k'
  free : ∀ s, (∀ c ∈ w.clients, c.conn ≠ .accepted s) → w.sys.cache s = []
  known : ∀ x ∈ w.log, x.1 < w.clients.length

end World

variable {serviceFlags : ServiceFlags}

/-- What a call has been through is its own. -/
theorem Progress.congr {cache cache' : Address → List Char} {log log' : List Entry} {k : ℕ}
    {c : Client} (h : Progress serviceFlags cache log k c)
    (hcache : ∀ s, c.conn = .accepted s → cache' s = cache s)
    (hlog : entries log' k = entries log k) : Progress serviceFlags cache' log' k c := by
  cases h with
  | unread hconn houtgoing hincoming hstage hempty =>
    exact .unread hconn houtgoing hincoming hstage (hlog.trans hempty)
  | reading s front hconn houtgoing hne htext hincoming hstage hempty =>
    exact .reading s front hconn houtgoing hne ((hcache s hconn).trans htext) hincoming hstage
      (hlog.trans hempty)
  | executed hconn houtgoing htext hincoming hstage hentry =>
    exact .executed hconn houtgoing (fun s hs ↦ (hcache s hs).trans (htext s hs)) hincoming hstage
      (hlog.trans hentry)

/-- A client may stop waiting, told `true` only if its command has been accepted. -/
theorem Progress.setStage {cache : Address → List Char} {log : List Entry} {k : ℕ} {c : Client}
    (h : Progress serviceFlags cache log k c) {stage : Stage}
    (hstage : stage = .returned true →
      c.incoming ≠ [] ∧ (c.incoming = retString (c.order.accepted serviceFlags) →
        c.order.accepted serviceFlags = true)) :
    Progress serviceFlags cache log k { c with stage := stage } := by
  cases h with
  | unread hconn houtgoing hincoming _ hempty =>
    exact .unread hconn houtgoing hincoming (fun h ↦ (hstage h).1 hincoming) hempty
  | reading s front hconn houtgoing hne htext hincoming _ hempty =>
    exact .reading s front hconn houtgoing hne htext hincoming (fun h ↦ (hstage h).1 hincoming)
      hempty
  | executed hconn houtgoing htext hincoming _ hentry =>
    exact .executed hconn houtgoing htext hincoming (fun h ↦ (hstage h).2 hincoming) hentry

/-- The text at the address of a socket is what has been read of the command. -/
theorem Progress.conn_accepted {cache : Address → List Char} {log : List Entry} {k : ℕ} {c : Client}
    (h : Progress serviceFlags cache log k c) {s : Address} (hconn : c.conn = .accepted s)
    (hne : c.outgoing ≠ []) :
    ∃ front, front ++ c.outgoing = written c.order ∧ cache s = chars front ∧ c.incoming = [] ∧
      c.stage ≠ .returned true ∧ entries log k = [] := by
  cases h with
  | unread hpending => cases hpending.symm.trans hconn
  | reading s' front hconn' houtgoing _ htext hincoming hstage hempty =>
    obtain rfl := Conn.accepted.inj (hconn'.symm.trans hconn)
    exact ⟨front, houtgoing, htext, hincoming, hstage, hempty⟩
  | executed _ houtgoing => exact absurd houtgoing hne

/-- At most one command has been executed. -/
theorem Progress.entries_eq {cache : Address → List Char} {log : List Entry} {k : ℕ} {c : Client}
    (h : Progress serviceFlags cache log k c) : entries log k = [] ∨
      entries log k = [(k, c.order.cmd.toList, c.order.accepted serviceFlags)] := by
  cases h with
  | unread _ _ _ _ hlog => exact .inl hlog
  | reading _ _ _ _ _ _ _ _ hlog => exact .inl hlog
  | executed _ _ _ _ _ hlog => exact .inr hlog

theorem Progress.length_entries_le {cache : Address → List Char} {log : List Entry} {k : ℕ}
    {c : Client} (h : Progress serviceFlags cache log k c) : (entries log k).length ≤ 1 := by
  rcases h.entries_eq with hlog | hlog <;> simp [hlog]

/-- A client that has been told `true`. -/
theorem Progress.of_returned_true {cache : Address → List Char} {log : List Entry} {k : ℕ}
    {c : Client} (h : Progress serviceFlags cache log k c) (hstage : c.stage = .returned true) :
    c.order.accepted serviceFlags = true ∧ (k, c.order.cmd.toList, true) ∈ log := by
  cases h with
  | unread _ _ _ hne => exact absurd hstage hne
  | reading _ _ _ _ _ _ _ hne => exact absurd hstage hne
  | executed _ _ _ _ haccepted hlog =>
    have hentry : (k, c.order.cmd.toList, c.order.accepted serviceFlags) ∈ entries log k := by
      rw [hlog]
      exact List.mem_singleton_self _
    rw [haccepted hstage] at hentry
    exact ⟨haccepted hstage, List.mem_of_mem_filter hentry⟩

/-! ## What `slotReady` does -/

theorem written_ne_nil (o : Order) : written o ≠ [] := by
  intro h
  have hchars := (written_spec o).2
  rw [h] at hchars
  exact List.append_ne_nil_of_right_ne_nil _ (List.cons_ne_nil _ _) hchars.symm

/-- The callback that an order makes, if any. -/
def Order.callbacks (serviceFlags : ServiceFlags) (o : Order) : List Callback :=
  if o.accepted serviceFlags then (o.call.bind Call.callback).toList else []

/-- Whether an order ends the service. -/
def Order.stops (serviceFlags : ServiceFlags) (o : Order) : Bool :=
  o.accepted serviceFlags && (o.call = some .stop)

namespace World

variable (w : World) {k n : ℕ} {c : Client} {s : Address} {front : Bytes}

/-- A part of a command is kept. -/
theorem slotReady_part (h : front ++ c.outgoing = written c.order)
    (hcache : w.sys.cache s = chars front) (hrest : c.outgoing.drop n ≠ [])
    (actions : List Action) : w.slotReady serviceFlags k c s n actions =
      if w.system.serves [] actions = true then
        { w with
          sys := ⟨Function.update w.sys.cache s (chars (front ++ c.outgoing.take n)), w.sys.log⟩
          clients := w.clients.set k { c with outgoing := c.outgoing.drop n }
          history := w.history ++ actions }
      else w := by
  have htext : w.sys.cache s ++ SysPrivate.readAll (c.outgoing.take n) =
      chars (front ++ c.outgoing.take n) := by
    rw [hcache]
    exact chars_append_readAll (c.outgoing.drop n) (by rwa [List.take_append_drop])
  have hloop : readyLoop (chars (front ++ c.outgoing.take n)) =
      ([], chars (front ++ c.outgoing.take n)) :=
    readyLoop_of_append (by rwa [List.append_assoc, List.take_append_drop]) hrest
  rw [slotReady, SysPrivate.slotReady, htext, hloop]
  simp only [List.map_nil, List.filterMap_nil, List.any_nil, Bool.or_false, List.flatMap_nil,
    List.append_nil]

/-- A whole command is executed. -/
theorem slotReady_whole (h : front ++ c.outgoing = written c.order)
    (hcache : w.sys.cache s = chars front) (hrest : c.outgoing.drop n = [])
    (actions : List Action) : w.slotReady serviceFlags k c s n actions =
      if w.system.serves (c.order.callbacks serviceFlags) actions = true then
        { w with
          sys := ⟨Function.update w.sys.cache s [], w.sys.log ++ [(s, c.order.cmd.toList)]⟩
          quitting := w.quitting || c.order.stops serviceFlags
          clients := w.clients.set k
            { c with
              outgoing := []
              incoming := c.incoming ++ retString (c.order.accepted serviceFlags) }
          history := w.history ++ actions
          log := w.log ++ [(k, c.order.cmd.toList, c.order.accepted serviceFlags)] }
      else w := by
  have htext :
      w.sys.cache s ++ SysPrivate.readAll (c.outgoing.take n) = chars (written c.order) := by
    rw [hcache, List.take_of_length_le (List.drop_eq_nil_iff.mp hrest), ← h]
    exact chars_append_readAll [] (by rwa [List.append_nil])
  rw [slotReady, SysPrivate.slotReady, htext, readyLoop_written, hrest]
  simp only [List.map_cons, List.map_nil, List.flatMap_cons, List.flatMap_nil, List.append_nil,
    List.any_cons, List.any_nil, Bool.or_false, List.filterMap_cons, List.filterMap_nil,
    execute_cmd]
  cases haccepted : c.order.accepted serviceFlags with
  | false => simp [Order.callbacks, Order.stops, haccepted]
  | true =>
    simp only [Order.callbacks, Order.stops, haccepted, if_true, Bool.true_and]
    cases c.order.call.bind Call.callback <;> rfl

end World

/-! ## Preservation -/

namespace World

/-- A change of one client. -/
theorem Inv.set {w w' : World} (h : w.Inv serviceFlags) {k : ℕ} {c c' : Client}
    (hk : w.clients[k]? = some c) (hclients : w'.clients = w.clients.set k c')
    (hcache : ∀ s, c.conn ≠ .accepted s → w'.sys.cache s = w.sys.cache s)
    (hleft : ∀ s, c.conn = .accepted s → c'.conn = .accepted s ∨ w'.sys.cache s = [])
    (htaken : ∀ s, c'.conn = .accepted s →
      c.conn = .accepted s ∨ ∀ d ∈ w.clients, d.conn ≠ .accepted s)
    {new : List Entry} (hlog : w'.log = w.log ++ new) (hnew : ∀ x ∈ new, x.1 = k)
    (hprogress : Progress serviceFlags w'.sys.cache w'.log k c') : w'.Inv serviceFlags := by
  have hlt : k < w.clients.length := (List.getElem?_eq_some_iff.mp hk).1
  have hself : w'.clients[k]? = some c' := by rw [hclients, List.getElem?_set_self hlt]
  have hother {j : ℕ} (hj : j ≠ k) : w'.clients[j]? = w.clients[j]? := by
    rw [hclients, List.getElem?_set_ne hj.symm]
  -- another client has neither the old address of this one nor the new one
  have happart {j : ℕ} {d : Client} (hj : j ≠ k) (hd : w.clients[j]? = some d) {s : Address}
      (hs : d.conn = .accepted s) : c.conn ≠ .accepted s ∧ c'.conn ≠ .accepted s := by
    have hold : c.conn ≠ .accepted s := fun hc ↦ hj (h.distinct j k d c s hd hk hs hc)
    refine ⟨hold, fun hc ↦ ?_⟩
    rcases htaken s hc with hc | hfree
    · exact hold hc
    · exact hfree d (List.mem_of_getElem? hd) hs
  refine ⟨fun j d hd ↦ ?_, fun j j' d d' s hd hd' hs hs' ↦ ?_, fun s hs ↦ ?_, fun x hx ↦ ?_⟩
  · by_cases hj : j = k
    · rw [hj] at hd ⊢
      obtain rfl := Option.some.inj (hself.symm.trans hd)
      exact hprogress
    · rw [hother hj] at hd
      refine (h.progress j d hd).congr (fun s hs ↦ hcache s (happart hj hd hs).1) ?_
      rw [hlog, entries_append_of_ne fun x hx ↦ (hnew x hx).trans_ne (Ne.symm hj)]
  · by_cases hj : j = k
    · by_cases hj' : j' = k
      · rw [hj, hj']
      · rw [hj] at hd
        rw [hother hj'] at hd'
        obtain rfl := Option.some.inj (hself.symm.trans hd)
        exact absurd hs (happart hj' hd' hs').2
    · rw [hother hj] at hd
      by_cases hj' : j' = k
      · rw [hj'] at hd'
        obtain rfl := Option.some.inj (hself.symm.trans hd')
        exact absurd hs' (happart hj hd hs).2
      · rw [hother hj'] at hd'
        exact h.distinct j j' d d' s hd hd' hs hs'
  · have hc' : c'.conn ≠ .accepted s := hs c' (List.mem_of_getElem? hself)
    by_cases hc : c.conn = .accepted s
    · exact (hleft s hc).resolve_left hc'
    · rw [hcache s hc]
      refine h.free s fun d hd hds ↦ ?_
      obtain ⟨j, hj⟩ := List.mem_iff_getElem?.mp hd
      by_cases hjk : j = k
      · rw [hjk, hk] at hj
        exact hc (Option.some.inj hj ▸ hds)
      · exact hs d (List.mem_of_getElem? ((hother hjk).trans hj)) hds
  · rw [hclients, List.length_set]
    rw [hlog] at hx
    rcases List.mem_append.mp hx with hx | hx
    · exact h.known x hx
    · exact (hnew x hx).trans_lt hlt

/-- A client stops waiting. -/
theorem Inv.setStage {w : World} (h : w.Inv serviceFlags) {k : ℕ} {c : Client}
    (hk : w.clients[k]? = some c) {stage : Stage}
    (hstage : stage = .returned true →
      c.incoming ≠ [] ∧ (c.incoming = retString (c.order.accepted serviceFlags) →
        c.order.accepted serviceFlags = true)) :
    Inv serviceFlags { w with clients := w.clients.set k { c with stage := stage } } :=
  h.set hk rfl (fun _ _ ↦ rfl) (fun _ hs ↦ .inl hs) (fun _ hs ↦ .inl hs)
    (List.append_nil _).symm (List.forall_mem_nil _) ((h.progress k c hk).setStage hstage)

theorem Inv.sendCmd {w : World} (h : w.Inv serviceFlags) (o : Order) :
    (w.step serviceFlags (.sendCmd o)).Inv serviceFlags := by
  have hcases {k : ℕ} {c : Client}
      (hk : (w.clients ++ [⟨o, .waiting, .pending, written o, []⟩])[k]? = some c) :
      w.clients[k]? = some c ∨
        k = w.clients.length ∧ c = ⟨o, .waiting, .pending, written o, []⟩ := by
    rcases lt_or_ge k w.clients.length with hlt | hge
    · rw [List.getElem?_append_left hlt] at hk
      exact .inl hk
    · rw [List.getElem?_append_right hge, List.getElem?_singleton] at hk
      split at hk
      · exact .inr ⟨by omega, (Option.some.inj hk).symm⟩
      · cases hk
  refine ⟨fun k c hk ↦ ?_, fun k k' c c' s hk hk' hs hs' ↦ ?_, fun s hs ↦ ?_, fun x hx ↦ ?_⟩
  · rcases hcases hk with hk | ⟨rfl, rfl⟩
    · exact h.progress k c hk
    · refine .unread rfl rfl rfl Stage.noConfusion (List.filter_eq_nil_iff.mpr fun x hx ↦ ?_)
      simpa using (h.known x hx).ne
  · rcases hcases hk with hk | ⟨-, rfl⟩
    · rcases hcases hk' with hk' | ⟨-, rfl⟩
      · exact h.distinct k k' c c' s hk hk' hs hs'
      · cases hs'
    · cases hs
  · exact h.free s fun c hc ↦ hs c (List.mem_append_left _ hc)
  · exact (h.known x hx).trans_le (by simp [step])

theorem Inv.slotReady {w : World} (h : w.Inv serviceFlags) {k : ℕ} {c : Client}
    (hk : w.clients[k]? = some c) {s : Address} (hconn : c.conn = .accepted s)
    (hne : c.outgoing ≠ []) (n : ℕ) (actions : List Action) :
    (w.slotReady serviceFlags k c s n actions).Inv serviceFlags := by
  obtain ⟨front, hfront, hcache, hincoming, hstage, hlog⟩ :=
    (h.progress k c hk).conn_accepted hconn hne
  have hupdate (text : List Char) (s' : Address) (hs' : c.conn ≠ .accepted s') :
      Function.update w.sys.cache s text s' = w.sys.cache s' :=
    Function.update_of_ne (fun heq : s' = s ↦ hs' (heq ▸ hconn)) ..
  by_cases hrest : c.outgoing.drop n = []
  · rw [slotReady_whole w hfront hcache hrest]
    split
    · refine h.set hk rfl (hupdate _) (fun _ hs ↦ .inl hs) (fun _ hs ↦ .inl hs) rfl
        (List.forall_mem_singleton.mpr rfl) (.executed ?_ rfl (fun s' hs' ↦ ?_) ?_ ?_ ?_)
      · rw [hconn]
        exact Conn.noConfusion
      · obtain rfl := Conn.accepted.inj (hconn.symm.trans hs')
        exact Function.update_self ..
      · rw [hincoming]
        rfl
      · exact fun hreturned ↦ absurd hreturned hstage
      · rw [entries, List.filter_append, ← entries, hlog]
        simp
    · exact h
  · rw [slotReady_part w hfront hcache hrest]
    split
    · refine h.set hk rfl (hupdate _) (fun _ hs ↦ .inl hs) (fun _ hs ↦ .inl hs)
        (List.append_nil _).symm (List.forall_mem_nil _)
        (.reading s (front ++ c.outgoing.take n) hconn ?_ hrest (Function.update_self ..) hincoming
          hstage hlog)
      rwa [List.append_assoc, List.take_append_drop]
    · exact h

theorem Inv.incomingConnection {w : World} (h : w.Inv serviceFlags) {k : ℕ} {c : Client}
    (hk : w.clients[k]? = some c) {s : Address} (hpending : c.conn = .pending)
    (hfree : ∀ d ∈ w.clients, d.conn ≠ .accepted s) :
    Inv serviceFlags { w with clients := w.clients.set k { c with conn := .accepted s } } := by
  have hnone (s' : Address) (hs' : c.conn = .accepted s') : False := by
    cases hpending.symm.trans hs'
  refine h.set hk rfl (fun _ _ ↦ rfl) (fun s' hs' ↦ (hnone s' hs').elim)
    (fun s' hs' ↦ .inr (Conn.accepted.inj hs' ▸ hfree)) (List.append_nil _).symm
    (List.forall_mem_nil _) ?_
  cases h.progress k c hk with
  | unread _ houtgoing hincoming hstage hlog =>
    -- nothing has been read from a socket that is new
    refine .reading s [] rfl houtgoing ?_ (h.free s hfree) hincoming hstage hlog
    exact houtgoing.trans_ne (written_ne_nil c.order)
  | reading s' _ hconn => exact (hnone s' hconn).elim
  | executed hconn => exact absurd hpending hconn

theorem Inv.slotClosed {w : World} (h : w.Inv serviceFlags) {k : ℕ} {c : Client}
    (hk : w.clients[k]? = some c) (hconn : c.conn ≠ .pending) (hempty : c.outgoing = []) :
    Inv serviceFlags { w with clients := w.clients.set k { c with conn := .closed } } := by
  cases h.progress k c hk with
  | unread hpending => exact absurd hpending hconn
  | reading _ _ _ _ hne => exact absurd hempty hne
  | executed _ houtgoing hcache hincoming hstage hlog =>
    exact h.set hk rfl (fun _ _ ↦ rfl) (fun s hs ↦ .inr (hcache s hs)) (fun _ hs ↦ by cases hs)
      (List.append_nil _).symm (List.forall_mem_nil _)
      (.executed Conn.noConfusion houtgoing (fun _ hs ↦ by cases hs) hincoming hstage hlog)

theorem Inv.clientStep {w : World} (h : w.Inv serviceFlags) {k : ℕ} {c : Client}
    (hk : w.clients[k]? = some c) (e : Event) :
    (w.clientStep serviceFlags k c e).Inv serviceFlags := by
  cases e with
  | incomingConnection _ s =>
    rw [World.clientStep]
    split
    · next hif => exact h.incomingConnection hk hif.2.1 hif.2.2
    · exact h
  | slotReady _ n actions =>
    rw [World.clientStep]
    split
    · next s hconn =>
      split
      · next hif => exact h.slotReady hk hconn hif.2.1 n actions
      · exact h
    · exact h
  | readAll _ n =>
    rw [World.clientStep]
    split
    · next hif =>
      -- with some bytes of the reply only, `true` is not returned
      refine h.setStage hk fun htrue ↦ ⟨hif.2.1, fun hincoming ↦ ?_⟩
      have hreply := of_decide_eq_true (Stage.returned.inj htrue)
      rw [hincoming] at hreply
      exact readAll_retString hreply
    · exact h
  | disconnected _ | kill _ =>
    rw [World.clientStep]
    split
    · exact h.setStage hk fun htrue ↦ by cases htrue
    · exact h
  | slotClosed _ =>
    rw [World.clientStep]
    split
    · next hif => exact h.slotClosed hk hif.2.1 hif.2.2.2
    · exact h
  | sendCmd _ => exact h
  | slotStart => exact h
  | thread _ => exact h
  | exit => exact h
  | destroy _ => exact h

theorem Inv.step {w : World} (h : w.Inv serviceFlags) (e : Event) :
    (w.step serviceFlags e).Inv serviceFlags := by
  cases e with
  | sendCmd o => exact h.sendCmd o
  | slotStart | exit =>
    rw [World.step]
    split
    · exact ⟨h.progress, h.distinct, h.free, h.known⟩
    · exact h
  | thread i =>
    rw [World.step]
    split <;> exact ⟨h.progress, h.distinct, h.free, h.known⟩
  | destroy actions =>
    rw [World.step]
    split
    · exact h
    · split
      · exact ⟨h.progress, h.distinct, h.free, h.known⟩
      · exact h
  | incomingConnection k | slotReady k | readAll k | disconnected k | kill k | slotClosed k =>
    simp only [World.step]
    split
    · next c hk => exact h.clientStep hk _
    · exact h

theorem inv_run (events : List Event) : (run serviceFlags events).Inv serviceFlags :=
  List.foldlRecOn events (World.step serviceFlags)
    { progress := fun _ _ h ↦ by cases h
      distinct := fun _ _ _ _ _ h ↦ by cases h
      free := fun _ _ ↦ rfl
      known := List.forall_mem_nil _ }
    fun _ h e _ ↦ h.step e

end World

end Service

end OtTcpListener
