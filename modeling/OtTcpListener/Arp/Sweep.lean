import OtTcpListener.Arp.Send
import OtTcpListener.Tools.Segment
import OtTcpListener.Tools.ValidateIP

/-!
# The ARP sweep

`Sniffer::arpLoop` walks through the listed addresses over and over, and calls `sendArpPacket` for
those that `validateIP` accepts. It looks at `m_stop` once a sweep. An exception of `validateIP` is
caught nowhere and ends the run.

A run is recorded call by call, with the sockets open before and after each. A call that leaves a
socket open does so for good: the sockets of a run are those of its beginning and one more for every
such call (`card_fds_arpLoop`). All calls of a run are balanced if and only if none of them takes
one of the two exits that leave a socket (`arpLoop_balanced_iff`).
-/

namespace OtTcpListener

open Arp Bytes Throwing Tools

namespace Sniffer

/-! ## The code -/

/-- The members of `otclient` that the loop passes on. -/
structure Otclient where
  iface : QString
  ifaceIp : QString

/-- One call of `sendArpPacket`: what the system answered, the address asked for, and the sockets
open before and after. -/
structure ArpCall where
  kernel : Kernel
  ip : QString
  before : Finset ℕ
  after : Finset ℕ

/-- The thread that runs the loop: the calls made so far, the sockets open now, and whether an
exception has ended the run. -/
structure ArpThread where
  calls : List ArpCall := []
  fds : Finset ℕ
  thrown : Bool := false

/-- The inner loop at one address. The `n`-th call of the run is answered by `kernels n`. -/
def visitIp (client : Otclient) (kernels : ℕ → Kernel) (t : ArpThread) (ip : QString) : ArpThread :=
  if t.thrown then t
  else
    match validateIP (toStdString ip) with
    | .error _ => { t with thrown := true }
    | .ok false => t
    | .ok true =>
      let kernel := kernels t.calls.length
      let fds := (sendArpPacket kernel t.fds (toStdString client.ifaceIp) (toStdString ip)
        (toStdString client.iface)).fds
      { t with calls := t.calls ++ [⟨kernel, ip, t.fds, fds⟩], fds := fds }

/-- One sweep. -/
def sweep (client : Otclient) (kernels : ℕ → Kernel) (segmentIpList : List QString)
    (t : ArpThread) : ArpThread :=
  segmentIpList.foldl (visitIp client kernels) t

/-- `Sniffer::arpLoop`, as far as the tests of `m_stop` are given. -/
def arpLoop (client : Otclient) (kernels : ℕ → Kernel) (segmentIpList : List QString) :
    List Bool → ArpThread → ArpThread
  | [], t => t
  | m_stop :: stops, t =>
    if m_stop ∨ t.thrown then t
    else arpLoop client kernels segmentIpList stops (sweep client kernels segmentIpList t)

/-! ## Runs -/

/-- The call takes one of the exits that leave a socket open. -/
def ArpCall.LeavesSocket (client : Otclient) (c : ArpCall) : Prop :=
  Arp.LeavesSocket c.kernel (toStdString client.ifaceIp) (toStdString c.ip)
    (toStdString client.iface)

variable {client : Otclient} {kernels : ℕ → Kernel}

/-- What one address can do to a run: no call, and perhaps the end of the run, or one more call,
made on the sockets open at the time. -/
theorem visitIp_cases (t : ArpThread) (ip : QString) :
    (∃ thrown, visitIp client kernels t ip = { t with thrown := thrown }) ∨
      ∃ c : ArpCall, c.before = t.fds ∧
        c.after = (sendArpPacket c.kernel c.before (toStdString client.ifaceIp)
          (toStdString c.ip) (toStdString client.iface)).fds ∧
        visitIp client kernels t ip = { t with calls := t.calls ++ [c], fds := c.after } := by
  rw [visitIp]
  split
  · exact .inl ⟨t.thrown, rfl⟩
  · cases validateIP (toStdString ip) with
    | error e => exact .inl ⟨true, rfl⟩
    | ok valid =>
      cases valid with
      | false => exact .inl ⟨t.thrown, rfl⟩
      | true => exact .inr ⟨⟨_, ip, t.fds, _⟩, rfl, rfl, rfl⟩

/-- What every listed address keeps holds after a run if it holds before. -/
theorem arpLoop_induction {P : ArpThread → Prop} {segmentIpList : List QString}
    (step : ∀ ip ∈ segmentIpList, ∀ t, P t → P (visitIp client kernels t ip)) (stops : List Bool)
    {t : ArpThread} (h : P t) : P (arpLoop client kernels segmentIpList stops t) := by
  have hsweep : ∀ ips ⊆ segmentIpList, ∀ t, P t → P (sweep client kernels ips t) := by
    intro ips
    induction ips with
    | nil => exact fun _ t ht ↦ ht
    | cons ip ips ih =>
      intro hsub t ht
      rw [List.cons_subset] at hsub
      exact ih hsub.2 _ (step ip hsub.1 t ht)
  induction stops generalizing t with
  | nil => exact h
  | cons m_stop stops ih =>
    rw [arpLoop]
    split
    · exact h
    · exact ih (hsweep segmentIpList (List.Subset.refl _) t h)

open scoped Classical in
/-- What a run that began with the sockets `fds` has come to. The record of every call is true, the
open sockets are those of the beginning and one for each call that has left one, and as long as no
call has, they are the very same. -/
structure Recorded (client : Otclient) (fds : Finset ℕ) (t : ArpThread) : Prop where
  after_eq : ∀ c ∈ t.calls, c.after = (sendArpPacket c.kernel c.before (toStdString client.ifaceIp)
    (toStdString c.ip) (toStdString client.iface)).fds
  card_fds : t.fds.card = fds.card + t.calls.countP fun c ↦ decide (c.LeavesSocket client)
  fds_eq : (∀ c ∈ t.calls, ¬c.LeavesSocket client) → t.fds = fds ∧ ∀ c ∈ t.calls, c.before = fds

theorem Recorded.visitIp {fds : Finset ℕ} {t : ArpThread} (h : Recorded client fds t)
    (ip : QString) : Recorded client fds (visitIp client kernels t ip) := by
  classical
  obtain ⟨thrown, hsame⟩ | ⟨c, hbefore, hafter, hcall⟩ := visitIp_cases t ip
  · rw [hsame]
    exact ⟨h.after_eq, h.card_fds, h.fds_eq⟩
  · rw [hcall]
    constructor
    · rw [List.forall_mem_append, List.forall_mem_singleton]
      exact ⟨h.after_eq, hafter⟩
    · change c.after.card = fds.card + (t.calls ++ [c]).countP _
      rw [List.countP_append, ← Nat.add_assoc, ← h.card_fds, List.countP_singleton, hafter]
      by_cases hleave : c.LeavesSocket client
      · rw [fds_sendArpPacket_of_leavesSocket hleave,
          Finset.card_insert_of_notMem (lowest_notMem _), hbefore, if_pos (decide_eq_true hleave)]
      · rw [fds_sendArpPacket_of_not hleave, hbefore, if_neg (by simpa using hleave), Nat.add_zero]
    · intro hnone
      change (∀ c' ∈ t.calls ++ [c], ¬c'.LeavesSocket client) at hnone
      rw [List.forall_mem_append, List.forall_mem_singleton] at hnone
      obtain ⟨hfds, hcalls⟩ := h.fds_eq hnone.1
      change c.after = fds ∧ ∀ c' ∈ t.calls ++ [c], c'.before = fds
      rw [List.forall_mem_append, List.forall_mem_singleton]
      exact ⟨by rw [hafter, fds_sendArpPacket_of_not hnone.2, hbefore, hfds], hcalls,
        hbefore.trans hfds⟩

variable (client kernels) (segmentIpList : List QString) (stops : List Bool) (fds : Finset ℕ)

theorem recorded_arpLoop :
    Recorded client fds (arpLoop client kernels segmentIpList stops { fds := fds }) := by
  classical
  refine arpLoop_induction (fun ip _ t h ↦ h.visitIp ip) stops ⟨?_, rfl, ?_⟩
  · exact fun c hc ↦ absurd hc List.not_mem_nil
  · exact fun _ ↦ ⟨rfl, fun c hc ↦ absurd hc List.not_mem_nil⟩

open scoped Classical in
/-- Every call that leaves a socket open costs one for good. -/
theorem card_fds_arpLoop :
    (arpLoop client kernels segmentIpList stops { fds := fds }).fds.card = fds.card +
      (arpLoop client kernels segmentIpList stops { fds := fds }).calls.countP fun c ↦
        decide (c.LeavesSocket client) :=
  (recorded_arpLoop client kernels segmentIpList stops fds).card_fds

/-- **When no socket is left behind.** After every call of a run as many sockets are open as before
it, if and only if no call of the run takes one of the two exits that leave a socket open. The
sockets are then those the run began with, before and after every call. -/
theorem arpLoop_balanced_iff :
    ((∀ c ∈ (arpLoop client kernels segmentIpList stops { fds := fds }).calls,
        c.after.card = c.before.card) ↔
      ∀ c ∈ (arpLoop client kernels segmentIpList stops { fds := fds }).calls,
        ¬c.LeavesSocket client) ∧
    ((∀ c ∈ (arpLoop client kernels segmentIpList stops { fds := fds }).calls,
        ¬c.LeavesSocket client) →
      ∀ c ∈ (arpLoop client kernels segmentIpList stops { fds := fds }).calls,
        c.before = fds ∧ c.after = fds) := by
  have hrun := recorded_arpLoop client kernels segmentIpList stops fds
  constructor
  · refine forall₂_congr fun c hc ↦ ?_
    rw [hrun.after_eq c hc]
    exact card_sendArpPacket_iff
  · intro hnone c hc
    have hbefore := (hrun.fds_eq hnone).2 c hc
    refine ⟨hbefore, ?_⟩
    rw [hrun.after_eq c hc, fds_sendArpPacket_of_not (hnone c hc), hbefore]

/-- A system that grants sockets but knows the hardware address of no interface. -/
def noHwaddr : Kernel := { eth0 with ioctl := fun _ ↦ none }

/-- A system on which every frame is refused. -/
def noSend : Kernel := { eth0 with sendto := fun _ ↦ -1 }

/-- One sweep over one address, in either system. -/
theorem not_arpLoop_balanced :
    (¬∀ c ∈ (arpLoop ⟨"eth0", "10.0.0.5"⟩ (fun _ ↦ noHwaddr) ["10.0.0.1"] [false]
        { fds := {0, 1, 2} }).calls, c.after.card = c.before.card) ∧
      ¬∀ c ∈ (arpLoop ⟨"eth0", "10.0.0.5"⟩ (fun _ ↦ noSend) ["10.0.0.1"] [false]
        { fds := {0, 1, 2} }).calls, c.after.card = c.before.card := by
  have hvalid : validateIP (toStdString "10.0.0.1") = .ok true := by
    rw [validateIP, split_of_lt (by decide +kernel)]
    decide +kernel
  have hcalls (kernel : Kernel) :
      (arpLoop ⟨"eth0", "10.0.0.5"⟩ (fun _ ↦ kernel) ["10.0.0.1"] [false]
        { fds := {0, 1, 2} }).calls = [⟨kernel, "10.0.0.1", {0, 1, 2},
          (sendArpPacket kernel {0, 1, 2} (toStdString "10.0.0.5") (toStdString "10.0.0.1")
            (toStdString "eth0")).fds⟩] := by
    rw [arpLoop, if_neg (by decide), arpLoop, sweep, List.foldl_cons, List.foldl_nil, visitIp,
      if_neg Bool.false_ne_true, hvalid]
    rfl
  constructor
  · intro h
    rw [hcalls, List.forall_mem_singleton] at h
    exact card_sendArpPacket_iff.mp h ⟨rfl, .inl rfl⟩
  · intro h
    rw [hcalls, List.forall_mem_singleton] at h
    refine card_sendArpPacket_iff.mp h ⟨rfl, .inr ⟨⟨0x02, 0x42, 0xac, 0x11, 0, 2⟩, ⟨10, 0, 0, 5⟩,
      ⟨10, 0, 0, 1⟩, ?_, ?_, ?_, ?_, rfl, by decide⟩⟩
    all_goals decide +kernel

/-! ## The listed addresses -/

/-- `validateIP` answers for every dotted quad that `inet_ntoa` writes. -/
theorem validateIP_inet_ntoa (a : InAddr) :
    validateIP (toStdString (inet_ntoa a)) = .ok (decide (a ≠ ⟨0, 0, 0, 0⟩)) := by
  have hlen : (toStdString (inet_ntoa a)).length < 2 ^ 31 :=
    (length_inet_ntoa_lt a).trans (by decide)
  have hfour : (a.bytes.map fun b ↦ to_string b.toNat).length = 4 := rfl
  have hpass : ∀ b ∈ a.bytes, Passes (to_string b.toNat) := fun b _ ↦
    passes_of_isOctet ⟨to_string_ne_nil _, fun _ hb ↦ isdigit_of_mem_to_string hb, by
      rw [decimal_to_string]
      exact Nat.le_of_lt_succ b.toNat_lt⟩
  have hzero : toStdString (inet_ntoa a) = ascii "0.0.0.0" ↔ a = ⟨0, 0, 0, 0⟩ := by
    have hunspecified : toStdString (inet_ntoa ⟨0, 0, 0, 0⟩) = ascii "0.0.0.0" := by decide +kernel
    rw [← hunspecified]
    exact toStdString_inet_ntoa_injective.eq_iff
  rw [validateIP, split_of_lt hlen, splitOn_inet_ntoa, ok_bind, if_neg (not_not.mpr hfour),
    (validateTokens_eq_true_iff _ a.bytes).mpr hpass, ok_bind, if_neg (by decide),
    decide_eq_decide.mpr (not_congr hzero)]
  rfl

/-- A run over the addresses that the constructor has listed is ended by no exception, whatever the
address of the interface. -/
theorem thrown_arpLoop_segmentIpList (unset : Locals) :
    (arpLoop client kernels (Sniffer.segmentIpList unset client.ifaceIp) stops
      { fds := fds }).thrown = false := by
  refine arpLoop_induction (P := fun t ↦ t.thrown = false) (fun ip hip t ht ↦ ?_) stops rfl
  obtain ⟨v, -, -, rfl⟩ := mem_segmentLoop_iff.mp hip
  rw [visitIp, ht, if_neg Bool.false_ne_true, validateIP_inet_ntoa]
  cases decide (InAddr.of_s_addr (ntohl (.ofNat v)) ≠ ⟨0, 0, 0, 0⟩) with
  | false => exact ht
  | true => rfl

end Sniffer

end OtTcpListener
