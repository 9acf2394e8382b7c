import OtTcpListener.Sniffer.Packet

/-!
# The capture loop

`Sniffer::run` tests `m_stop`, calls `MonitorPcap`, sleeps, and starts over. `MonitorPcap` tests
`m_stop` again and polls the capture handle once. The handle is non-blocking, so most polls return 0
without a frame.

`MonitorPcap` leaves on a negative result but not on 0, and then looks through two local pointers
that nobody has set. `Pointee` is what such pointers happen to address; the loop records for every
look where the pointers came from. A run makes exactly one call for each IPv4 or ARP frame delivered
and never looks through an unset pointer if and only if no poll of it returns 0
(`run_calls_faithful_iff`).

A packet over which the decoder runs off its end is the last of a run: that is undefined behaviour,
and nothing is known of the polls that would follow.
-/

namespace OtTcpListener

open Probe

namespace Sniffer

/-! ## Polling -/

/-- A frame delivered by `pcap_next_ex`: its header and the captured bytes. -/
structure Captured where
  header : PktHdr
  bytes : List UInt8
  length_bytes : bytes.length = header.caplen.toNat
  caplen_le : header.caplen ≤ header.len

/-- A frame captured whole. -/
def Captured.whole (bytes : List UInt8) (h : bytes.length < 2 ^ 32) : Captured where
  header := ⟨.ofNat bytes.length, .ofNat bytes.length⟩
  bytes := bytes
  length_bytes := (UInt32.toNat_ofNat_of_lt' h).symm
  caplen_le := UInt32.le_refl _

theorem Captured.toNat_caplen_whole {bytes : List UInt8} (h : bytes.length < 2 ^ 32) :
    (whole bytes h).header.caplen.toNat = bytes.length := UInt32.toNat_ofNat_of_lt' h

theorem Captured.toNat_len_whole {bytes : List UInt8} (h : bytes.length < 2 ^ 32) :
    (whole bytes h).header.len.toNat = bytes.length := UInt32.toNat_ofNat_of_lt' h

/-- Looking at a delivered frame, with `beyond` behind the captured bytes. -/
def Captured.visit (c : Captured) (heap : Heap) (beyond : Memory) : Dispatch :=
  (dispatch heap c.header).run (buffer c.bytes beyond)

/-- What a pair of pointers `packetHeader`, `packet` addresses. -/
structure Pointee where
  header : PktHdr
  memory : Memory

/-- One return of `pcap_next_ex`. With a frame come the bytes that lie behind the captured ones. -/
inductive NextEx where
  | frame (captured : Captured) (beyond : Memory)
  | timeout
  | error (code : ℤ) (negative : code < 0)

/-- The value returned. -/
def NextEx.packetCount : NextEx → ℤ
  | .frame _ _ => 1
  | .timeout => 0
  | .error code _ => code

/-- Where the pointers that `MonitorPcap` looks through came from. -/
inductive Source where
  | delivered (captured : Captured)
  | unset

/-- The pointers after the poll. Only a delivered frame sets them. -/
def NextEx.pointers (next : NextEx) (unset : Pointee) : Source × Pointee :=
  match next with
  | .frame captured beyond => (.delivered captured, ⟨captured.header, buffer captured.bytes beyond⟩)
  | _ => (.unset, unset)

/-- `Sniffer::MonitorPcap`. `none`: it returned without looking at a packet. -/
def MonitorPcap (heap : Heap) (m_stop : Bool) (next : NextEx) (unset : Pointee) :
    Option (Source × Dispatch) :=
  if m_stop then
    none
  else if next.packetCount < 0 then
    none
  else
    -- a result of 0 gets here, and has set no pointer
    let (source, pointee) := next.pointers unset
    some (source, (dispatch heap pointee.header).run pointee.memory)

/-! ## The loop -/

/-- One round of the loop: what the two tests of `m_stop` see, what the poll returns, and what the
memory holds that the program does not control. -/
structure Round where
  stopAtTest : Bool := false
  stopAtEntry : Bool := false
  next : NextEx
  unset : Pointee
  heap : Heap

/-- The call of `MonitorPcap` in a round. -/
def Round.visit (r : Round) : Option (Source × Dispatch) :=
  MonitorPcap r.heap r.stopAtEntry r.next r.unset

/-- The decoder runs off its end in this round. -/
def Round.unreturned (r : Round) : Bool := r.visit.any fun v ↦ v.2.unreturned

/-- `Sniffer::run`: the packets looked at in a sequence of rounds. -/
def run : List Round → List (Source × Dispatch)
  | [] => []
  | r :: rounds =>
    if r.stopAtTest then []
    else r.visit.toList ++ if r.unreturned then [] else run rounds

/-- The polls made in a sequence of rounds. -/
def polls : List Round → List NextEx
  | [] => []
  | r :: rounds =>
    if r.stopAtTest then []
    else if r.stopAtEntry then polls rounds
    else r.next :: if r.unreturned then [] else polls rounds

/-! ## Calls -/

/-- The functions a packet is handed to. -/
inductive Callee where
  | processIpPacket
  | processArpPacket
  deriving DecidableEq

/-- The function a packet was handed to. -/
def Dispatch.callee : Dispatch → Option Callee
  | .none => Option.none
  | .ip _ => some .processIpPacket
  | .arp _ => some .processArpPacket

/-- The calls made in a run, in order, with the origin of the packet. -/
def calls (visits : List (Source × Dispatch)) : List (Callee × Source) :=
  visits.filterMap fun v ↦ v.2.callee.map (·, v.1)

/-- The function that the EtherType of a frame names, if the frame has a whole Ethernet header. -/
def Captured.callee (c : Captured) : Option Callee :=
  if c.bytes.length < 14 then none
  else if be16 (c.bytes.getD 12 0) (c.bytes.getD 13 0) = ETHERTYPE_IP then some .processIpPacket
  else if be16 (c.bytes.getD 12 0) (c.bytes.getD 13 0) = ETHERTYPE_ARP then some .processArpPacket
  else none

/-- The call due for one return of `pcap_next_ex`. -/
def NextEx.due : NextEx → Option (Callee × Source)
  | .frame c _ => c.callee.map (·, .delivered c)
  | _ => none

/-- One call for each frame delivered with a whole Ethernet header and EtherType IPv4 or ARP. -/
def callsDue (nexts : List NextEx) : List (Callee × Source) := nexts.filterMap NextEx.due

/-- The calls made are the calls due, and no unset pointer was looked through. -/
def Faithful (rounds : List Round) : Prop :=
  calls (run rounds) = callsDue (polls rounds) ∧ ∀ v ∈ run rounds, v.1 ≠ .unset

/-! ## One round -/

/-- The dispatch on a delivered frame is by its EtherType. -/
theorem callee_visit (c : Captured) (heap : Heap) (beyond : Memory) :
    (c.visit heap beyond).callee = c.callee := by
  have hcap : c.header.caplen.toNat = c.bytes.length := c.length_bytes.symm
  unfold Captured.visit dispatch Captured.callee sizeofEtherHeader
  rw [hcap]
  by_cases h14 : c.bytes.length < 14
  · rw [if_pos h14, if_neg (by omega), run_pure]
    rfl
  · rw [if_neg h14, if_pos (by omega), run_bind, run_map, htons_run_loadUShort,
      buffer_of_lt (by omega), buffer_of_lt (by omega), List.getD_eq_getElem _ _ (by omega),
      List.getD_eq_getElem _ _ (by omega)]
    simp only [run_ite, run_bind, run_pure]
    split_ifs <;> rfl

theorem MonitorPcap_frame (heap : Heap) (c : Captured) (beyond : Memory) (unset : Pointee) :
    MonitorPcap heap false (.frame c beyond) unset =
      some (.delivered c, c.visit heap beyond) := rfl

theorem MonitorPcap_timeout (heap : Heap) (unset : Pointee) :
    MonitorPcap heap false .timeout unset =
      some (.unset, (dispatch heap unset.header).run unset.memory) := rfl

theorem MonitorPcap_error (heap : Heap) (code : ℤ) (negative : code < 0) (unset : Pointee) :
    MonitorPcap heap false (.error code negative) unset = none := if_pos negative

theorem calls_cons (v : Source × Dispatch) (visits : List (Source × Dispatch)) :
    calls (v :: visits) = (v.2.callee.map (·, v.1)).toList ++ calls visits := by
  rw [calls, List.filterMap_cons, calls]
  cases v.2.callee <;> rfl

theorem callsDue_cons_frame (c : Captured) (beyond : Memory) (nexts : List NextEx) :
    callsDue (.frame c beyond :: nexts) =
      (c.callee.map (·, Source.delivered c)).toList ++ callsDue nexts := by
  rw [callsDue, List.filterMap_cons, callsDue, NextEx.due]
  cases c.callee <;> rfl

theorem faithful_nil : Faithful [] := ⟨rfl, fun _ h ↦ absurd h List.not_mem_nil⟩

/-- A round that does not time out keeps a run faithful, and if the decoder runs off its end in it,
it is the last. -/
theorem faithful_cons_of_ne_timeout {r : Round} {rounds : List Round} (htest : r.stopAtTest = false)
    (hentry : r.stopAtEntry = false) (hnext : r.next ≠ .timeout) :
    Faithful (r :: rounds) ↔ Faithful (if r.unreturned then [] else rounds) := by
  have hrun : run (r :: rounds) = r.visit.toList ++ run (if r.unreturned then [] else rounds) := by
    rw [run, htest, apply_ite run]
    rfl
  have hpolls : polls (r :: rounds) = r.next :: polls (if r.unreturned then [] else rounds) := by
    rw [polls, htest, hentry, apply_ite polls]
    rfl
  rw [Faithful, Faithful, hrun, hpolls, Round.visit, hentry]
  cases hcase : r.next with
  | timeout => exact absurd hcase hnext
  | error code negative =>
    rw [MonitorPcap_error, Option.toList_none, List.nil_append]
    exact Iff.rfl
  | frame c beyond =>
    rw [MonitorPcap_frame, Option.toList_some, List.singleton_append, calls_cons,
      callee_visit, callsDue_cons_frame, List.append_cancel_left_eq, List.forall_mem_cons]
    exact and_congr_right fun _ ↦ and_iff_right Source.noConfusion

/-- A round that times out looks through the unset pointers. -/
theorem not_faithful_cons_of_timeout {r : Round} {rounds : List Round}
    (htest : r.stopAtTest = false) (hentry : r.stopAtEntry = false) (hnext : r.next = .timeout) :
    ¬Faithful (r :: rounds) := by
  rintro ⟨-, hset⟩
  refine hset (.unset, (dispatch r.heap r.unset.header).run r.unset.memory) ?_ rfl
  rw [run, htest, Round.visit, hentry, hnext, MonitorPcap_timeout]
  exact List.mem_cons_self

/-! ## Runs -/

/-- **One call per delivered frame.** A run makes exactly the calls due and looks at no stale packet
if and only if none of its polls returns 0. -/
theorem run_calls_faithful_iff (rounds : List Round) :
    Faithful rounds ↔ ∀ next ∈ polls rounds, next ≠ .timeout := by
  induction rounds with
  | nil => exact iff_of_true faithful_nil fun _ h ↦ absurd h List.not_mem_nil
  | cons r rounds ih =>
    cases htest : r.stopAtTest with
    | true =>
      rw [Faithful, run, polls, htest, if_pos rfl, if_pos rfl]
      exact iff_of_true faithful_nil fun _ h ↦ absurd h List.not_mem_nil
    | false =>
      cases hentry : r.stopAtEntry with
      | true =>
        -- stopped between the two tests: no poll, no packet, and the loop goes on
        have hvisit : r.visit = none := by
          rw [Round.visit, MonitorPcap, hentry]
          rfl
        have hrun : run (r :: rounds) = run rounds := by
          rw [run, htest, Round.unreturned, hvisit]
          rfl
        have hpolls : polls (r :: rounds) = polls rounds := by
          rw [polls, htest, hentry]
          rfl
        rw [Faithful, hrun, hpolls, ← Faithful, ih]
      | false =>
        have hpolls : polls (r :: rounds) =
            r.next :: if r.unreturned then [] else polls rounds := by
          rw [polls, htest, hentry]
          rfl
        rw [hpolls, List.forall_mem_cons]
        by_cases hnext : r.next = .timeout
        · exact iff_of_false (not_faithful_cons_of_timeout htest hentry hnext) fun h ↦ h.1 hnext
        · rw [faithful_cons_of_ne_timeout htest hentry hnext, and_iff_right hnext]
          cases r.unreturned with
          | true => exact iff_of_true faithful_nil fun _ h ↦ absurd h List.not_mem_nil
          | false => exact ih

/-- A frame of 14 bytes with EtherType IPv4. -/
def bareIpFrame : Captured :=
  .whole [1, 0, 94, 0, 0, 1, 2, 0, 0, 0, 0, 1, 8, 0] (by decide)

theorem not_faithful_bareIpFrame_timeout :
    ¬Faithful [⟨false, false, .frame bareIpFrame fun _ ↦ 0, ⟨bareIpFrame.header, fun _ ↦ 0⟩,
        fun _ _ ↦ 0⟩,
      ⟨false, false, .timeout, ⟨bareIpFrame.header, buffer bareIpFrame.bytes fun _ ↦ 0⟩,
        fun _ _ ↦ 0⟩] := by
  rw [faithful_cons_of_ne_timeout rfl rfl NextEx.noConfusion]
  exact not_faithful_cons_of_timeout rfl rfl rfl

end Sniffer

end OtTcpListener
