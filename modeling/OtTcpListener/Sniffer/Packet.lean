import OtTcpListener.Modbus.Process

/-!
# From a captured frame to a record

`Sniffer::MonitorPcap` polls `pcap_next_ex` once, looks at the EtherType of the frame it is given,
and hands the frame to `processIpPacket` or `processArpPacket`. `processIpPacket` reads the IPv4 and
TCP headers, copies the bytes behind them when a port is 502, and runs a `Modbus` object of its own
over the copy.

Every header field is read from the packet at an offset computed from the fields before it. What
`processIpPacket` does with a packet is split in two: `decodeIpPacket` is everything up to the copy
of the payload and the filling of `_data`, and `report` is the rest. Both the payload that was
handed over and the record that came of it are part of the outcome.
-/

namespace OtTcpListener

open Probe QString

namespace Sniffer

/-! ## Headers -/

/-- `struct pcap_pkthdr`: how many bytes were captured, and how many the frame had. -/
structure PktHdr where
  caplen : UInt32
  len : UInt32

/-- `sizeof(struct ether_header)`. -/
def sizeofEtherHeader : ℕ := 14

def ETHERTYPE_IP : UInt16 := 0x0800

def ETHERTYPE_ARP : UInt16 := 0x0806

def PORT_MBTCP : UInt16 := 502

def ARP_REQUEST : UInt16 := 1

def ARP_REPLY : UInt16 := 2

/-- `IP_HL`: the low four bits of `ip_vhl`. -/
def IP_HL (ip_vhl : UInt8) : ℕ := ip_vhl.toNat &&& 0x0f

/-- `TH_OFF`: the high four bits of `th_offx2`. -/
def TH_OFF (th_offx2 : UInt8) : ℕ := (th_offx2.toNat &&& 0xf0) >>> 4

/-- `struct arphdr`. -/
structure ArpHdr where
  ar_hrd : UInt16
  ar_pro : UInt16
  ar_hln : UInt8
  ar_pln : UInt8
  ar_op : UInt16

/-- A `struct arphdr` load. -/
def ArpHdr.load (i : ℕ) : Reader ArpHdr :=
  return ⟨← loadUShort i, ← loadUShort (i + 2), ← cell (i + 4), ← cell (i + 5),
    ← loadUShort (i + 6)⟩

@[simp] theorem ArpHdr.run_load (i : ℕ) (m : Memory) :
    (ArpHdr.load i).run m = ⟨(loadUShort i).run m, (loadUShort (i + 2)).run m, m (i + 4),
      m (i + 5), (loadUShort (i + 6)).run m⟩ := by
  simp [ArpHdr.load]

@[simp] theorem ArpHdr.readsIn_load {P : ℕ → Prop} (i : ℕ) (m : Memory) :
    ReadsIn P (ArpHdr.load i) m ↔ (P i ∧ P (i + 1)) ∧ (P (i + 2) ∧ P (i + 2 + 1)) ∧ P (i + 4) ∧
      P (i + 5) ∧ P (i + 6) ∧ P (i + 6 + 1) := by
  simp [ArpHdr.load]

/-! ## IPv4 -/

/-- `packet_len - (sizeof(struct ether_header) + size_ip + size_tcp)`, stored in an `int`. -/
def payloadLen (len : UInt32) (size_ip size_tcp : ℕ) : ℤ :=
  toInt (sizeTSub (sizeT (toInt len.toNat)) (sizeofEtherHeader + size_ip + size_tcp))

theorem toInt_lt (n : ℕ) : toInt n < 2 ^ 31 := by
  unfold toInt
  split <;> omega

/-- What `processIpPacket` has prepared when it calls the decoder: the copy of the payload, its
length, and `_data`. -/
structure Handover where
  payload : List UInt8
  payload_len : PosInt
  data : QJsonObject

/-- The text of `packet_type`. -/
def packetType (srcPort dstPort : UInt16) : QString :=
  if srcPort = PORT_MBTCP ∧ dstPort ≠ PORT_MBTCP then "Modbus Response Packet"
  else if srcPort ≠ PORT_MBTCP ∧ dstPort = PORT_MBTCP then "Modbus Query Packet"
  else ""

/-- `Sniffer::processIpPacket` up to the call of the decoder. -/
def decodeIpPacket (header : PktHdr) : Reader (Option Handover) := do
  let ip_vhl ← cell sizeofEtherHeader
  if IP_HL ip_vhl * 4 < 20 then
    return none
  else do
    let srcIp ← inet_ntoa <$> InAddr.load (sizeofEtherHeader + 12)
    let dstIp ← inet_ntoa <$> InAddr.load (sizeofEtherHeader + 16)
    let srcMac ← ether_ntoa <$> EtherAddr.load 6
    let dstMac ← ether_ntoa <$> EtherAddr.load 0
    let th_offx2 ← cell (sizeofEtherHeader + IP_HL ip_vhl * 4 + 12)
    if TH_OFF th_offx2 * 4 < 20 then
      return none
    else do
      let srcPort ← htons <$> loadUShort (sizeofEtherHeader + IP_HL ip_vhl * 4)
      let dstPort ← htons <$> loadUShort (sizeofEtherHeader + IP_HL ip_vhl * 4 + 2)
      if h : (dstPort = PORT_MBTCP ∨ srcPort = PORT_MBTCP) ∧
          0 < payloadLen header.len (IP_HL ip_vhl * 4) (TH_OFF th_offx2 * 4) then do
        -- the copy runs to the length on the wire, whatever was captured
        let payload_len : PosInt := ⟨_, h.2, toInt_lt _⟩
        let payload ← copy (sizeofEtherHeader + IP_HL ip_vhl * 4 + TH_OFF th_offx2 * 4)
          payload_len.1.toNat
        let data := QJsonObject.empty
          |>.insert "srcIp" srcIp
          |>.insert "dstIp" dstIp
          |>.insert "srcMac" srcMac
          |>.insert "dstMac" dstMac
          |>.insert "srcPort" (number srcPort.toNat)
          |>.insert "dstPort" (number dstPort.toNat)
          |>.insert "packet_type" (packetType srcPort dstPort)
          |>.insert "packet_len" (number (toInt header.len.toNat))
        return some ⟨payload, payload_len, data⟩
      else
        return none

/-- The record of one packet, and the lines in which its Modbus text is printed. -/
structure Report where
  j_data : QJsonObject
  splitted : List QString

/-- The rest of `Sniffer::processIpPacket`: a `Modbus` object of its own for this packet, and the
record made of `_data` and what that object publishes. The payload is the first block of the heap.
`none`: the decoder ran off its end, and nothing is defined from there on. -/
def report (heap : Heap) (handover : Handover) : Option Report :=
  ((Modbus.processModbusPacket (heap.after 1) {} handover.payload_len .empty).run
    (buffer handover.payload (heap 0))).map fun (_, modbus_data) ↦
      let j_data := handover.data.insertAll modbus_data
      ⟨j_data, split (j_data.value "modbus") ';'⟩

/-- What comes of an IPv4 packet: nothing, or a payload handed to the decoder and, if that returns,
a record. -/
inductive IpOutcome where
  | ignored
  | handed (handover : Handover) (report : Option Report)

/-- `Sniffer::processIpPacket`. -/
def processIpPacket (heap : Heap) (header : PktHdr) : Reader IpOutcome := do
  match ← decodeIpPacket header with
  | none => return .ignored
  | some handover => return .handed handover (report heap handover)

/-! ## ARP -/

/-- `Sniffer::processArpPacket`: the sender's protocol and hardware address texts. -/
def processArpPacket : Reader (Option (QString × QString)) := do
  let arpheader ← ArpHdr.load sizeofEtherHeader
  if htons arpheader.ar_op = ARP_REQUEST ∨ htons arpheader.ar_op = ARP_REPLY then
    if htons arpheader.ar_pro ≠ ETHERTYPE_IP then
      return none
    else do
      let arp_spa ← InAddr.load (sizeofEtherHeader + 14)
      let arp_sha ← EtherAddr.load (sizeofEtherHeader + 8)
      let sip := join (arp_spa.bytes.map fun b ↦ number b.toNat) '.'
      let smac := join (arp_sha.bytes.map hexByte) ':'
      return some (sip, smac)
  else
    return none

/-! ## Dispatch on the EtherType -/

/-- What `MonitorPcap` did with the packet it looked at. -/
inductive Dispatch where
  | none
  | ip (outcome : IpOutcome)
  | arp (sender : Option (QString × QString))

/-- The part of `Sniffer::MonitorPcap` that follows the poll. -/
def dispatch (heap : Heap) (header : PktHdr) : Reader Dispatch :=
  if sizeofEtherHeader ≤ header.caplen.toNat then do
    let type ← htons <$> loadUShort 12
    if type = ETHERTYPE_IP then
      return .ip (← processIpPacket heap header)
    else if type = ETHERTYPE_ARP then
      return .arp (← processArpPacket)
    else
      return .none
  else
    return .none

namespace Dispatch

/-- The payload handed to the decoder, if any. -/
def handover : Dispatch → Option Handover
  | .ip (.handed h _) => some h
  | _ => Option.none

/-- The record produced, if any. -/
def report : Dispatch → Option Report
  | .ip (.handed _ r) => r
  | _ => Option.none

/-- The decoder ran off its end over this packet. -/
def unreturned : Dispatch → Bool
  | .ip (.handed _ Option.none) => true
  | _ => false

theorem unreturned_eq (d : Dispatch) : d.unreturned = (d.handover.isSome && d.report.isNone) := by
  rcases d with _ | (_ | ⟨_, _ | _⟩) | _ <;> rfl

end Dispatch

/-- The decoder is given the whole copy of the payload. -/
theorem length_payload_of_decodeIpPacket {header : PktHdr} {m : Memory} {handover : Handover}
    (h : (decodeIpPacket header).run m = some handover) :
    (handover.payload.length : ℤ) = handover.payload_len := by
  rw [decodeIpPacket] at h
  simp only [run_bind, run_ite, run_pure, run_dite] at h
  split at h
  · cases h
  · split at h
    · cases h
    · split at h
      · next hcond =>
        obtain rfl := Option.some.inj h
        rw [run_copy, List.length_map, List.length_range]
        exact Int.toNat_of_nonneg hcond.2.le
      · cases h

/-- What a packet hands over is what its headers say, and the decoder is run on it. -/
theorem run_dispatch_of_handover {heap : Heap} {header : PktHdr} {m : Memory}
    {handover : Handover} (h : ((dispatch heap header).run m).handover = some handover) :
    (decodeIpPacket header).run m = some handover ∧
      (dispatch heap header).run m = .ip (.handed handover (report heap handover)) := by
  rw [dispatch, run_ite] at h ⊢
  split at h
  · next hcap =>
    rw [if_pos hcap]
    simp only [run_bind, run_ite] at h ⊢
    split at h
    · next hip =>
      rw [if_pos hip]
      rw [run_pure, processIpPacket, run_bind] at h ⊢
      cases hdecode : (decodeIpPacket header).run m with
      | none =>
        rw [hdecode] at h
        cases h
      | some handover' =>
        rw [hdecode] at h
        obtain rfl := Option.some.inj h
        exact ⟨rfl, rfl⟩
    · split at h <;> cases h
  · cases h

/-! ## The bit fields -/

theorem IP_HL_eq (ip_vhl : UInt8) : IP_HL ip_vhl = ip_vhl.toNat % 16 :=
  Nat.and_two_pow_sub_one_eq_mod ip_vhl.toNat 4

theorem TH_OFF_eq (th_offx2 : UInt8) : TH_OFF th_offx2 = th_offx2.toNat / 16 := by
  have key : ∀ n : Fin 256, (n.val &&& 0xf0) >>> 4 = n.val / 16 := by decide +kernel
  exact key ⟨th_offx2.toNat, th_offx2.toNat_lt⟩

/-- The payload length is what is left of the frame, as long as that is an `int`; from `2 ^ 31` on
it is negative. -/
theorem payloadLen_eq {len : UInt32} {size_ip size_tcp : ℕ} (hip : size_ip ≤ 60)
    (htcp : size_tcp ≤ 60) :
    payloadLen len size_ip size_tcp =
      if (len.toNat : ℤ) - (14 + size_ip + size_tcp) < 2 ^ 31 then
        (len.toNat : ℤ) - (14 + size_ip + size_tcp)
      else (len.toNat : ℤ) - (14 + size_ip + size_tcp) - 2 ^ 32 := by
  have hlen := len.toNat_lt
  unfold payloadLen toInt sizeTSub sizeT sizeofEtherHeader
  split_ifs <;> omega

end Sniffer

end OtTcpListener
