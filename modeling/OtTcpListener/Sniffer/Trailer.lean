import OtTcpListener.Sniffer.Frame

/-!
# Bytes after the datagram

A frame may be longer than the datagram in it: Ethernet pads short frames. The IPv4 total length
says where the datagram ends, but `processIpPacket` takes the length of the payload from the length
of the frame, so the trailer is part of what it hands over.

The trailer of a frame goes unnoticed only when the datagram has no payload and the trailer is so
long that the computed payload length is negative (`sameModbus_trailer_iff`).
-/

namespace OtTcpListener

open Probe QString

namespace Sniffer

/-- A frame whose datagram ends with its payload: the IPv4 total length counts the two headers and
the payload, and whatever is on the wire behind it is a trailer. -/
structure Datagram extends Frame where
  ip_len_eq : ip.ip_len.toNat = ip.ip_hl * 4 + tcp.th_off * 4 + payload.length

/-- The same payload for the decoder, and the same Modbus text or the same absence of a record. -/
def SameModbus (d d' : Dispatch) : Prop :=
  d.handover.map Handover.payload = d'.handover.map Handover.payload ∧
    d.report.map (fun r ↦ r.j_data "modbus") = d'.report.map fun r ↦ r.j_data "modbus"

namespace Frame

/-- The frame for which the code takes a frame with a trailer. -/
def extend (f : Frame) (trailer : List UInt8) : Frame :=
  { f with payload := f.payload ++ trailer }

theorem encode_extend (f : Frame) (trailer : List UInt8) :
    (f.extend trailer).encode = f.encode ++ trailer := by
  change f.etherHeader ++ f.ip.encode ++ (f.tcp.encode ++ (f.payload ++ trailer)) =
    f.etherHeader ++ f.ip.encode ++ (f.tcp.encode ++ f.payload) ++ trailer
  rw [List.append_assoc _ _ trailer, List.append_assoc f.tcp.encode]

/-- A trailer is read as payload. -/
theorem visit_append (f : Frame) (trailer : List UInt8)
    (h : (f.encode ++ trailer).length < 2 ^ 32) (heap : Heap) (beyond : Memory) :
    (Captured.whole (f.encode ++ trailer) h).visit heap beyond =
      .ip ((f.extend trailer).outcome heap) := by
  have key := (f.extend trailer).visit_encode (f.encode_extend trailer ▸ h) heap beyond
  simp only [encode_extend] at key
  exact key

/-- The payload handed over for a Modbus frame captured whole. -/
theorem map_payload_handover {f : Frame} (hport : f.ModbusPort) :
    f.handover.map Handover.payload =
      if 0 < f.payload.length ∧ f.payload.length < 2 ^ 31 then some f.payload else none := by
  rw [handover]
  split_ifs with h h' h'
  · rfl
  · exact absurd h.2 h'
  · exact absurd ⟨hport, h'⟩ h
  · rfl

end Frame

/-- **Trailers.** A trailer leaves the payload and the text of a Modbus frame as they are if and
only if there is no payload and the trailer has at least `2 ^ 31` bytes. -/
theorem sameModbus_trailer_iff (heap : Heap) (f : Datagram) (hport : f.ModbusPort)
    {trailer : List UInt8} (hne : trailer ≠ []) (h : (f.encode ++ trailer).length < 2 ^ 32)
    (beyond beyond' : Memory) :
    SameModbus
        ((Captured.whole f.encode ((List.prefix_append _ _).length_le.trans_lt h)).visit heap
          beyond)
        ((Captured.whole (f.encode ++ trailer) h).visit heap beyond') ↔
      f.payload = [] ∧ 2 ^ 31 ≤ trailer.length := by
  have hpos := List.length_pos_iff.mpr hne
  have hip := f.ip.ip_len.toNat_lt
  have hlen := f.ip_len_eq
  have hport' : (f.extend trailer).ModbusPort := hport
  have hpayload : (f.extend trailer).payload = f.payload ++ trailer := rfl
  rw [f.visit_append, f.visit_encode, SameModbus, Frame.handover_outcome, Frame.handover_outcome,
    Frame.report_outcome, Frame.report_outcome, Frame.map_payload_handover hport,
    Frame.map_payload_handover hport', hpayload, List.length_append]
  constructor
  · rintro ⟨hsame, -⟩
    split_ifs at hsame with h₁ h₂ h₂
    · -- a payload is handed over in both runs: the second is longer
      have := congrArg List.length (Option.some.inj hsame)
      rw [List.length_append] at this
      omega
    · exact ⟨List.eq_nil_of_length_eq_zero (by omega), by omega⟩
  · rintro ⟨hnil, hlong⟩
    have hnone : f.handover = none := dif_neg fun h ↦ by simp [hnil] at h
    have hnone' : (f.extend trailer).handover = none := dif_neg fun h ↦ by
      rw [hpayload, List.length_append] at h
      omega
    rw [hnone, hnone', if_neg (by simp [hnil]), if_neg (by omega)]
    exact ⟨rfl, rfl⟩

/-- An acknowledgement without payload. -/
def pureAck : Datagram where
  toFrame := .plain 502 1024 []
  ip_len_eq := rfl

theorem sameModbus_pureAck_iff :
    SameModbus ((Captured.whole pureAck.encode (by decide)).visit (fun _ _ ↦ 0) fun _ ↦ 0)
        ((Captured.whole (pureAck.encode ++ [0, 0, 0, 0, 0, 0]) (by decide)).visit (fun _ _ ↦ 0)
          fun _ ↦ 0) ↔
      pureAck.payload = [] ∧ 2 ^ 31 ≤ [(0 : UInt8), 0, 0, 0, 0, 0].length :=
  sameModbus_trailer_iff (fun _ _ ↦ 0) pureAck (by decide) (by decide) (by decide) (fun _ ↦ 0)
    fun _ ↦ 0

/-- Padded with zeros to the minimum length of an Ethernet frame, the acknowledgement becomes a
Modbus message. -/
theorem not_sameModbus_pureAck :
    ¬SameModbus ((Captured.whole pureAck.encode (by decide)).visit (fun _ _ ↦ 0) fun _ ↦ 0)
        ((Captured.whole (pureAck.encode ++ [0, 0, 0, 0, 0, 0]) (by decide)).visit (fun _ _ ↦ 0)
          fun _ ↦ 0) ∧
      ∃ r, ((Captured.whole (pureAck.encode ++ [0, 0, 0, 0, 0, 0]) (by decide)).visit
          (fun _ _ ↦ 0) fun _ ↦ 0).report = some r ∧
        r.j_data "modbus" = some (join (Modbus.group 0 0 [] "") ';') := by
  have hframe : Modbus.mbap.IsFrame [0, 0, 0, 0, 0, 0] := Modbus.isFrame_iff.mpr (by decide)
  have hreport : ∀ handover : Handover, handover.payload = [0, 0, 0, 0, 0, 0] →
      (handover.payload_len : ℤ) = 6 → ∃ r, report (fun _ _ ↦ 0) handover = some r ∧
        r.j_data "modbus" = some (join (Modbus.group 0 0 [] "") ';') := by
    intro handover hpayload hlen
    rw [report, Modbus.run_processModbusPacket _ _ _ _ (by rw [hpayload, hlen]; rfl), hpayload,
      Modbus.decodePayload_of_isFrame _ _ _ hframe,
      Modbus.analyzeModbusPacket_of_lt_five _ (by decide)]
    exact ⟨_, rfl, rfl⟩
  obtain ⟨r, hr, htext⟩ := hreport ⟨[0, 0, 0, 0, 0, 0], ⟨6, by decide⟩,
    (pureAck.toFrame.extend [0, 0, 0, 0, 0, 0]).data⟩ rfl rfl
  have hpadded : (pureAck.toFrame.extend [0, 0, 0, 0, 0, 0]).handover.bind
      (report fun _ _ ↦ 0) = some r := by
    rw [Frame.handover, dif_pos (by decide)]
    exact hr
  rw [pureAck.toFrame.visit_append, pureAck.toFrame.visit_encode, SameModbus, Frame.report_outcome,
    Frame.report_outcome, hpadded]
  exact ⟨fun h ↦ Option.some_ne_none _ h.2.symm, r, rfl, htext⟩

end Sniffer

end OtTcpListener
