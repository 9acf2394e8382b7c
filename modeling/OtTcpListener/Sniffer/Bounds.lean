import OtTcpListener.Sniffer.Monitor

/-!
# Reads inside the capture

The only comparison with `caplen` is the one with the size of the Ethernet header. Everything behind
that header is read at offsets the packet itself supplies, and the payload is copied up to
`header->len`, the length of the frame on the wire, not up to `caplen`.

`Captured.Fits` says when this does no harm: each header that is looked at was captured, and a
frame whose payload is copied was captured whole. It is exact (`readsIn_dispatch_iff`).
-/

namespace OtTcpListener

open Probe

namespace Sniffer

/-! ## The fields of a captured frame -/

namespace Captured

variable (c : Captured)

/-- A captured byte. -/
def byte (i : ℕ) : UInt8 := c.bytes.getD i 0

/-- The EtherType. -/
def etherType : UInt16 := be16 (c.byte 12) (c.byte 13)

/-- Length of the IPv4 header in bytes. -/
def sizeIp : ℕ := IP_HL (c.byte 14) * 4

/-- Length of the TCP header in bytes. -/
def sizeTcp : ℕ := TH_OFF (c.byte (14 + c.sizeIp + 12)) * 4

def srcPort : UInt16 := be16 (c.byte (14 + c.sizeIp)) (c.byte (14 + c.sizeIp + 1))

def dstPort : UInt16 := be16 (c.byte (14 + c.sizeIp + 2)) (c.byte (14 + c.sizeIp + 2 + 1))

/-- The protocol of the addresses in an ARP packet. -/
def arpPro : UInt16 := be16 (c.byte 16) (c.byte 17)

/-- The operation of an ARP packet. -/
def arpOp : UInt16 := be16 (c.byte 20) (c.byte 21)

/-- The part of the frame behind the three headers is a payload `processIpPacket` copies: a port is
502 and the length on the wire leaves between one byte and what an `int` can count. -/
def Copies : Prop :=
  (c.dstPort = PORT_MBTCP ∨ c.srcPort = PORT_MBTCP) ∧
    14 + c.sizeIp + c.sizeTcp < c.header.len.toNat ∧
      c.header.len.toNat < 14 + c.sizeIp + c.sizeTcp + 2 ^ 31

/-- The capture of an IPv4 frame has all that is read of it. -/
def IpFits : Prop :=
  15 ≤ c.bytes.length ∧
    (20 ≤ c.sizeIp → 14 + c.sizeIp + 13 ≤ c.bytes.length ∧
      (20 ≤ c.sizeTcp → c.Copies → c.bytes.length = c.header.len.toNat))

/-- The capture of an ARP frame has all that is read of it. -/
def ArpFits : Prop :=
  22 ≤ c.bytes.length ∧
    ((c.arpOp = ARP_REQUEST ∨ c.arpOp = ARP_REPLY) → c.arpPro = ETHERTYPE_IP → 32 ≤ c.bytes.length)

/-- The capture of a frame has all that is read of it. -/
def Fits : Prop :=
  14 ≤ c.bytes.length →
    (c.etherType = ETHERTYPE_IP → c.IpFits) ∧ (c.etherType = ETHERTYPE_ARP → c.ArpFits)

theorem sizeIp_le : c.sizeIp ≤ 60 := by
  rw [sizeIp, IP_HL_eq]
  omega

theorem sizeTcp_le : c.sizeTcp ≤ 60 := by
  have h := (c.byte (14 + c.sizeIp + 12)).toNat_lt
  rw [sizeTcp, TH_OFF_eq]
  omega

theorem length_bytes_le : c.bytes.length ≤ c.header.len.toNat := by
  rw [c.length_bytes]
  exact UInt32.le_iff_toNat_le.mp c.caplen_le

/-- A captured byte is what a read inside the capture finds. -/
theorem buffer_eq {i : ℕ} (h : i < c.bytes.length) (beyond : Memory) :
    buffer c.bytes beyond i = c.byte i := by
  rw [buffer_of_lt h, byte, List.getD_eq_getElem _ _ h]

/-- A field inside the capture. -/
theorem htons_run_loadUShort {i : ℕ} (h : i + 1 < c.bytes.length) (beyond : Memory) :
    htons ((loadUShort i).run (buffer c.bytes beyond)) = be16 (c.byte i) (c.byte (i + 1)) := by
  rw [OtTcpListener.htons_run_loadUShort, c.buffer_eq (Nat.lt_of_succ_lt h), c.buffer_eq h]

/-- A payload is copied exactly when the length computed for it is positive. -/
theorem payloadLen_pos_iff :
    0 < payloadLen c.header.len c.sizeIp c.sizeTcp ↔
      14 + c.sizeIp + c.sizeTcp < c.header.len.toNat ∧
        c.header.len.toNat < 14 + c.sizeIp + c.sizeTcp + 2 ^ 31 := by
  have hlen := c.header.len.toNat_lt
  rw [payloadLen_eq c.sizeIp_le c.sizeTcp_le]
  split <;> omega

/-- The length of a copied payload reaches to the end of the frame on the wire. -/
theorem toNat_payloadLen (h : 0 < payloadLen c.header.len c.sizeIp c.sizeTcp) :
    14 + c.sizeIp + c.sizeTcp + (payloadLen c.header.len c.sizeIp c.sizeTcp).toNat =
      c.header.len.toNat := by
  have hlen := c.header.len.toNat_lt
  rw [payloadLen_eq c.sizeIp_le c.sizeTcp_le] at h ⊢
  split_ifs at h ⊢ <;> omega

end Captured

/-! ## IPv4 frames -/

/-- Copying up to the length on the wire stays inside the capture exactly when nothing was cut
off. -/
theorem readsIn_copy_payload_iff (c : Captured) (beyond : Memory)
    (h : 0 < payloadLen c.header.len c.sizeIp c.sizeTcp) :
    ReadsIn (· < c.bytes.length) (copy (14 + c.sizeIp + c.sizeTcp)
      (payloadLen c.header.len c.sizeIp c.sizeTcp).toNat) (buffer c.bytes beyond) ↔
        c.bytes.length = c.header.len.toNat := by
  have hend := c.toNat_payloadLen h
  have hle := c.length_bytes_le
  rw [readsIn_copy]
  constructor
  · intro hin
    have := hin ((payloadLen c.header.len c.sizeIp c.sizeTcp).toNat - 1) (by omega)
    omega
  · intro heq i hi
    omega

/-- The reads of an IPv4 packet stay inside the capture exactly when the capture has all of them. -/
theorem readsIn_decodeIpPacket_iff (c : Captured) (beyond : Memory) (h14 : 14 ≤ c.bytes.length) :
    ReadsIn (· < c.bytes.length) (decodeIpPacket c.header) (buffer c.bytes beyond) ↔ c.IpFits := by
  rw [decodeIpPacket, readsIn_bind, readsIn_cell, run_cell, Captured.IpFits]
  refine and_congr_right fun h15 ↦ ?_
  have hip : IP_HL (buffer c.bytes beyond sizeofEtherHeader) * 4 = c.sizeIp := by
    rw [c.buffer_eq h15]
    rfl
  simp only [hip]
  by_cases hsize : c.sizeIp < 20
  · rw [if_pos hsize]
    exact iff_of_true (readsIn_pure _ _) fun h ↦ absurd h (by omega)
  rw [if_neg hsize]
  simp only [readsIn_bind, readsIn_map, InAddr.readsIn_load, EtherAddr.readsIn_load, readsIn_cell,
    run_cell, sizeofEtherHeader]
  by_cases hfit : 14 + c.sizeIp + 13 ≤ c.bytes.length
  · -- every field before the payload is inside
    have htcp : TH_OFF (buffer c.bytes beyond (14 + c.sizeIp + 12)) * 4 = c.sizeTcp := by
      rw [c.buffer_eq (by omega)]
      rfl
    simp only [htcp]
    rw [and_iff_right (by omega), and_iff_right (by omega), and_iff_right (by omega),
      and_iff_right (by omega), and_iff_right (by omega), imp_iff_right (by omega),
      and_iff_right hfit]
    by_cases hsize' : c.sizeTcp < 20
    · rw [if_pos hsize']
      exact iff_of_true (readsIn_pure _ _) fun h ↦ absurd h (by omega)
    rw [if_neg hsize', imp_iff_right (by omega)]
    have hsrc : htons ((loadUShort (14 + c.sizeIp)).run (buffer c.bytes beyond)) = c.srcPort :=
      c.htons_run_loadUShort (by omega) beyond
    have hdst : htons ((loadUShort (14 + c.sizeIp + 2)).run (buffer c.bytes beyond)) =
        c.dstPort := c.htons_run_loadUShort (by omega) beyond
    simp only [readsIn_bind, readsIn_map, run_map, readsIn_loadUShort, hsrc, hdst]
    rw [and_iff_right (by omega), and_iff_right (by omega), readsIn_dite, Captured.Copies,
      ← c.payloadLen_pos_iff]
    split_ifs with hcopies
    · rw [imp_iff_right hcopies, readsIn_bind, and_iff_left (readsIn_pure _ _),
        readsIn_copy_payload_iff c beyond hcopies.2]
    · exact iff_of_true (readsIn_pure _ _) fun h ↦ absurd h hcopies
  · -- the data offset of the TCP header is outside
    refine iff_of_false (fun h ↦ ?_) fun h ↦ hfit (h (by omega)).1
    exact hfit h.2.2.2.2.1

/-! ## ARP frames -/

/-- The reads of an ARP packet stay inside the capture exactly when the capture has all of them. -/
theorem readsIn_processArpPacket_iff (c : Captured) (beyond : Memory) :
    ReadsIn (· < c.bytes.length) processArpPacket (buffer c.bytes beyond) ↔ c.ArpFits := by
  rw [processArpPacket, readsIn_bind, Captured.ArpFits]
  by_cases h22 : 22 ≤ c.bytes.length
  · have hpro : htons ((loadUShort (sizeofEtherHeader + 2)).run (buffer c.bytes beyond)) =
        c.arpPro := c.htons_run_loadUShort (by unfold sizeofEtherHeader; omega) beyond
    have hop : htons ((loadUShort (sizeofEtherHeader + 6)).run (buffer c.bytes beyond)) =
        c.arpOp := c.htons_run_loadUShort (by unfold sizeofEtherHeader; omega) beyond
    rw [ArpHdr.readsIn_load, ArpHdr.run_load, and_iff_right (by unfold sizeofEtherHeader; omega),
      and_iff_right h22]
    dsimp only
    rw [hop, hpro]
    split_ifs with hreq hne
    · exact iff_of_true (readsIn_pure _ _) fun _ h ↦ absurd h hne
    · rw [imp_iff_right hreq, imp_iff_right (not_not.mp hne)]
      simp only [readsIn_bind, InAddr.readsIn_load, EtherAddr.readsIn_load, readsIn_pure, and_true,
        sizeofEtherHeader]
      omega
    · exact iff_of_true (readsIn_pure _ _) fun h ↦ absurd h hreq
  · refine iff_of_false (fun h ↦ ?_) fun h ↦ h22 h.1
    rw [ArpHdr.readsIn_load] at h
    exact h22 h.1.2.2.2.2.2

/-! ## Frames -/

/-- **Reads inside the capture.** Looking at a captured frame reads captured bytes only, if and only
if the capture has all that is read of the frame. -/
theorem readsIn_dispatch_iff (heap : Heap) (c : Captured) (beyond : Memory) :
    ReadsIn (· < c.header.caplen.toNat) (dispatch heap c.header) (buffer c.bytes beyond) ↔
      c.Fits := by
  rw [dispatch, Captured.Fits, ← c.length_bytes, sizeofEtherHeader]
  by_cases h14 : 14 ≤ c.bytes.length
  · have htype : htons ((loadUShort 12).run (buffer c.bytes beyond)) = c.etherType :=
      c.htons_run_loadUShort (by omega) beyond
    rw [if_pos h14, imp_iff_right h14, readsIn_bind, readsIn_map, readsIn_loadUShort,
      and_iff_right (by omega), run_map, htype]
    split_ifs with hip harp
    · have hne : c.etherType ≠ ETHERTYPE_ARP := by
        rw [hip]
        decide
      rw [imp_iff_right hip, and_iff_left fun h ↦ absurd h hne, readsIn_bind,
        and_iff_left (readsIn_pure _ _), ← readsIn_decodeIpPacket_iff c beyond h14,
        processIpPacket, readsIn_bind]
      refine and_iff_left ?_
      split <;> exact readsIn_pure _ _
    · rw [imp_iff_right harp, and_iff_right fun h ↦ absurd h hip, readsIn_bind,
        and_iff_left (readsIn_pure _ _), readsIn_processArpPacket_iff c beyond]
    · exact iff_of_true (readsIn_pure _ _) ⟨fun h ↦ absurd h hip, fun h ↦ absurd h harp⟩
  · rw [if_neg h14]
    exact iff_of_true (readsIn_pure _ _) fun h ↦ absurd h h14

/-- A bare Ethernet header that announces IPv4 passes the size check, and the byte behind it is
read. -/
theorem not_readsIn_dispatch_bareIpFrame :
    ¬∀ (heap : Heap) (c : Captured) (beyond : Memory),
      ReadsIn (· < c.header.caplen.toNat) (dispatch heap c.header) (buffer c.bytes beyond) := by
  intro h
  have hread := h (fun _ _ ↦ 0) bareIpFrame fun _ ↦ 0
  exact absurd (hread 14 (by decide)) (by decide)

end Sniffer

end OtTcpListener
