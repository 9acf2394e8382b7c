import OtTcpListener.Modbus.Framing
import OtTcpListener.Sniffer.Monitor

/-!
# Ethernet frames with TCP in IPv4

What a frame is, independently of the code that reads it: three headers with their options, then
the payload. The variable lengths are tied to the length fields by the types, so every value of
`Frame` has one encoding and every such encoding is a frame.

Reading an encoded frame gives its fields back and hands over its payload
(`run_decodeIpPacket_encode`), for every length the capture header can express. The record is the
frame's fields with what the decoder publishes for the payload, and there is one whenever the
decoder returns (`MonitorPcap_decodes`).
-/

namespace OtTcpListener

open Probe QString

namespace Sniffer

/-- The four bytes of a field in network order. -/
def be32Bytes (x : UInt32) : List UInt8 :=
  [.ofNat (x.toNat / 2 ^ 24), .ofNat (x.toNat / 2 ^ 16 % 256), .ofNat (x.toNat / 2 ^ 8 % 256),
    .ofNat (x.toNat % 256)]

/-- An IPv4 header with its options. -/
structure IpHeader where
  ip_v : Fin 16
  ip_hl : ℕ
  ip_tos : UInt8
  ip_len : UInt16
  ip_id : UInt16
  ip_off : UInt16
  ip_ttl : UInt8
  ip_p : UInt8
  ip_sum : UInt16
  ip_src : InAddr
  ip_dst : InAddr
  options : List UInt8
  ip_hl_le : ip_hl ≤ 15
  /-- The header length counts the fixed part and the options in words of four bytes. -/
  length_options : 20 + options.length = ip_hl * 4

/-- A TCP header with its options. -/
structure TcpHeader where
  th_sport : UInt16
  th_dport : UInt16
  th_seq : UInt32
  th_ack : UInt32
  th_off : ℕ
  th_x2 : Fin 16
  th_flags : UInt8
  th_win : UInt16
  th_sum : UInt16
  th_urp : UInt16
  options : List UInt8
  th_off_le : th_off ≤ 15
  /-- The data offset counts the fixed part and the options in words of four bytes. -/
  length_options : 20 + options.length = th_off * 4

/-- An Ethernet frame with a TCP segment in an IPv4 packet. -/
structure Frame where
  ether_dhost : EtherAddr
  ether_shost : EtherAddr
  ip : IpHeader
  tcp : TcpHeader
  payload : List UInt8

namespace IpHeader

/-- Version and header length. -/
def ip_vhl (ip : IpHeader) : UInt8 := .ofNat (ip.ip_v * 16 + ip.ip_hl)

def encode (ip : IpHeader) : List UInt8 :=
  [ip.ip_vhl, ip.ip_tos] ++ be16Bytes ip.ip_len ++ be16Bytes ip.ip_id ++ be16Bytes ip.ip_off ++
    [ip.ip_ttl, ip.ip_p] ++ be16Bytes ip.ip_sum ++ ip.ip_src.bytes ++ ip.ip_dst.bytes ++ ip.options

theorem IP_HL_ip_vhl (ip : IpHeader) : IP_HL ip.ip_vhl = ip.ip_hl := by
  have hv := ip.ip_v.isLt
  have hhl := ip.ip_hl_le
  rw [IP_HL_eq, ip_vhl, UInt8.toNat_ofNat_of_lt' (by rw [UInt8.size]; omega)]
  omega

theorem length_encode (ip : IpHeader) : ip.encode.length = ip.ip_hl * 4 := by
  rw [← ip.length_options, Nat.add_comm]
  rfl

end IpHeader

namespace TcpHeader

/-- Data offset and reserved bits. -/
def th_offx2 (tcp : TcpHeader) : UInt8 := .ofNat (tcp.th_off * 16 + tcp.th_x2)

def encode (tcp : TcpHeader) : List UInt8 :=
  be16Bytes tcp.th_sport ++ be16Bytes tcp.th_dport ++ be32Bytes tcp.th_seq ++
    be32Bytes tcp.th_ack ++ [tcp.th_offx2, tcp.th_flags] ++ be16Bytes tcp.th_win ++
      be16Bytes tcp.th_sum ++ be16Bytes tcp.th_urp ++ tcp.options

theorem TH_OFF_th_offx2 (tcp : TcpHeader) : TH_OFF tcp.th_offx2 = tcp.th_off := by
  have hx2 := tcp.th_x2.isLt
  have hoff := tcp.th_off_le
  rw [TH_OFF_eq, th_offx2, UInt8.toNat_ofNat_of_lt' (by rw [UInt8.size]; omega)]
  omega

theorem length_encode (tcp : TcpHeader) : tcp.encode.length = tcp.th_off * 4 := by
  rw [← tcp.length_options, Nat.add_comm]
  rfl

end TcpHeader

namespace Frame

/-- The Ethernet header. -/
def etherHeader (f : Frame) : List UInt8 :=
  f.ether_dhost.bytes ++ f.ether_shost.bytes ++ be16Bytes ETHERTYPE_IP

/-- The bytes on the wire. -/
def encode (f : Frame) : List UInt8 :=
  (f.etherHeader ++ f.ip.encode) ++ (f.tcp.encode ++ f.payload)

theorem length_headers (f : Frame) :
    (f.etherHeader ++ f.ip.encode).length = 14 + f.ip.ip_hl * 4 := by
  rw [List.length_append, f.ip.length_encode]
  rfl

theorem length_encode (f : Frame) :
    f.encode.length = 14 + f.ip.ip_hl * 4 + f.tcp.th_off * 4 + f.payload.length := by
  rw [encode, List.length_append, f.length_headers, List.length_append, f.tcp.length_encode,
    Nat.add_assoc, Nat.add_assoc, Nat.add_assoc]

/-- What is behind the IPv4 header. -/
theorem buffer_encode_add (f : Frame) (beyond : Memory) (i : ℕ) :
    buffer f.encode beyond (14 + f.ip.ip_hl * 4 + i) =
      buffer (f.tcp.encode ++ f.payload) (fun i ↦ beyond (14 + f.ip.ip_hl * 4 + i)) i := by
  rw [← f.length_headers]
  exact buffer_append_add _ _ _ _

/-- What is behind all headers. -/
theorem drop_encode (f : Frame) :
    f.encode.drop (14 + f.ip.ip_hl * 4 + f.tcp.th_off * 4) = f.payload := by
  rw [← f.length_headers, ← f.tcp.length_encode, encode, ← List.drop_drop, List.drop_left,
    List.drop_left]

/-- A port is 502. -/
def ModbusPort (f : Frame) : Prop :=
  f.tcp.th_dport = PORT_MBTCP ∨ f.tcp.th_sport = PORT_MBTCP

instance (f : Frame) : Decidable f.ModbusPort := inferInstanceAs (Decidable (_ ∨ _))

/-- The record of a frame before its Modbus text is added. -/
def data (f : Frame) : QJsonObject :=
  QJsonObject.empty
    |>.insert "srcIp" (inet_ntoa f.ip.ip_src)
    |>.insert "dstIp" (inet_ntoa f.ip.ip_dst)
    |>.insert "srcMac" (ether_ntoa f.ether_shost)
    |>.insert "dstMac" (ether_ntoa f.ether_dhost)
    |>.insert "srcPort" (number f.tcp.th_sport.toNat)
    |>.insert "dstPort" (number f.tcp.th_dport.toNat)
    |>.insert "packet_type" (packetType f.tcp.th_sport f.tcp.th_dport)
    |>.insert "packet_len" (number (toInt f.encode.length))

/-- What is handed to the decoder for a frame captured whole: its payload, if a port is 502 and the
payload is not empty and its length is an `int`. -/
def handover (f : Frame) : Option Handover :=
  if h : f.ModbusPort ∧ 0 < f.payload.length ∧ f.payload.length < 2 ^ 31 then
    some ⟨f.payload, ⟨f.payload.length, by omega, by omega⟩, f.data⟩
  else
    none

/-- The payload length computed for a frame captured whole. -/
theorem payloadLen_encode (f : Frame) (h : f.encode.length < 2 ^ 32) :
    payloadLen (Captured.whole f.encode h).header.len (f.ip.ip_hl * 4) (f.tcp.th_off * 4) =
      if f.payload.length < 2 ^ 31 then (f.payload.length : ℤ)
      else f.payload.length - 2 ^ 32 := by
  have hhl := f.ip.ip_hl_le
  have hoff := f.tcp.th_off_le
  rw [payloadLen_eq (by omega) (by omega), Captured.toNat_len_whole, f.length_encode]
  split_ifs <;> omega

/-- The copy loop runs when there is a payload and its length is an `int`. -/
theorem payloadLen_encode_pos_iff (f : Frame) (h : f.encode.length < 2 ^ 32) :
    0 < payloadLen (Captured.whole f.encode h).header.len (f.ip.ip_hl * 4) (f.tcp.th_off * 4) ↔
      0 < f.payload.length ∧ f.payload.length < 2 ^ 31 := by
  have := f.length_encode
  rw [f.payloadLen_encode h]
  split <;> omega

/-- The addresses, which stand at fixed offsets. -/
theorem address_fields (f : Frame) (beyond : Memory) :
    (InAddr.load (14 + 12)).run (buffer f.encode beyond) = f.ip.ip_src ∧
      (InAddr.load (14 + 16)).run (buffer f.encode beyond) = f.ip.ip_dst ∧
        (EtherAddr.load 6).run (buffer f.encode beyond) = f.ether_shost ∧
          (EtherAddr.load 0).run (buffer f.encode beyond) = f.ether_dhost := by
  rw [InAddr.run_load, InAddr.run_load, EtherAddr.run_load, EtherAddr.run_load]
  exact ⟨rfl, rfl, rfl, rfl⟩

/-- The fields behind the IPv4 header. -/
theorem tcp_fields (f : Frame) (beyond : Memory) :
    TH_OFF (buffer f.encode beyond (14 + f.ip.ip_hl * 4 + 12)) = f.tcp.th_off ∧
      htons ((loadUShort (14 + f.ip.ip_hl * 4)).run (buffer f.encode beyond)) = f.tcp.th_sport ∧
        htons ((loadUShort (14 + f.ip.ip_hl * 4 + 2)).run (buffer f.encode beyond)) =
          f.tcp.th_dport := by
  have h0 := f.buffer_encode_add beyond 0
  rw [Nat.add_zero] at h0
  refine ⟨?_, ?_, ?_⟩
  · rw [f.buffer_encode_add, ← f.tcp.TH_OFF_th_offx2]
    rfl
  · rw [htons_run_loadUShort, h0, f.buffer_encode_add]
    exact be16_be16Bytes _
  · rw [htons_run_loadUShort, f.buffer_encode_add, Nat.add_assoc, f.buffer_encode_add]
    exact be16_be16Bytes _

/-- Reading an encoded frame gives its fields back. -/
theorem run_decodeIpPacket_encode (f : Frame) (h : f.encode.length < 2 ^ 32) (beyond : Memory) :
    (decodeIpPacket (Captured.whole f.encode h).header).run (buffer f.encode beyond) =
      f.handover := by
  have hip : IP_HL (buffer f.encode beyond sizeofEtherHeader) = f.ip.ip_hl := by
    rw [← f.ip.IP_HL_ip_vhl]
    rfl
  obtain ⟨hsrc, hdst, hshost, hdhost⟩ := f.address_fields beyond
  obtain ⟨htcp, hsport, hdport⟩ := f.tcp_fields beyond
  have hpos := f.payloadLen_encode_pos_iff h
  have hmin := f.ip.length_options
  have hmin' := f.tcp.length_options
  -- both header sizes pass their checks
  rw [decodeIpPacket, run_bind, run_cell]
  simp only [hip]
  rw [if_neg (by omega)]
  simp only [run_bind, run_map, hsrc, hdst, hshost, hdhost, run_cell, sizeofEtherHeader, htcp]
  rw [run_ite, if_neg (by omega)]
  simp only [run_bind, run_map, hsport, hdport, run_dite, run_pure]
  by_cases hcond : f.ModbusPort ∧ 0 < f.payload.length ∧ f.payload.length < 2 ^ 31
  · have hpayload := f.payloadLen_encode h
    rw [if_pos hcond.2.2] at hpayload
    rw [dif_pos ⟨hcond.1, hpos.mpr hcond.2⟩, handover, dif_pos hcond, Option.some.injEq,
      Handover.mk.injEq]
    refine ⟨?_, Subtype.ext hpayload, ?_⟩
    · rw [hpayload, Int.toNat_natCast, run_copy_buffer (fun _ ↦ f.length_encode.ge), f.drop_encode,
        List.take_length]
    · rw [Captured.toNat_len_whole]
      rfl
  · rw [dif_neg fun h' ↦ hcond ⟨h'.1, hpos.mp h'.2⟩, handover, dif_neg hcond]

/-- The payload handed over for a frame, and the length given with it. -/
theorem eq_of_handover_eq_some {f : Frame} {handover : Handover} (h : f.handover = some handover) :
    handover.payload = f.payload ∧ (handover.payload_len : ℤ) = f.payload.length ∧
      handover.data = f.data := by
  rw [Frame.handover] at h
  split at h
  · obtain rfl := Option.some.inj h
    exact ⟨rfl, rfl, rfl⟩
  · cases h

/-- What comes of a frame. -/
def outcome (heap : Heap) (f : Frame) : IpOutcome :=
  match f.handover with
  | none => .ignored
  | some handover => .handed handover (report heap handover)

/-- Looking at an encoded frame. -/
theorem visit_encode (f : Frame) (h : f.encode.length < 2 ^ 32) (heap : Heap)
    (beyond : Memory) : (Captured.whole f.encode h).visit heap beyond = .ip (f.outcome heap) := by
  have htype : htons ((loadUShort 12).run (buffer (Captured.whole f.encode h).bytes beyond)) =
      ETHERTYPE_IP := by
    rw [htons_run_loadUShort]
    exact be16_be16Bytes _
  have hlen := f.length_encode
  have hdecode : (decodeIpPacket (Captured.whole f.encode h).header).run
      (buffer (Captured.whole f.encode h).bytes beyond) = f.handover :=
    f.run_decodeIpPacket_encode h beyond
  rw [Captured.visit, dispatch, Captured.toNat_caplen_whole,
    if_pos (by unfold sizeofEtherHeader; omega), run_bind, run_map, htype, if_pos rfl, run_bind,
    run_pure, processIpPacket, run_bind, hdecode, outcome]
  cases f.handover <;> rfl

/-! ## The record of a frame -/

/-- The object has the addresses, ports and length of the frame, and the packet type its ports
call for. -/
structure IsRecord (f : Frame) (o : QJsonObject) : Prop where
  srcIp : o "srcIp" = some (inet_ntoa f.ip.ip_src)
  dstIp : o "dstIp" = some (inet_ntoa f.ip.ip_dst)
  srcMac : o "srcMac" = some (ether_ntoa f.ether_shost)
  dstMac : o "dstMac" = some (ether_ntoa f.ether_dhost)
  srcPort : o "srcPort" = some (number f.tcp.th_sport.toNat)
  dstPort : o "dstPort" = some (number f.tcp.th_dport.toNat)
  packet_len : o "packet_len" = some (number f.encode.length)
  response : f.tcp.th_sport = 502 → f.tcp.th_dport ≠ 502 →
    o "packet_type" = some "Modbus Response Packet"
  query : f.tcp.th_sport ≠ 502 → f.tcp.th_dport = 502 →
    o "packet_type" = some "Modbus Query Packet"
  both : f.tcp.th_sport = 502 → f.tcp.th_dport = 502 → o "packet_type" = some ""

/-- A record may differ in its Modbus text. -/
theorem IsRecord.congr {f : Frame} {o o' : QJsonObject} (h : f.IsRecord o)
    (ho : ∀ key ≠ "modbus", o' key = o key) : f.IsRecord o' where
  srcIp := (ho _ (by decide)).trans h.srcIp
  dstIp := (ho _ (by decide)).trans h.dstIp
  srcMac := (ho _ (by decide)).trans h.srcMac
  dstMac := (ho _ (by decide)).trans h.dstMac
  srcPort := (ho _ (by decide)).trans h.srcPort
  dstPort := (ho _ (by decide)).trans h.dstPort
  packet_len := (ho _ (by decide)).trans h.packet_len
  response hs hd := (ho _ (by decide)).trans (h.response hs hd)
  query hs hd := (ho _ (by decide)).trans (h.query hs hd)
  both hs hd := (ho _ (by decide)).trans (h.both hs hd)

theorem data_packet_type (f : Frame) :
    f.data "packet_type" = some (packetType f.tcp.th_sport f.tcp.th_dport) := by
  rw [data, QJsonObject.insert_of_ne _ _ (by decide), QJsonObject.insert_self]

theorem isRecord_data (f : Frame) (h : f.encode.length < 2 ^ 31) : f.IsRecord f.data where
  srcIp := rfl
  dstIp := rfl
  srcMac := rfl
  dstMac := rfl
  srcPort := rfl
  dstPort := rfl
  packet_len := by rw [data, QJsonObject.insert_self, toInt_of_lt h]
  response hs hd := by rw [data_packet_type, packetType, if_pos ⟨hs, hd⟩]
  query hs hd := by rw [data_packet_type, packetType, if_neg fun h ↦ hs h.1, if_pos ⟨hs, hd⟩]
  both hs hd := by
    rw [data_packet_type, packetType, if_neg fun h ↦ h.2 hd, if_neg fun h ↦ h.1 hs]

/-- Publishing adds a text to the record and leaves the rest of it alone. -/
theorem report_apply_of_ne {heap : Heap} {handover : Handover} {r : Report}
    (hlen : (handover.payload.length : ℤ) = handover.payload_len)
    (h : report heap handover = some r) {key : String} (hkey : key ≠ "modbus") :
    r.j_data key = handover.data key := by
  obtain ⟨⟨self', modbus_data⟩, hrun, rfl⟩ := Option.map_eq_some_iff.mp h
  rw [Modbus.run_processModbusPacket _ _ _ _ hlen] at hrun
  have hnone : modbus_data key = none := Modbus.decodePayload_apply_of_ne hrun hkey
  change (modbus_data key).or (handover.data key) = handover.data key
  rw [hnone, Option.none_or]

theorem handover_outcome (heap : Heap) (f : Frame) :
    (Dispatch.ip (f.outcome heap)).handover = f.handover := by
  rw [outcome]
  cases f.handover <;> rfl

theorem report_outcome (heap : Heap) (f : Frame) :
    (Dispatch.ip (f.outcome heap)).report = f.handover.bind (report heap) := by
  rw [outcome]
  cases f.handover <;> rfl

/-- The record of a frame is that of the decoder run on its payload. -/
theorem report_eq_of_handover_eq_some {f : Frame} {handover : Handover} (heap : Heap)
    (h : f.handover = some handover) :
    (Dispatch.ip (f.outcome heap)).report =
      ((Modbus.processModbusPacket (heap.after 1) {} handover.payload_len .empty).run
        (buffer f.payload (heap 0))).map fun r ↦
          ⟨f.data.insertAll r.2, split ((f.data.insertAll r.2).value "modbus") ';'⟩ := by
  obtain ⟨hpayload, -, hdata⟩ := eq_of_handover_eq_some h
  rw [report_outcome, h, Option.bind_some, report, hpayload, hdata]

/-- **Frame decoding.** Of a frame captured whole, the payload is handed to the decoder if and only
if it is not empty and a port is 502. What is handed over comes with the fields of the frame; the
decoder runs on the payload with an object of its own; and the record, which there is if and only if
the decoder returns, is the fields with what it publishes. -/
theorem MonitorPcap_decodes (heap : Heap) (f : Frame) (h : f.encode.length < 2 ^ 31)
    (beyond : Memory) (unset : Pointee) :
    ∃ d : Dispatch,
      MonitorPcap heap false (.frame (.whole f.encode (by omega)) beyond) unset =
        some (.delivered (.whole f.encode (by omega)), d) ∧
      (d.handover.isSome ↔ (f.tcp.th_sport = 502 ∨ f.tcp.th_dport = 502) ∧ f.payload ≠ []) ∧
      (∀ handover, d.handover = some handover → handover.payload = f.payload ∧
        (handover.payload_len : ℤ) = f.payload.length ∧ f.IsRecord handover.data ∧
        d.report =
          ((Modbus.processModbusPacket (heap.after 1) {} handover.payload_len .empty).run
            (buffer f.payload (heap 0))).map fun r ↦
              ⟨handover.data.insertAll r.2,
                split ((handover.data.insertAll r.2).value "modbus") ';'⟩) ∧
      (d.report.isSome ↔ d.handover.isSome ∧ ∀ x ∈ (Modbus.mbap.pieces f.payload).1,
        (Modbus.pduOf x).length < 5 ∨ (Modbus.functionCode x).toNat < 128) ∧
      ∀ r, d.report = some r → f.IsRecord r.j_data := by
  have hlen := f.length_encode
  refine ⟨.ip (f.outcome heap), ?_, ?_, fun handover hho ↦ ?_, ?_, fun r hr ↦ ?_⟩
  · rw [MonitorPcap_frame, f.visit_encode]
  · rw [handover_outcome, handover, Option.isSome_dite, ModbusPort, ← List.length_pos_iff,
      @or_comm (f.tcp.th_dport = _) _]
    exact and_congr_right fun _ ↦ and_iff_left (by omega)
  · rw [handover_outcome] at hho
    obtain ⟨hpayload, hlen', hdata⟩ := eq_of_handover_eq_some hho
    refine ⟨hpayload, hlen', hdata ▸ f.isRecord_data h, ?_⟩
    rw [report_eq_of_handover_eq_some heap hho, hdata]
  · rw [handover_outcome]
    cases hho : f.handover with
    | none =>
      rw [report_outcome, hho]
      exact iff_of_false Bool.false_ne_true fun h ↦ Bool.false_ne_true h.1
    | some handover =>
      obtain ⟨-, hlen', -⟩ := eq_of_handover_eq_some hho
      rw [report_eq_of_handover_eq_some heap hho, Option.isSome_map,
        Modbus.isSome_run_processModbusPacket_iff _ _ _ _ hlen'.symm]
      exact (and_iff_right rfl).symm
  · rw [report_outcome] at hr
    obtain ⟨handover, hho, hreport⟩ := Option.bind_eq_some_iff.mp hr
    obtain ⟨hpayload, hlen', hdata⟩ := eq_of_handover_eq_some hho
    refine (f.isRecord_data h).congr fun key hkey ↦ ?_
    rw [report_apply_of_ne (by rw [hpayload, hlen']) hreport hkey, hdata]

/-- A frame without options, whose total length counts a payload of at most `65495` bytes. -/
def plain (th_sport th_dport : UInt16) (payload : List UInt8) : Frame where
  ether_dhost := ⟨0, 128, 244, 9, 81, 59⟩
  ether_shost := ⟨0, 12, 41, 230, 20, 13⟩
  ip := ⟨4, 5, 0, .ofNat (40 + payload.length), 1, 0x4000, 64, 6, 0, ⟨192, 168, 1, 10⟩,
    ⟨192, 168, 1, 20⟩, [], by decide, rfl⟩
  tcp := ⟨th_sport, th_dport, 1, 1, 5, 0, 0x18, 1024, 0, 0, [], by decide, rfl⟩
  payload := payload

theorem MonitorPcap_decodes_plain :
    ∃ d : Dispatch,
      MonitorPcap (fun _ _ ↦ 0) false
          (.frame (.whole (plain 1024 502 [0, 1]).encode (by decide)) fun _ ↦ 0)
          ⟨⟨0, 0⟩, fun _ ↦ 0⟩ =
        some (.delivered (.whole (plain 1024 502 [0, 1]).encode (by decide)), d) ∧
      ∃ handover, d.handover = some handover ∧ handover.payload = [0, 1] ∧
        (handover.payload_len : ℤ) = 2 ∧ (plain 1024 502 [0, 1]).IsRecord handover.data ∧
      ∃ r, d.report = some r ∧ (plain 1024 502 [0, 1]).IsRecord r.j_data := by
  obtain ⟨d, hrun, hho, hpayload, hreport, hrecord⟩ :=
    MonitorPcap_decodes (fun _ _ ↦ 0) (plain 1024 502 [0, 1]) (by decide) (fun _ ↦ 0)
      ⟨⟨0, 0⟩, fun _ ↦ 0⟩
  have hincomplete : Modbus.mbap.Incomplete [0, 1] := by decide
  have hsome := hho.mpr ⟨.inr rfl, List.cons_ne_nil _ _⟩
  obtain ⟨handover, hhandover⟩ := Option.isSome_iff_exists.mp hsome
  obtain ⟨r, hr⟩ := Option.isSome_iff_exists.mp (hreport.mpr ⟨hsome, fun x hx ↦ by
    rw [plain, hincomplete.pieces_eq] at hx
    exact absurd hx List.not_mem_nil⟩)
  obtain ⟨hbytes, hlen, hdata, -⟩ := hpayload handover hhandover
  exact ⟨d, hrun, handover, hhandover, hbytes, hlen, hdata, r, hr, hrecord r hr⟩

end Frame

end Sniffer

end OtTcpListener
