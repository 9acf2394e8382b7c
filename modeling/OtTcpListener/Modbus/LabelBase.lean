import OtTcpListener.Modbus.Session

/-!
# The label base

`m_lastAddress` is the number of the first register in a list of registers. It should be the start
address of the last request, and it is set where the code believes to have a request before it: for
function codes 3 and 4 and a PDU of exactly eight bytes.

A request has five bytes, so none is ever recognized, and a response with three registers has eight.
So the base stays at its initial 0 until the first response with three registers, which sets it to
its byte count and the high byte of its first register. The sequences of messages along which the
base is what it should be are therefore those in which no response has three registers and every
request asks for address 0 (`tracks_iff`).
-/

namespace OtTcpListener

open Probe QString

namespace Modbus

/-! ## Messages -/

/-- The well-formed PDUs. -/
inductive Content where
  /-- A request to read holding or input registers. -/
  | readRequest (function : UInt8) (address quantity : UInt16)
    (function_eq : function = 3 ∨ function = 4)
  /-- The response to one. -/
  | readResponse (function : UInt8) (registers : List UInt16)
    (function_eq : function = 3 ∨ function = 4) (length_registers_le : registers.length ≤ 127)
  /-- An exception response to a request of any function. -/
  | exception (function code : UInt8)
  /-- A request or a response of any other function. -/
  | other (function : UInt8) (body : List UInt8) (function_lt : function.toNat < 128)
    (function_ne : function ≠ 3 ∧ function ≠ 4) (length_body_le : body.length ≤ 65533)

namespace Content

/-- The bytes. -/
def pdu : Content → List UInt8
  | readRequest function address quantity _ => function :: (be16Bytes address ++ be16Bytes quantity)
  | readResponse function registers _ _ =>
    function :: .ofNat (2 * registers.length) :: registers.flatMap be16Bytes
  | exception function code => [function ||| 128, code]
  | other function body _ _ _ => function :: body

theorem length_pdu_readResponse {function : UInt8} {registers : List UInt16}
    (hfc : function = 3 ∨ function = 4) (hlen : registers.length ≤ 127) :
    (readResponse function registers hfc hlen).pdu.length = 2 + 2 * registers.length := by
  rw [pdu, List.length_cons, List.length_cons, length_flatMap_be16Bytes]
  omega

theorem length_pdu_le (c : Content) : c.pdu.length ≤ 65534 := by
  cases c with
  | readRequest function address quantity hfc => exact (by decide : 5 ≤ 65534)
  | readResponse function registers hfc hlen =>
    rw [length_pdu_readResponse]
    omega
  | exception function code => exact (by decide : 2 ≤ 65534)
  | other function body hlt hne hlen => exact Nat.succ_le_succ hlen

/-- The start address that a request to read registers sets. -/
def startAddress? : Content → Option UInt16
  | readRequest _ address _ _ => some address
  | _ => none

/-- A request for address 0, a response without exactly three registers, or another function. -/
def Harmless : Content → Prop
  | readRequest _ address _ _ => address = 0
  | readResponse _ registers _ _ => registers.length ≠ 3
  | _ => True

end Content

/-- An ADU that carries a well-formed PDU. -/
structure Message where
  transaction_id : UInt16
  protocol_identifier : UInt16
  unit_identifier : UInt8
  content : Content

namespace Message

/-- The ADU. -/
def adu (m : Message) : Adu :=
  ⟨m.transaction_id, m.protocol_identifier, m.unit_identifier, m.content.pdu,
    m.content.length_pdu_le⟩

/-- The PDU has no exception bit, or it is short. -/
theorem returns (m : Message) :
    (pduOf m.adu.encode).length < 5 ∨ (functionCode m.adu.encode).toNat < 128 := by
  rw [functionCode, Adu.pduOf_encode]
  change m.content.pdu.length < 5 ∨ (m.content.pdu.getD 0 0).toNat < 128
  cases m.content with
  | readRequest function address quantity hfc => exact .inr (toNat_lt_of_read hfc)
  | readResponse function registers hfc hlen => exact .inr (toNat_lt_of_read hfc)
  | exception function code => exact .inl (by decide : 2 < 5)
  | other function body hlt hne hlen => exact .inr hlt

end Message

/-- The start address of the most recent request to read registers, 0 before the first. -/
def startAddress (messages : List Message) : UInt16 :=
  messages.foldl (fun base m ↦ m.content.startAddress?.getD base) 0

/-! ## The base the code keeps -/

/-- `m_lastAddress` after a PDU. -/
def nextBase (last : UInt16) (pdu : List UInt8) : UInt16 :=
  if pdu.length = 8 ∧ (pdu.getD 0 0 = 3 ∨ pdu.getD 0 0 = 4) then
    be16 (pdu.getD 1 0) (pdu.getD 2 0)
  else last

theorem eq_nextBase {last last' : UInt16} {beyond : Memory} {x : List UInt8} {reply : QString}
    (hx : mbap.IsFrame x)
    (h : (analyzeModbusPacket last ((lengthField x).toNat - 1)).run (buffer (pduOf x) beyond) =
      some (reply, last')) : last' = nextBase last (pduOf x) := by
  have hlen := length_pduOf hx
  rcases run_analyzeModbusPacket_cases h with ⟨h8, -, rfl⟩ | ⟨_, -, -, rfl⟩
  · rw [nextBase, if_neg fun h ↦ by omega]
  · by_cases h8 : (pduOf x).length = 8
    · have hcell : ∀ i < 8, buffer (pduOf x) beyond i = (pduOf x).getD i 0 := fun i hi ↦ by
        rw [buffer_of_lt (by omega), List.getD_eq_getElem _ _ (by omega)]
      have hint : ((lengthField x).toNat - 1 : ℤ) = 8 := by omega
      rw [nextBase, hcell 0 (by omega), hcell 1 (by omega), hcell 2 (by omega)]
      simp only [h8, hint]
    · have hint : ¬((lengthField x).toNat - 1 : ℤ) = 8 := by omega
      rw [nextBase, if_neg (mt And.left hint), if_neg (mt And.left h8)]

theorem eq_foldl_nextBase {heap : Heap} {last last' : UInt16} {pieces : List (List UInt8)}
    {gs : List (List QString)} (hframes : ∀ x ∈ pieces, mbap.IsFrame x)
    (h : decodePieces heap last pieces = some (gs, last')) :
    last' = (pieces.map pduOf).foldl nextBase last := by
  induction pieces generalizing heap last gs with
  | nil =>
    rw [decodePieces, Option.some.injEq, Prod.mk.injEq] at h
    exact h.2.symm
  | cons x pieces ih =>
    obtain ⟨reply, last₁, gs', hreply, htail, -⟩ := exists_of_decodePieces_cons h
    rw [List.map_cons, List.foldl_cons, ← eq_nextBase (hframes x List.mem_cons_self) hreply]
    exact ih (fun y hy ↦ hframes y (List.mem_cons_of_mem x hy)) htail

/-- The PDUs of the complete ADUs of a payload. -/
def Payload.pdus (p : Payload) : List (List UInt8) := (mbap.pieces p.bytes).1.map pduOf

theorem m_lastAddress_deliver {self self' : Modbus} {p : Payload} {modbus_data : QJsonObject}
    (h : deliver self p = some (self', modbus_data)) :
    self'.m_lastAddress = p.pdus.foldl nextBase self.m_lastAddress := by
  rw [deliver_eq] at h
  obtain ⟨gs, hpieces, -⟩ := exists_of_decodePayload h
  exact eq_foldl_nextBase (fun _ ↦ SelfDelimiting.isFrame_of_mem_pieces) hpieces

theorem m_lastAddress_objectAfter {self self' : Modbus} {payloads : List Payload}
    (h : objectAfter self payloads = some self') :
    self'.m_lastAddress = (payloads.flatMap Payload.pdus).foldl nextBase self.m_lastAddress := by
  induction payloads using List.reverseRecOn generalizing self' with
  | nil => rw [← Option.some.inj h, List.flatMap_nil, List.foldl_nil]
  | append_singleton done p ih =>
    obtain ⟨s, modbus_data, hs, hdeliver⟩ := objectAfter_concat_eq_some.mp h
    rw [m_lastAddress_deliver hdeliver, ih hs, List.flatMap_append, List.foldl_append,
      List.flatMap_singleton]

/-! ## The base and the messages -/

namespace Content

/-- What a message makes of the base that nothing has changed yet. It is what the message asks for
exactly when the message is harmless. -/
theorem nextBase_zero_eq_iff (c : Content) :
    nextBase 0 c.pdu = c.startAddress?.getD 0 ↔ c.Harmless := by
  cases c with
  | readRequest function address quantity hfc =>
    have hlen : (readRequest function address quantity hfc).pdu.length = 5 := rfl
    rw [nextBase, if_neg fun h ↦ by omega]
    exact eq_comm
  | readResponse function registers hfc hlen =>
    have hpdu := length_pdu_readResponse hfc hlen
    by_cases hthree : registers.length = 3
    · -- the byte count becomes the high byte of the base
      rw [nextBase, if_pos ⟨by omega, hfc⟩]
      refine iff_of_false (fun h ↦ ?_) fun h ↦ h hthree
      have hvalue := congrArg UInt16.toNat h
      rw [toNat_be16] at hvalue
      have hcount : (UInt8.ofNat (2 * registers.length)).toNat = 6 := by rw [hthree]; rfl
      change (UInt8.ofNat (2 * registers.length)).toNat * 256 + _ = 0 at hvalue
      omega
    · rw [nextBase, if_neg fun h ↦ by omega]
      exact iff_of_true rfl hthree
  | exception function code => exact iff_of_true rfl trivial
  | other function body hlt hne hlen =>
    rw [nextBase, if_neg fun h ↦ not_or.mpr hne h.2]
    exact iff_of_true rfl trivial

theorem startAddress?_getD_of_harmless {c : Content} (h : c.Harmless) :
    c.startAddress?.getD 0 = 0 := by
  cases c with
  | readRequest function address quantity hfc => exact h
  | readResponse function registers hfc hlen => rfl
  | exception function code => rfl
  | other function body hlt hne hlen => rfl

end Content

/-- The base after the messages. -/
def base (messages : List Message) : UInt16 :=
  (messages.map fun m ↦ m.content.pdu).foldl nextBase 0

/-- The payloads carry the messages, one or more in each. -/
def Carries (payloads : List Payload) (messages : List Message) : Prop :=
  ∃ parts : List (List Message), parts.flatten = messages ∧
    List.Forall₂ (fun p part ↦ p.bytes = encodeAll (part.map Message.adu)) payloads parts

theorem pieces_of_eq_encodeAll {p : Payload} {part : List Message}
    (h : p.bytes = encodeAll (part.map Message.adu)) :
    (mbap.pieces p.bytes).1 = part.map fun m ↦ m.adu.encode := by
  have hpieces := pieces_encodeAll_append (part.map Message.adu) mbap.incomplete_nil
  rw [List.append_nil, ← h] at hpieces
  rw [hpieces, List.map_map]
  rfl

theorem Carries.flatMap_pdus {payloads : List Payload} {messages : List Message}
    (h : Carries payloads messages) :
    payloads.flatMap Payload.pdus = messages.map fun m ↦ m.content.pdu := by
  obtain ⟨parts, rfl, hparts⟩ := h
  induction hparts with
  | nil => rfl
  | cons hpart _ ih =>
    rw [List.flatMap_cons, List.flatten_cons, List.map_append, ← ih, Payload.pdus,
      pieces_of_eq_encodeAll hpart, List.map_map]
    rfl

theorem Carries.returns {payloads : List Payload} {messages : List Message}
    (h : Carries payloads messages) : ∀ p ∈ payloads, p.Returns := by
  obtain ⟨parts, -, hparts⟩ := h
  intro p hp
  induction hparts with
  | nil => exact absurd hp List.not_mem_nil
  | cons hpart _ ih =>
    rcases List.mem_cons.mp hp with rfl | hp
    · intro x hx
      rw [pieces_of_eq_encodeAll hpart] at hx
      obtain ⟨m, -, rfl⟩ := List.mem_map.mp hx
      exact m.returns
    · exact ih hp

/-- However the messages are cut into payloads, the object holds their base afterwards. -/
theorem Carries.exists_objectAfter {payloads : List Payload} {messages : List Message}
    (h : Carries payloads messages) :
    ∃ self', objectAfter {} payloads = some self' ∧ self'.m_lastAddress = base messages := by
  obtain ⟨self', hself'⟩ :=
    Option.isSome_iff_exists.mp ((isSome_objectAfter_iff {} payloads).mpr h.returns)
  refine ⟨self', hself', ?_⟩
  rw [m_lastAddress_objectAfter hself', h.flatMap_pdus, base]

/-- One message alone in a payload. -/
def Message.payload (m : Message) : Payload where
  bytes := m.adu.encode
  beyond _ := 0
  heap _ _ := 0
  length_pos := by
    rw [Adu.length_encode]
    omega
  length_lt := by
    have := m.adu.length_pdu_le
    rw [Adu.length_encode]
    omega

theorem carries_map_payload (messages : List Message) :
    Carries (messages.map Message.payload) messages := by
  refine ⟨messages.map fun m ↦ [m], ?_, ?_⟩
  · induction messages with
    | nil => rfl
    | cons m messages ih => rw [List.map_cons, List.flatten_cons, ih, List.singleton_append]
  · rw [List.forall₂_map_left_iff, List.forall₂_map_right_iff, List.forall₂_same]
    intro m _
    exact (List.flatten_singleton).symm

/-! ## The invariant -/

/-- However a beginning of the messages is cut into payloads, `m_lastAddress` is afterwards the
start address of the most recent request to read registers; and no other message changes it. -/
structure Tracks (messages : List Message) : Prop where
  base : ∀ payloads done, Carries payloads done → done <+: messages →
    ∃ self', objectAfter {} payloads = some self' ∧ self'.m_lastAddress = startAddress done
  keeps : ∀ payloads payloads' done m, Carries payloads done → Carries payloads' (done ++ [m]) →
    done ++ [m] <+: messages → m.content.startAddress? = none →
    ∃ self self', objectAfter {} payloads = some self ∧ objectAfter {} payloads' = some self' ∧
      self'.m_lastAddress = self.m_lastAddress

theorem base_concat (messages : List Message) (m : Message) :
    base (messages ++ [m]) = nextBase (base messages) m.content.pdu := by
  rw [base, List.map_append, List.foldl_append, ← base]
  rfl

theorem startAddress_concat (messages : List Message) (m : Message) :
    startAddress (messages ++ [m]) = m.content.startAddress?.getD (startAddress messages) := by
  rw [startAddress, List.foldl_append, ← startAddress]
  rfl

/-- How the messages are cut into payloads does not matter. -/
theorem tracks_iff_base (messages : List Message) :
    Tracks messages ↔ ∀ done, done <+: messages → base done = startAddress done := by
  constructor
  · intro h done hdone
    obtain ⟨self', hself', hbase⟩ := h.base _ done (carries_map_payload done) hdone
    obtain ⟨self'', hself'', hbase'⟩ := (carries_map_payload done).exists_objectAfter
    rw [hself', Option.some.injEq] at hself''
    rw [← hbase', ← hself'', hbase]
  · intro h
    constructor
    · intro payloads done hcarries hdone
      rw [← h done hdone]
      exact hcarries.exists_objectAfter
    · intro payloads payloads' done m hcarries hcarries' hdone hnone
      obtain ⟨self, hself, hbase⟩ := hcarries.exists_objectAfter
      obtain ⟨self', hself', hbase'⟩ := hcarries'.exists_objectAfter
      refine ⟨self, self', hself, hself', ?_⟩
      rw [hbase, hbase', h _ hdone, h done ((List.prefix_append _ _).trans hdone),
        startAddress_concat, hnone, Option.getD_none]

theorem startAddress_of_harmless {messages : List Message}
    (h : ∀ m ∈ messages, m.content.Harmless) : startAddress messages = 0 := by
  induction messages using List.reverseRecOn with
  | nil => rfl
  | append_singleton messages m ih =>
    rw [List.forall_mem_append, List.forall_mem_singleton] at h
    rw [startAddress_concat, ih h.1, Content.startAddress?_getD_of_harmless h.2]

/-- **The label base.** Along a sequence of messages `m_lastAddress` is the start address of the
most recent request to read registers, and nothing else changes it, if and only if every such
request asks for address 0 and no response carries exactly three registers. -/
theorem tracks_iff (messages : List Message) :
    Tracks messages ↔ ∀ m ∈ messages, m.content.Harmless := by
  rw [tracks_iff_base]
  induction messages using List.reverseRecOn with
  | nil =>
    refine iff_of_true (fun done hdone ↦ ?_) fun _ h ↦ absurd h List.not_mem_nil
    rw [List.prefix_nil.mp hdone]
    rfl
  | append_singleton messages m ih =>
    -- the longest beginning decides about the last message, the others about those before it
    simp only [List.prefix_concat_iff, forall_eq_or_imp, ih, List.forall_mem_append,
      List.forall_mem_singleton]
    rw [and_comm]
    refine and_congr_right fun hharmless ↦ ?_
    have hbefore := startAddress_of_harmless hharmless
    have hbase : base messages = 0 := by
      rw [← hbefore]
      exact ih.mpr hharmless messages (List.prefix_refl _)
    rw [base_concat, startAddress_concat, hbase, hbefore]
    exact m.content.nextBase_zero_eq_iff

/-- A request to read one register from address 100. -/
def readAt100 : Message := ⟨1, 0, 1, .readRequest 3 100 1 three_eq_three_or_four⟩

theorem not_tracks_readAt100 : ¬∀ messages : List Message, Tracks messages := by
  intro h
  have hbase := (tracks_iff_base [readAt100]).mp (h _) _ (List.prefix_refl _)
  exact absurd hbase (by decide)

end Modbus

end OtTcpListener
