import OtTcpListener.Modbus.Adu

/-!
# Framing

What becomes of a payload that is a sequence of ADUs. A complete sequence is published as one group
of texts per ADU, in order, and only a sequence is ever published
(`processModbusPacket_publishes_groups`). A sequence followed by part of one more ADU is not
published at all (`processModbusPacket_truncated`), because the guard that notices the missing bytes
leaves by the same return whatever has been collected. Decoding completes unless some ADU with at
least five bytes of PDU has the exception bit (`isSome_run_processModbusPacket_iff`).
-/

namespace OtTcpListener

open Probe QString

namespace Modbus

/-! ## Encoded units -/

/-- A Modbus/TCP application data unit. -/
structure Adu where
  transaction_id : UInt16
  protocol_identifier : UInt16
  unit_identifier : UInt8
  pdu : List UInt8
  /-- The length field counts the unit identifier and the PDU in sixteen bits. -/
  length_pdu_le : pdu.length ≤ 65534

namespace Adu

/-- The length field. -/
def lenght (a : Adu) : UInt16 := .ofNat (1 + a.pdu.length)

/-- The bytes on the wire. -/
def encode (a : Adu) : List UInt8 :=
  be16Bytes a.transaction_id ++ be16Bytes a.protocol_identifier ++ be16Bytes a.lenght ++
    a.unit_identifier :: a.pdu

@[simp] theorem toNat_lenght (a : Adu) : a.lenght.toNat = 1 + a.pdu.length := by
  have := a.length_pdu_le
  rw [lenght, UInt16.toNat_ofNat_of_lt' (by rw [UInt16.size]; omega)]

/-- The length field without the unit identifier. -/
theorem lenght_sub_one (a : Adu) : (a.lenght.toNat - 1 : ℤ) = a.pdu.length := by
  rw [toNat_lenght]
  omega

@[simp] theorem transactionId_encode (a : Adu) : transactionId a.encode = a.transaction_id :=
  be16_be16Bytes _

@[simp] theorem lengthField_encode (a : Adu) : lengthField a.encode = a.lenght :=
  be16_be16Bytes _

@[simp] theorem pduOf_encode (a : Adu) : pduOf a.encode = a.pdu := rfl

@[simp] theorem length_encode (a : Adu) : a.encode.length = 7 + a.pdu.length := by
  exact Nat.add_comm a.pdu.length 7

theorem isFrame_encode (a : Adu) : mbap.IsFrame a.encode := by
  rw [isFrame_iff, lengthField_encode, toNat_lenght, length_encode]
  omega

/-- `analyzeModbusPacket` returns on the PDU and reads only inside it. -/
def Readable (a : Adu) : Prop :=
  ∀ (last : UInt16) (beyond : Memory),
    ((analyzeModbusPacket last a.pdu.length).run (buffer a.pdu beyond)).isSome ∧
      ReadsIn (fun i : ℕ ↦ (i : ℤ) < a.pdu.length) (analyzeModbusPacket last a.pdu.length)
        (buffer a.pdu beyond)

/-- What `analyzeModbusPacket` makes of the PDU: the reply and the new `m_lastAddress`. -/
def reply (last : UInt16) (a : Adu) : Option (QString × UInt16) :=
  (analyzeModbusPacket last a.pdu.length).run (buffer a.pdu fun _ ↦ 0)

/-- On a readable PDU the reply does not depend on what lies past it. -/
theorem Readable.run_eq {a : Adu} (ha : a.Readable) (last : UInt16) (beyond : Memory) :
    (analyzeModbusPacket last a.pdu.length).run (buffer a.pdu beyond) = a.reply last := by
  refine (ha last beyond).2.run_congr fun i hi ↦ ?_
  have hi' : i < a.pdu.length := by omega
  rw [buffer_of_lt hi', buffer_of_lt hi']

/-- Whether a PDU is readable is decided by its own bytes. -/
theorem readable_iff (a : Adu) : a.Readable ↔
    ¬((5 : ℤ) ≤ a.pdu.length ∧ 128 ≤ (buffer a.pdu (fun _ ↦ 0) 0).toNat) ∧
      ByteCountFits a.pdu.length (buffer a.pdu fun _ ↦ 0) := by
  have hcell : ∀ (beyond : Memory) (i : ℕ), i < a.pdu.length →
      buffer a.pdu beyond i = buffer a.pdu (fun _ ↦ 0) i := fun beyond i hi ↦ by
    rw [buffer_of_lt hi, buffer_of_lt hi]
  simp only [Readable, readsIn_analyzeModbusPacket_iff, Option.isSome_iff_ne_none, ne_eq,
    run_analyzeModbusPacket_eq_none_iff, forall_const]
  refine ⟨fun h ↦ h _, fun ⟨hret, hfits⟩ beyond ↦ ⟨fun ⟨h5, hexc⟩ ↦ ?_, fun h8 ↦ ?_⟩⟩
  · rw [hcell beyond 0 (by omega)] at hexc
    exact hret ⟨h5, hexc⟩
  · rw [hcell beyond 0 (by omega), hcell beyond 1 (by omega), hcell beyond 5 (by omega)]
    exact hfits h8

instance (a : Adu) : Decidable a.Readable := decidable_of_iff' _ a.readable_iff

/-- The texts of one ADU. -/
def texts (a : Adu) (reply : QString) : List QString :=
  ["Transaction Id:" ++ number a.transaction_id.toNat, "Lenght:" ++ number a.pdu.length,
    "Hex:" ++ toHex a.pdu] ++ if reply = "" then [] else [reply]

theorem group_eq_texts (a : Adu) (reply : QString) :
    group a.transaction_id a.lenght a.pdu reply = a.texts reply := by
  rw [group, texts, lenght_sub_one]
  simp only [String.isEmpty_iff]

/-- A payload of one unit is published as its texts. -/
theorem decodePayload_encode (heap : Heap) (self : Modbus) (modbus_data : QJsonObject) (a : Adu) :
    decodePayload heap self modbus_data a.encode =
      ((analyzeModbusPacket self.m_lastAddress a.pdu.length).run (buffer a.pdu (heap 0))).map
        fun r ↦ (⟨[], r.2⟩, modbus_data.insert "modbus" (join (self.data ++ a.texts r.1) ';')) := by
  rw [decodePayload_of_isFrame heap self modbus_data a.isFrame_encode, a.lengthField_encode,
    a.pduOf_encode, a.transactionId_encode, a.lenght_sub_one]
  simp only [a.group_eq_texts]

end Adu

/-- The concatenated encodings. -/
def encodeAll (adus : List Adu) : List UInt8 := (adus.map Adu.encode).flatten

/-- One group of texts per ADU, with `m_lastAddress` threaded from each to the next. -/
def groups (last : UInt16) : List Adu → Option (List (List QString) × UInt16)
  | [] => some ([], last)
  | a :: adus =>
    match a.reply last with
    | none => none
    | some (reply, last') => (groups last' adus).map fun r ↦ (a.texts reply :: r.1, r.2)

theorem pieces_encodeAll_append (adus : List Adu) {rest : List UInt8}
    (hrest : mbap.Incomplete rest) :
    mbap.pieces (encodeAll adus ++ rest) = (adus.map Adu.encode, rest) :=
  SelfDelimiting.pieces_flatten_append
    (fun _ hx ↦ by obtain ⟨a, -, rfl⟩ := List.mem_map.mp hx; exact a.isFrame_encode) hrest

theorem decodePieces_map_encode (heap : Heap) (last : UInt16) {adus : List Adu}
    (h : ∀ a ∈ adus, a.Readable) :
    decodePieces heap last (adus.map Adu.encode) = groups last adus := by
  induction adus generalizing heap last with
  | nil => rfl
  | cons a adus ih =>
    rw [List.map_cons, decodePieces, groups, a.lengthField_encode, a.pduOf_encode,
      a.transactionId_encode, a.lenght_sub_one, (h a List.mem_cons_self).run_eq]
    cases a.reply last with
    | none => rfl
    | some r =>
      simp only [a.group_eq_texts, ih _ _ fun b hb ↦ h b (List.mem_cons_of_mem a hb)]

theorem exists_groups (last : UInt16) {adus : List Adu} (h : ∀ a ∈ adus, a.Readable) :
    ∃ gs last', groups last adus = some (gs, last') ∧ gs.length = adus.length := by
  induction adus generalizing last with
  | nil => exact ⟨[], last, rfl, rfl⟩
  | cons a adus ih =>
    obtain ⟨⟨reply, last'⟩, hreply⟩ := Option.isSome_iff_exists.mp
      (h a List.mem_cons_self last fun _ ↦ 0).1
    obtain ⟨gs, last'', hgs, hlen⟩ := ih last' fun b hb ↦ h b (List.mem_cons_of_mem a hb)
    refine ⟨a.texts reply :: gs, last'', ?_, by rw [List.length_cons, hlen, List.length_cons]⟩
    rw [groups, Adu.reply, hreply]
    simp only [hgs, Option.map_some]

/-- Decoding a sequence of units followed by an incomplete one. -/
theorem decodePayload_encodeAll_append (heap : Heap) (self : Modbus) (modbus_data : QJsonObject)
    {adus : List Adu} (h : ∀ a ∈ adus, a.Readable) {rest : List UInt8}
    (hrest : mbap.Incomplete rest) :
    decodePayload heap self modbus_data (encodeAll adus ++ rest) =
      (groups self.m_lastAddress adus).map fun r ↦
        if rest = [] then
          (⟨[], r.2⟩, modbus_data.insert "modbus" (join (self.data ++ r.1.flatten) ';'))
        else (⟨self.data ++ r.1.flatten, r.2⟩, modbus_data) := by
  rw [decodePayload, pieces_encodeAll_append adus hrest, decodePieces_map_encode _ _ h]

/-! ## Published texts -/

/-- The `k`-th piece of a payload, found by walking from offset 0 in steps of six more than the
length field found there. -/
def pieceAt (payload : List UInt8) (k : ℕ) : List UInt8 :=
  (payload.take (mbap.walk payload (k + 1))).drop (mbap.walk payload k)

/-- `texts` is what the splitter appends for `piece`: the header fields, the bytes, and the reply of
a call of `analyzeModbusPacket` on the PDU of that piece. -/
def IsGroupOf (texts : List QString) (piece : List UInt8) : Prop :=
  ∃ (last : UInt16) (beyond : Memory) (reply : QString) (last' : UInt16),
    (analyzeModbusPacket last ((lengthField piece).toNat - 1)).run (buffer (pduOf piece) beyond) =
      some (reply, last') ∧
    texts = group (transactionId piece) (lengthField piece) (pduOf piece) reply

theorem isGroupOf_of_decodePieces {heap : Heap} {last last' : UInt16} {pieces : List (List UInt8)}
    {gs : List (List QString)} (h : decodePieces heap last pieces = some (gs, last')) :
    List.Forall₂ IsGroupOf gs pieces := by
  induction pieces generalizing heap last gs with
  | nil =>
    rw [decodePieces, Option.some.injEq, Prod.mk.injEq] at h
    rw [← h.1]
    exact .nil
  | cons piece pieces ih =>
    obtain ⟨reply, last₁, gs', hreply, htail, rfl⟩ := exists_of_decodePieces_cons h
    exact .cons ⟨last, _, reply, last₁, hreply, rfl⟩ (ih htail)

/-- A payload that is published was cut without remainder, and the text is one group per piece. -/
theorem exists_groups_of_published {heap : Heap} {self self' : Modbus}
    {modbus_data modbus_data' : QJsonObject} {payload : List UInt8} {text : QString}
    (hkey : modbus_data "modbus" = none) (hdata : self.data = [])
    (hrun : decodePayload heap self modbus_data payload = some (self', modbus_data'))
    (htext : modbus_data' "modbus" = some text) :
    ∃ gs : List (List QString), text = join gs.flatten ';' ∧
      gs.length = (mbap.pieces payload).1.length ∧ mbap.walk payload gs.length = payload.length ∧
      ∀ (k : ℕ) (hk : k < gs.length), IsGroupOf gs[k] (pieceAt payload k) := by
  obtain ⟨gs, hpieces, ⟨hrest, -, rfl⟩ | ⟨-, -, rfl⟩⟩ := exists_of_decodePayload hrun
  · have hgroups := isGroupOf_of_decodePieces hpieces
    rw [QJsonObject.insert_self, Option.some.injEq, hdata, List.nil_append] at htext
    refine ⟨gs, htext.symm, hgroups.length_eq, ?_, fun k hk ↦ ?_⟩
    · have hwalk := mbap.walk_length_pieces payload
      rwa [hrest, List.length_nil, Nat.add_zero, ← hgroups.length_eq] at hwalk
    · have hk' : k < (mbap.pieces payload).1.length := hgroups.length_eq ▸ hk
      have hpiece := (SelfDelimiting.getElem?_pieces payload hk').2
      rw [List.getElem?_eq_getElem hk', Option.some.injEq] at hpiece
      rw [pieceAt, ← hpiece]
      exact hgroups.get hk hk'
  · rw [hkey] at htext
    cases htext

/-- **Framing.** A payload made of ADUs whose PDUs can be decoded is published as one group of texts
per ADU, in order. Conversely the text published for any payload has as many groups as the payload
has pieces, the pieces use up the payload, and the `k`-th group is that of the `k`-th piece. -/
theorem processModbusPacket_publishes_groups (heap : Heap) (last : UInt16) (length : PosInt)
    (modbus_data : QJsonObject) (beyond : Memory) :
    (∀ adus : List Adu, (∀ a ∈ adus, a.Readable) → ((encodeAll adus).length : ℤ) = length →
      ∃ gs last', groups last adus = some (gs, last') ∧ gs.length = adus.length ∧
        (processModbusPacket heap ⟨[], last⟩ length modbus_data).run
            (buffer (encodeAll adus) beyond) =
          some (⟨[], last'⟩, modbus_data.insert "modbus" (join gs.flatten ';'))) ∧
    (∀ (payload : List UInt8) (self' : Modbus) (modbus_data' : QJsonObject) (text : QString),
      (payload.length : ℤ) = length → modbus_data "modbus" = none →
      (processModbusPacket heap ⟨[], last⟩ length modbus_data).run (buffer payload beyond) =
        some (self', modbus_data') →
      modbus_data' "modbus" = some text →
      ∃ gs : List (List QString), text = join gs.flatten ';' ∧
        gs.length = (mbap.pieces payload).1.length ∧
        mbap.walk payload gs.length = payload.length ∧
        ∀ (k : ℕ) (hk : k < gs.length), IsGroupOf gs[k] (pieceAt payload k)) := by
  refine ⟨fun adus hadus hlen ↦ ?_, fun payload self' modbus_data' text hlen hkey hrun htext ↦ ?_⟩
  · obtain ⟨gs, last', hgs, hcount⟩ := exists_groups last hadus
    refine ⟨gs, last', hgs, hcount, ?_⟩
    have hpayload := decodePayload_encodeAll_append heap ⟨[], last⟩ modbus_data hadus
      mbap.incomplete_nil
    rw [List.append_nil, hgs] at hpayload
    rw [run_processModbusPacket heap _ length modbus_data hlen, hpayload]
    rfl
  · rw [run_processModbusPacket heap _ length modbus_data hlen] at hrun
    exact exists_groups_of_published hkey rfl hrun htext

/-- Two responses with four registers each, one after the other. -/
def twoResponses : List Adu :=
  [⟨1, 0, 1, [3, 8, 0, 1, 0, 2, 0, 3, 0, 4], by decide⟩,
    ⟨2, 0, 1, [4, 8, 0, 5, 0, 6, 0, 7, 255, 255], by decide⟩]

theorem processModbusPacket_publishes_twoResponses :
    ∃ (gs gs' : List (List QString)) (last' : UInt16),
      groups 0 twoResponses = some (gs, last') ∧ gs.length = 2 ∧
      (processModbusPacket (fun _ _ ↦ 0) {} ⟨34, by decide⟩ .empty).run
          (buffer (encodeAll twoResponses) fun _ ↦ 0) =
        some (⟨[], last'⟩, QJsonObject.empty.insert "modbus" (join gs.flatten ';')) ∧
      join gs.flatten ';' = join gs'.flatten ';' ∧
      gs'.length = (mbap.pieces (encodeAll twoResponses)).1.length ∧
      mbap.walk (encodeAll twoResponses) gs'.length = 34 ∧
      ∀ (k : ℕ) (hk : k < gs'.length), IsGroupOf gs'[k] (pieceAt (encodeAll twoResponses) k) := by
  obtain ⟨hforward, hback⟩ := processModbusPacket_publishes_groups (fun _ _ ↦ 0) 0
    ⟨34, by decide⟩ .empty fun _ ↦ 0
  obtain ⟨gs, last', hgs, hcount, hrun⟩ := hforward twoResponses (by decide) rfl
  obtain ⟨gs', htext, hpieces, hwalk, hgroups⟩ := hback (encodeAll twoResponses) _ _ _ rfl rfl hrun
    (QJsonObject.insert_self ..)
  exact ⟨gs, gs', last', hgs, hcount, hrun, htext, hpieces, hwalk, hgroups⟩

/-! ## Completion -/

/-- The function code of a piece. -/
def functionCode (piece : List UInt8) : UInt8 := (pduOf piece).getD 0 0

/-- The PDU of a piece on which `analyzeModbusPacket` does not return. -/
theorem run_pduOf_eq_none_iff (last : UInt16) (beyond : Memory) {x : List UInt8}
    (hx : mbap.IsFrame x) :
    (analyzeModbusPacket last ((lengthField x).toNat - 1)).run (buffer (pduOf x) beyond) = none ↔
      5 ≤ (pduOf x).length ∧ 128 ≤ (functionCode x).toNat := by
  have hlen := length_pduOf hx
  have hcode : 5 ≤ (pduOf x).length → buffer (pduOf x) beyond 0 = functionCode x := fun h ↦ by
    rw [functionCode, buffer_of_lt (by omega), List.getD_eq_getElem _ _ (by omega)]
  rw [run_analyzeModbusPacket_eq_none_iff]
  constructor
  · rintro ⟨h5, hexc⟩
    rw [hcode (by omega)] at hexc
    exact ⟨by omega, hexc⟩
  · rintro ⟨h5, hexc⟩
    rw [hcode h5]
    exact ⟨by omega, hexc⟩

theorem isSome_decodePieces_iff (heap : Heap) (last : UInt16) {pieces : List (List UInt8)}
    (hframes : ∀ x ∈ pieces, mbap.IsFrame x) :
    (decodePieces heap last pieces).isSome ↔
      ∀ x ∈ pieces, (pduOf x).length < 5 ∨ (functionCode x).toNat < 128 := by
  induction pieces generalizing heap last with
  | nil => simp [decodePieces]
  | cons x pieces ih =>
    have hnone := run_pduOf_eq_none_iff last (heap 0) (hframes x List.mem_cons_self)
    rw [List.forall_mem_cons, decodePieces]
    cases hreply : (analyzeModbusPacket last ((lengthField x).toNat - 1)).run
        (buffer (pduOf x) (heap 0)) with
    | none =>
      -- nothing behind this piece is decoded, and this piece fails the condition
      obtain ⟨h5, hexc⟩ := hnone.mp hreply
      refine iff_of_false (by simp) fun h ↦ ?_
      rcases h.1 with h | h <;> omega
    | some r =>
      have hx : (pduOf x).length < 5 ∨ (functionCode x).toNat < 128 := by
        by_contra hc
        push Not at hc
        exact Option.some_ne_none r (hreply ▸ hnone.mpr hc)
      simp only [Option.isSome_map, ih _ _ fun y hy ↦ hframes y (List.mem_cons_of_mem x hy), hx,
        true_and]

/-- **Completion.** Decoding a payload completes exactly when no complete ADU in it has the
exception bit and a PDU of five bytes or more. -/
theorem isSome_run_processModbusPacket_iff (heap : Heap) (self : Modbus) (length : PosInt)
    (modbus_data : QJsonObject) {payload : List UInt8} (hlen : (payload.length : ℤ) = length)
    (beyond : Memory) :
    ((processModbusPacket heap self length modbus_data).run (buffer payload beyond)).isSome ↔
      ∀ x ∈ (mbap.pieces payload).1, (pduOf x).length < 5 ∨ (functionCode x).toNat < 128 := by
  rw [run_processModbusPacket heap self length modbus_data hlen, decodePayload, Option.isSome_map,
    isSome_decodePieces_iff _ _ fun _ ↦ SelfDelimiting.isFrame_of_mem_pieces]

/-- An exception reply followed by three more bytes of PDU. -/
def longException : Adu := ⟨1, 0, 1, [131, 2, 0, 0, 0], by decide⟩

theorem isSome_run_longException_iff :
    ((processModbusPacket (fun _ _ ↦ 0) {} ⟨12, by decide⟩ .empty).run
      (buffer longException.encode fun _ ↦ 0)).isSome ↔
      ∀ x ∈ (mbap.pieces longException.encode).1,
        (pduOf x).length < 5 ∨ (functionCode x).toNat < 128 :=
  isSome_run_processModbusPacket_iff _ _ _ _ rfl _

theorem run_processModbusPacket_longException :
    ¬((processModbusPacket (fun _ _ ↦ 0) {} ⟨12, by decide⟩ .empty).run
      (buffer longException.encode fun _ ↦ 0)).isSome := by
  have hpayload := decodePayload_append (fun _ _ ↦ 0) {} .empty longException.isFrame_encode []
  rw [List.append_nil, run_analyzeModbusPacket_of_exception _ (by decide) (by decide)] at hpayload
  rw [run_processModbusPacket _ _ _ _ rfl, hpayload]
  exact Bool.false_ne_true

/-! ## A truncated tail -/

/-- The outcome of a call publishes, among others and in this order, the texts of `gs`. -/
def Publishes (outcome : Option (Modbus × QJsonObject)) (gs : List (List QString)) : Prop :=
  ∃ (self' : Modbus) (modbus_data' : QJsonObject) (texts : List QString),
    outcome = some (self', modbus_data') ∧ modbus_data' "modbus" = some (join texts ';') ∧
      gs.flatten.Sublist texts

/-- A sequence of ADUs followed by a proper part of one more leaves its texts in the object and
publishes nothing. -/
theorem run_processModbusPacket_truncated (heap : Heap) (self : Modbus) (length : PosInt)
    (modbus_data : QJsonObject) {adus : List Adu} (hadus : ∀ a ∈ adus, a.Readable) (a : Adu)
    {cut : ℕ} (hpos : 0 < cut) (hcut : cut < a.encode.length)
    (hlen : ((encodeAll adus ++ a.encode.take cut).length : ℤ) = length) (beyond : Memory) :
    (processModbusPacket heap self length modbus_data).run
        (buffer (encodeAll adus ++ a.encode.take cut) beyond) =
      (groups self.m_lastAddress adus).map fun r ↦
        (⟨self.data ++ r.1.flatten, r.2⟩, modbus_data) := by
  -- the call that meets the cut ADU leaves with the texts still in `data`
  have hrest : mbap.Incomplete (a.encode.take cut) := by
    have hframe := a.isFrame_encode
    rw [← List.take_append_drop cut a.encode] at hframe
    exact hframe.incomplete_of_append (by simpa using hcut)
  have hne : a.encode.take cut ≠ [] := by
    rw [ne_eq, List.take_eq_nil_iff]
    rintro (h | h)
    · omega
    · rw [h] at hcut
      exact absurd hcut (Nat.not_lt_zero _)
  rw [run_processModbusPacket heap self length modbus_data hlen,
    decodePayload_encodeAll_append heap self modbus_data hadus hrest]
  simp only [if_neg hne]

/-- **A truncated tail loses everything.** However many complete ADUs precede the cut, none of their
texts is published. -/
theorem processModbusPacket_truncated (heap : Heap) (self : Modbus) (length : PosInt)
    (modbus_data : QJsonObject) (hkey : modbus_data "modbus" = none) {adus : List Adu}
    (hadus : ∀ a ∈ adus, a.Readable) (a : Adu) {cut : ℕ} (hpos : 0 < cut)
    (hcut : cut < a.encode.length)
    (hlen : ((encodeAll adus ++ a.encode.take cut).length : ℤ) = length) (beyond : Memory)
    {gs : List (List QString)} {last' : UInt16}
    (hgs : groups self.m_lastAddress adus = some (gs, last')) :
    ¬Publishes ((processModbusPacket heap self length modbus_data).run
      (buffer (encodeAll adus ++ a.encode.take cut) beyond)) gs := by
  rintro ⟨self', modbus_data', texts, hrun, htext, -⟩
  rw [run_processModbusPacket_truncated heap self length modbus_data hadus a hpos hcut hlen, hgs,
    Option.map_some, Option.some.injEq, Prod.mk.injEq] at hrun
  rw [← hrun.2, hkey] at htext
  cases htext

theorem processModbusPacket_truncated_twoResponses :
    ∃ gs last', groups 0 twoResponses = some (gs, last') ∧
      ¬Publishes ((processModbusPacket (fun _ _ ↦ 0) {} ⟨37, by decide⟩ .empty).run
        (buffer (encodeAll twoResponses ++ longException.encode.take 3) fun _ ↦ 0)) gs := by
  obtain ⟨gs, last', hgs, -⟩ := exists_groups 0 (show ∀ a ∈ twoResponses, a.Readable by decide)
  exact ⟨gs, last', hgs, processModbusPacket_truncated _ _ _ _ rfl (by decide) _ (by decide)
    (by decide) rfl _ hgs⟩

theorem not_publishes_twoResponses_truncated :
    ¬∃ gs last', groups 0 twoResponses = some (gs, last') ∧
      Publishes ((processModbusPacket (fun _ _ ↦ 0) {} ⟨37, by decide⟩ .empty).run
        (buffer (encodeAll twoResponses ++ longException.encode.take 3) fun _ ↦ 0)) gs := by
  rintro ⟨gs, last', hgs, self', modbus_data', texts, hrun, htext, -⟩
  rw [run_processModbusPacket_truncated _ _ _ _ (by decide) _ (by decide) (by decide) rfl, hgs,
    Option.map_some, Option.some.injEq, Prod.mk.injEq] at hrun
  rw [← hrun.2] at htext
  cases htext

end Modbus

end OtTcpListener
