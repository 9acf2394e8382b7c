import OtTcpListener.Foundations.SelfDelimiting
import OtTcpListener.Modbus.Calls

/-!
# Application data units, and what the splitter computes

An ADU is a seven-byte header followed by a PDU; the length field of the header counts the unit
identifier and the PDU, so the size of an ADU is six more than its length field. That is a
self-delimiting format, `mbap`.

`decodePayload` says what a payload means: cut it into complete ADUs, render each with
`analyzeModbusPacket`, threading `m_lastAddress`, and publish the texts if nothing is left over.
`run_processModbusPacket` shows that the code, a recursion over copies of the remainder with two
pieces of mutable state, computes exactly this.
-/

namespace OtTcpListener

open Probe QString

namespace Modbus

/-! ## The format -/

/-- The size announced by the length field, which occupies bytes 4 and 5. -/
def mbapSize : List UInt8 → Option ℕ
  | _ :: _ :: _ :: _ :: hi :: lo :: _ => some (6 + (be16 hi lo).toNat)
  | _ => none

/-- Modbus/TCP as a self-delimiting format. -/
def mbap : SelfDelimiting UInt8 where
  size := mbapSize
  size_pos {xs n} h := by
    unfold mbapSize at h
    split at h
    · rw [Option.some.injEq] at h
      omega
    · cases h
  size_append {xs n} ys h := by
    unfold mbapSize at h
    split at h
    · exact h
    · cases h
  size_take {xs n} h _ := by
    unfold mbapSize at h
    split at h
    · rw [Option.some.injEq] at h
      rw [← h, Nat.add_comm]
      exact congrArg some (Nat.add_comm 6 _)
    · cases h

/-- The transaction id of a piece. -/
def transactionId (piece : List UInt8) : UInt16 := be16 (piece.getD 0 0) (piece.getD 1 0)

/-- The length field of a piece. -/
def lengthField (piece : List UInt8) : UInt16 := be16 (piece.getD 4 0) (piece.getD 5 0)

/-- The PDU of a piece: what follows the header. -/
def pduOf (piece : List UInt8) : List UInt8 := piece.drop sizeofSniffModbusTcp

theorem size_eq_of_six_le {xs : List UInt8} (h : 6 ≤ xs.length) :
    mbap.size xs = some (6 + (lengthField xs).toNat) := by
  match xs, h with
  | _ :: _ :: _ :: _ :: _ :: _ :: _, _ => rfl

theorem size_eq_none_of_lt_six {xs : List UInt8} (h : xs.length < 6) : mbap.size xs = none := by
  match xs, h with
  | [], _ | [_], _ | [_, _], _ | [_, _, _], _ | [_, _, _, _], _ | [_, _, _, _, _], _ => rfl

theorem isFrame_iff {x : List UInt8} :
    mbap.IsFrame x ↔ 6 ≤ x.length ∧ x.length = 6 + (lengthField x).toNat := by
  rw [SelfDelimiting.IsFrame]
  rcases lt_or_ge x.length 6 with h | h
  · rw [size_eq_none_of_lt_six h]
    exact iff_of_false (by simp) fun hx ↦ absurd hx.1 (not_le.mpr h)
  · rw [size_eq_of_six_le h, Option.some.injEq]
    exact ⟨fun hx ↦ ⟨h, hx.symm⟩, fun hx ↦ hx.2.symm⟩

/-- Fewer than six bytes, or fewer than the length field announces. -/
theorem incomplete_iff {xs : List UInt8} :
    mbap.Incomplete xs ↔ xs.length < 6 + (lengthField xs).toNat := by
  rw [SelfDelimiting.incomplete_iff]
  rcases lt_or_ge xs.length 6 with h | h
  · rw [size_eq_none_of_lt_six h]
    exact iff_of_true (by simp) (by omega)
  · simp [size_eq_of_six_le h]

theorem length_pduOf {x : List UInt8} (hx : mbap.IsFrame x) :
    (pduOf x).length = (lengthField x).toNat - 1 := by
  rw [pduOf, List.length_drop, (isFrame_iff.mp hx).2, sizeofSniffModbusTcp]
  omega

/-! ## The meaning of a payload -/

/-- Render the pieces one after the other. The splitter allocates two blocks for each, and decodes
the PDU from the first. -/
def decodePieces (heap : Heap) (last : UInt16) :
    List (List UInt8) → Option (List (List QString) × UInt16)
  | [] => some ([], last)
  | piece :: pieces =>
    match (analyzeModbusPacket last ((lengthField piece).toNat - 1)).run
        (buffer (pduOf piece) (heap 0)) with
    | none => none
    | some (reply, last') =>
      (decodePieces (heap.after 2) last' pieces).map fun r ↦
        (group (transactionId piece) (lengthField piece) (pduOf piece) reply :: r.1, r.2)

/-- Cut, render, and publish if nothing is left over. -/
def decodePayload (heap : Heap) (self : Modbus) (modbus_data : QJsonObject)
    (payload : List UInt8) : Option (Modbus × QJsonObject) :=
  (decodePieces heap self.m_lastAddress (mbap.pieces payload).1).map fun r ↦
    if (mbap.pieces payload).2 = [] then
      (⟨[], r.2⟩, modbus_data.insert "modbus" (join (self.data ++ r.1.flatten) ';'))
    else
      (⟨self.data ++ r.1.flatten, r.2⟩, modbus_data)

/-- What has been rendered when a first piece and some more have. -/
theorem exists_of_decodePieces_cons {heap : Heap} {last last' : UInt16} {piece : List UInt8}
    {pieces : List (List UInt8)} {gs : List (List QString)}
    (h : decodePieces heap last (piece :: pieces) = some (gs, last')) :
    ∃ reply last₁ gs',
      (analyzeModbusPacket last ((lengthField piece).toNat - 1)).run
        (buffer (pduOf piece) (heap 0)) = some (reply, last₁) ∧
      decodePieces (heap.after 2) last₁ pieces = some (gs', last') ∧
      gs = group (transactionId piece) (lengthField piece) (pduOf piece) reply :: gs' := by
  rw [decodePieces] at h
  split at h
  · cases h
  · next reply last₁ hreply =>
    obtain ⟨⟨gs', last₂⟩, htail, heq⟩ := Option.map_eq_some_iff.mp h
    rw [Prod.mk.injEq] at heq
    obtain ⟨rfl, rfl⟩ := heq
    exact ⟨reply, last₁, gs', hreply, htail, rfl⟩

/-- What has happened when a payload has been decoded: nothing was left over and the texts are
published, or they wait in the object. -/
theorem exists_of_decodePayload {heap : Heap} {self self' : Modbus}
    {modbus_data modbus_data' : QJsonObject} {payload : List UInt8}
    (h : decodePayload heap self modbus_data payload = some (self', modbus_data')) :
    ∃ gs, decodePieces heap self.m_lastAddress (mbap.pieces payload).1 =
        some (gs, self'.m_lastAddress) ∧
      ((mbap.pieces payload).2 = [] ∧ self'.data = [] ∧
          modbus_data' = modbus_data.insert "modbus" (join (self.data ++ gs.flatten) ';') ∨
        (mbap.pieces payload).2 ≠ [] ∧ self'.data = self.data ++ gs.flatten ∧
          modbus_data' = modbus_data) := by
  obtain ⟨⟨gs, last⟩, hpieces, heq⟩ := Option.map_eq_some_iff.mp h
  refine ⟨gs, ?_⟩
  split at heq
  · next hrest =>
    rw [Prod.mk.injEq] at heq
    obtain ⟨rfl, rfl⟩ := heq
    exact ⟨hpieces, .inl ⟨hrest, rfl, rfl⟩⟩
  · next hrest =>
    rw [Prod.mk.injEq] at heq
    obtain ⟨rfl, rfl⟩ := heq
    exact ⟨hpieces, .inr ⟨hrest, rfl, rfl⟩⟩

/-- Decoding writes no key but "modbus". -/
theorem decodePayload_apply_of_ne {heap : Heap} {self self' : Modbus}
    {modbus_data modbus_data' : QJsonObject} {payload : List UInt8}
    (h : decodePayload heap self modbus_data payload = some (self', modbus_data')) {key : String}
    (hkey : key ≠ "modbus") : modbus_data' key = modbus_data key := by
  obtain ⟨gs, -, ⟨-, -, rfl⟩ | ⟨-, -, rfl⟩⟩ := exists_of_decodePayload h
  · rw [QJsonObject.insert_of_ne _ _ hkey]
  · rfl

/-! ## One call of the splitter -/

/-- A payload that can be passed is not empty. -/
theorem ne_nil_of_length_eq {xs : List UInt8} {length : PosInt} (h : (xs.length : ℤ) = length) :
    xs ≠ [] := by
  rintro rfl
  have hpos := length.2.1
  rw [← h] at hpos
  exact absurd hpos (Int.lt_irrefl 0)

section

variable (heap : Heap) (self : Modbus) {length : PosInt} (modbus_data : QJsonObject)
  {xs : List UInt8} (beyond : Memory)

/-- The header fields of a payload that has a whole header up to its length field. -/
theorem be16_buffer_append {x : List UInt8} (h : 6 ≤ x.length) (ys : List UInt8)
    (beyond : Memory) :
    be16 (buffer (x ++ ys) beyond 4) (buffer (x ++ ys) beyond (4 + 1)) = lengthField x ∧
      be16 (buffer (x ++ ys) beyond 0) (buffer (x ++ ys) beyond (0 + 1)) = transactionId x := by
  match x, h with
  | _ :: _ :: _ :: _ :: _ :: _ :: _, _ => exact ⟨rfl, rfl⟩

/-- A call whose ADU is incomplete leaves. Below six bytes the length field is not part of the
payload, and no value of it would matter. -/
theorem run_body_of_incomplete (hlen : (xs.length : ℤ) = length) (hxs : mbap.Incomplete xs) :
    (body heap self length).run (buffer xs beyond) = .abandoned := by
  have hneg : remainigLen length (be16 (buffer xs beyond 4) (buffer xs beyond (4 + 1))) < 0 := by
    rw [remainigLen_eq, ← hlen]
    rcases lt_or_ge xs.length 6 with h | h
    · -- the length field is not part of the payload, and no value of it would do
      omega
    · have := incomplete_iff.mp hxs
      have hL := (be16_buffer_append h [] beyond).1
      rw [List.append_nil] at hL
      rw [hL]
      omega
  rw [body]
  simp only [run_bind, run_map, htons_run_loadUShort, if_pos hneg, run_pure]

/-- A call that finds a complete ADU renders it, and either goes on with the rest or publishes. -/
theorem run_body_of_isFrame {x ys : List UInt8} (hx : mbap.IsFrame x)
    (hlen : ((x ++ ys).length : ℤ) = length) :
    (body heap self length).run (buffer (x ++ ys) beyond) =
      match (analyzeModbusPacket self.m_lastAddress ((lengthField x).toNat - 1)).run
          (buffer (pduOf x) (heap 0)) with
      | none => .unreturned
      | some (reply, lastAddress) =>
        let data := self.data ++ group (transactionId x) (lengthField x) (pduOf x) reply
        if h : 0 < ys.length then
          .nested ⟨heap.after 2, ⟨data, lastAddress⟩,
            ⟨ys.length, by omega, by
              have := length.2.2
              rw [List.length_append] at hlen
              omega⟩, buffer ys (heap 1)⟩
        else
          .published lastAddress (join data ';') := by
  obtain ⟨h6, hsize⟩ := isFrame_iff.mp hx
  obtain ⟨hL, htid⟩ := be16_buffer_append h6 ys beyond
  have hrem : remainigLen length (lengthField x) = ys.length := by
    rw [remainigLen_eq, ← hlen, List.length_append, hsize]
    push_cast
    omega
  -- the block for the PDU, and the block for the nested call
  have htemp : (copy sizeofSniffModbusTcp ((lengthField x).toNat - 1)).run
      (buffer (x ++ ys) beyond) = pduOf x := by
    rw [run_copy_buffer (by rw [List.length_append, sizeofSniffModbusTcp]; omega), pduOf,
      ← length_pduOf hx, pduOf]
    rcases le_or_gt sizeofSniffModbusTcp x.length with h | h
    · rw [List.drop_append_of_le_length h, List.take_left]
    · rw [List.drop_eq_nil_of_le h.le, List.length_nil, List.take_zero]
  have hrest : (copy ((lengthField x).toNat + sizeofSniffModbusTcp - 1) ys.length).run
      (buffer (x ++ ys) beyond) = ys := by
    have hoff : (lengthField x).toNat + sizeofSniffModbusTcp - 1 = x.length := by
      rw [hsize, sizeofSniffModbusTcp]
      omega
    rw [hoff, run_copy_buffer (by rw [List.length_append]; omega), List.drop_left, List.take_length]
  rw [body]
  simp only [run_bind, run_map, htons_run_loadUShort, hL, htid, hrem, htemp,
    if_neg (show ¬((ys.length : ℤ) < 0) by omega)]
  cases hreply : (analyzeModbusPacket self.m_lastAddress ((lengthField x).toNat - 1)).run
    (buffer (pduOf x) (heap 0)) with
  | none => rfl
  | some r =>
    by_cases hys : 0 < ys.length
    · have hys' : (0 : ℤ) < ys.length := by omega
      simp only [dif_pos hys, dif_pos hys', run_bind, run_pure, Int.toNat_natCast, hrest]
    · have hys' : ¬(0 : ℤ) < ys.length := by omega
      simp only [dif_neg hys, dif_neg hys', run_pure]

/-- A call whose ADU is incomplete changes nothing. -/
theorem run_processModbusPacket_of_incomplete (hlen : (xs.length : ℤ) = length)
    (hxs : mbap.Incomplete xs) :
    (processModbusPacket heap self length modbus_data).run (buffer xs beyond) =
      some (self, modbus_data) := by
  rw [processModbusPacket_eq_body, run_map, run_body_of_incomplete heap self beyond hlen hxs,
    finish]

/-- A call that finds a complete ADU, and the nested call. -/
theorem run_processModbusPacket_of_isFrame {x ys : List UInt8} (hx : mbap.IsFrame x)
    (hlen : ((x ++ ys).length : ℤ) = length) :
    (processModbusPacket heap self length modbus_data).run (buffer (x ++ ys) beyond) =
      match (analyzeModbusPacket self.m_lastAddress ((lengthField x).toNat - 1)).run
          (buffer (pduOf x) (heap 0)) with
      | none => none
      | some (reply, lastAddress) =>
        let data := self.data ++ group (transactionId x) (lengthField x) (pduOf x) reply
        if h : 0 < ys.length then
          (processModbusPacket (heap.after 2) ⟨data, lastAddress⟩
            ⟨ys.length, by omega, by
              have := length.2.2
              rw [List.length_append] at hlen
              omega⟩ modbus_data).run (buffer ys (heap 1))
        else
          some (⟨[], lastAddress⟩, modbus_data.insert "modbus" (join data ';')) := by
  rw [processModbusPacket_eq_body, run_map, run_body_of_isFrame heap self beyond hx hlen]
  cases (analyzeModbusPacket self.m_lastAddress ((lengthField x).toNat - 1)).run
      (buffer (pduOf x) (heap 0)) with
  | none => rfl
  | some r =>
    by_cases hys : 0 < ys.length
    · simp only [dif_pos hys, finish]
    · simp only [dif_neg hys, finish]

end

/-! ## The splitter computes the meaning -/

theorem decodePayload_of_incomplete (heap : Heap) (self : Modbus) (modbus_data : QJsonObject)
    {xs : List UInt8} (hxs : mbap.Incomplete xs) (hne : xs ≠ []) :
    decodePayload heap self modbus_data xs = some (self, modbus_data) := by
  rw [decodePayload, hxs.pieces_eq, decodePieces, Option.map_some, if_neg hne, List.flatten_nil,
    List.append_nil]

/-- Rendering a first piece and then decoding the rest, with the state left by the first. -/
theorem decodePayload_append (heap : Heap) (self : Modbus) (modbus_data : QJsonObject)
    {x : List UInt8} (hx : mbap.IsFrame x) (ys : List UInt8) :
    decodePayload heap self modbus_data (x ++ ys) =
      match (analyzeModbusPacket self.m_lastAddress ((lengthField x).toNat - 1)).run
          (buffer (pduOf x) (heap 0)) with
      | none => none
      | some (reply, lastAddress) =>
        decodePayload (heap.after 2)
          ⟨self.data ++ group (transactionId x) (lengthField x) (pduOf x) reply, lastAddress⟩
          modbus_data ys := by
  rw [decodePayload, hx.pieces_append, decodePieces]
  cases (analyzeModbusPacket self.m_lastAddress ((lengthField x).toNat - 1)).run
      (buffer (pduOf x) (heap 0)) with
  | none => rfl
  | some r =>
    simp only [decodePayload, Option.map_map, Function.comp_def, List.flatten_cons,
      List.append_assoc]

/-- A payload of one piece is published at once. -/
theorem decodePayload_of_isFrame (heap : Heap) (self : Modbus) (modbus_data : QJsonObject)
    {x : List UInt8} (hx : mbap.IsFrame x) :
    decodePayload heap self modbus_data x =
      ((analyzeModbusPacket self.m_lastAddress ((lengthField x).toNat - 1)).run
        (buffer (pduOf x) (heap 0))).map fun r ↦
          (⟨[], r.2⟩, modbus_data.insert "modbus"
            (join (self.data ++ group (transactionId x) (lengthField x) (pduOf x) r.1) ';')) := by
  have h := decodePayload_append heap self modbus_data hx []
  rw [List.append_nil] at h
  rw [h]
  cases (analyzeModbusPacket self.m_lastAddress ((lengthField x).toNat - 1)).run
      (buffer (pduOf x) (heap 0)) with
  | none => rfl
  | some r =>
    simp only [decodePayload, SelfDelimiting.pieces_nil, decodePieces, Option.map_some, if_pos,
      List.flatten_nil, List.append_nil]

/-- **The splitter computes the meaning of its payload.** Whatever lies past the payload, and
whatever the heap holds past the blocks it allocates for the remainders. -/
theorem run_processModbusPacket (heap : Heap) (self : Modbus) (length : PosInt)
    (modbus_data : QJsonObject) {payload : List UInt8} (hlen : (payload.length : ℤ) = length)
    (beyond : Memory) :
    (processModbusPacket heap self length modbus_data).run (buffer payload beyond) =
      decodePayload heap self modbus_data payload := by
  induction payload using mbap.pieces_induction generalizing heap self length beyond with
  | incomplete xs hxs =>
    rw [run_processModbusPacket_of_incomplete heap self modbus_data beyond hlen hxs,
      decodePayload_of_incomplete heap self modbus_data hxs (ne_nil_of_length_eq hlen)]
  | frame x ys hx ih =>
    rw [run_processModbusPacket_of_isFrame heap self modbus_data beyond hx hlen,
      decodePayload_append heap self modbus_data hx]
    cases (analyzeModbusPacket self.m_lastAddress ((lengthField x).toNat - 1)).run
        (buffer (pduOf x) (heap 0)) with
    | none => rfl
    | some r =>
      by_cases hys : 0 < ys.length
      · simp only [dif_pos hys]
        exact ih _ _ ⟨ys.length, _⟩ rfl _
      · obtain rfl : ys = [] := List.length_eq_zero_iff.mp (by omega)
        simp only [dif_neg hys, decodePayload, SelfDelimiting.pieces_nil, decodePieces,
          Option.map_some, if_pos, List.flatten_nil, List.append_nil]

end Modbus

end OtTcpListener
