import OtTcpListener.Modbus.Session

/-!
# Header sizes in a published text

The length field counts the unit identifier, which is also the last byte of `sniff_modbus_tcp`. The
code makes up for that in three places: it prints the length field minus one, copies that many bytes
from offset 7, and lets the next ADU begin after six bytes more than the length field.

The three agree for every length field but 0. There the text says `Lenght:-1`, the copy loop copies
nothing, and the next ADU begins at the byte that the struct takes for the unit identifier
(`forall_consistent_iff`).
-/

namespace OtTcpListener

open Probe QString

namespace Modbus

/-- The number that a group prints is not negative, it is the number of bytes that the group lists,
and `consumed` is seven more. -/
def Consistent (texts : List QString) (consumed : ℕ) : Prop :=
  ∃ (n : ℕ) (bytes : List UInt8), texts[1]? = some ("Lenght:" ++ number n) ∧
    texts[2]? = some ("Hex:" ++ toHex bytes) ∧ bytes.length = n ∧ consumed = 7 + n

/-- The group of one piece. -/
theorem consistent_group_iff {x : List UInt8} (hx : mbap.IsFrame x) (reply : QString) :
    Consistent (group (transactionId x) (lengthField x) (pduOf x) reply) x.length ↔
      lengthField x ≠ 0 := by
  have hpos : lengthField x ≠ 0 ↔ 0 < (lengthField x).toNat := by
    rw [Nat.pos_iff_ne_zero, ne_eq, ne_eq, ← UInt16.toNat_inj]
    rfl
  have hsize := (isFrame_iff.mp hx).2
  rw [hpos]
  constructor
  · rintro ⟨n, bytes, hnumber, -⟩
    have hprinted : "Lenght:" ++ number ((lengthField x).toNat - 1) = "Lenght:" ++ number n :=
      Option.some.inj hnumber
    have hn := number_injective (String.append_right_inj _ |>.mp hprinted)
    omega
  · intro h
    refine ⟨(lengthField x).toNat - 1, pduOf x, ?_, rfl, length_pduOf hx, by omega⟩
    have hn : (((lengthField x).toNat - 1 : ℕ) : ℤ) = (lengthField x).toNat - 1 := by omega
    rw [hn]
    rfl

/-- The groups of all pieces. -/
theorem forall₂_consistent_iff {gs : List (List QString)} {pieces : List (List UInt8)}
    (h : List.Forall₂ IsGroupOf gs pieces) (hframes : ∀ x ∈ pieces, mbap.IsFrame x) :
    List.Forall₂ (fun texts x ↦ Consistent texts x.length) gs pieces ↔
      ∀ x ∈ pieces, lengthField x ≠ 0 := by
  induction h with
  | nil => exact iff_of_true .nil fun _ h ↦ absurd h List.not_mem_nil
  | cons hgroup _ ih =>
    obtain ⟨_, _, reply, _, -, rfl⟩ := hgroup
    rw [List.forall₂_cons, List.forall_mem_cons,
      consistent_group_iff (hframes _ List.mem_cons_self),
      ih fun y hy ↦ hframes y (List.mem_cons_of_mem _ hy)]

/-- **Header sizes.** A payload that is published is cut into pieces without remainder, and the text
is one group for each. In every group the printed length is the number of listed bytes, seven less
than the piece, if and only if no piece has the length field 0. -/
theorem forall_consistent_iff {self self' : Modbus} {p : Payload} {modbus_data : QJsonObject}
    {text : QString} (hrun : deliver self p = some (self', modbus_data))
    (htext : modbus_data "modbus" = some text) :
    (mbap.pieces p.bytes).1.flatten = p.bytes ∧
    ∃ gs : List (List QString),
      decodePieces p.heap self.m_lastAddress (mbap.pieces p.bytes).1 =
        some (gs, self'.m_lastAddress) ∧
      text = join (self.data ++ gs.flatten) ';' ∧
      (List.Forall₂ (fun texts x ↦ Consistent texts x.length) gs (mbap.pieces p.bytes).1 ↔
        ∀ x ∈ (mbap.pieces p.bytes).1, lengthField x ≠ 0) := by
  rw [deliver_eq] at hrun
  have hflatten := SelfDelimiting.flatten_pieces_append (F := mbap) p.bytes
  obtain ⟨gs, hpieces, ⟨hrest, -, rfl⟩ | ⟨-, -, rfl⟩⟩ := exists_of_decodePayload hrun
  · rw [hrest, List.append_nil] at hflatten
    rw [QJsonObject.insert_self, Option.some.injEq] at htext
    exact ⟨hflatten, gs, hpieces, htext.symm, forall₂_consistent_iff
      (isGroupOf_of_decodePieces hpieces) fun _ ↦ SelfDelimiting.isFrame_of_mem_pieces⟩
  · cases htext

/-! ## Payloads of one short piece -/

/-- A PDU of fewer than five bytes has no reply. -/
theorem deliver_of_isFrame (self : Modbus) {p : Payload} (hx : mbap.IsFrame p.bytes)
    (hshort : (lengthField p.bytes).toNat < 6) :
    deliver self p = some (⟨[], self.m_lastAddress⟩, QJsonObject.empty.insert "modbus"
      (join (self.data ++
        group (transactionId p.bytes) (lengthField p.bytes) (pduOf p.bytes) "") ';')) := by
  rw [deliver_eq, decodePayload_of_isFrame _ _ _ hx,
    analyzeModbusPacket_of_lt_five self.m_lastAddress (by omega)]
  rfl

/-- An ADU without a PDU. -/
def emptyPdu : Payload where
  bytes := [0, 1, 0, 0, 0, 1, 1]
  beyond _ := 0
  heap _ _ := 0
  length_pos := by decide
  length_lt := by decide

theorem forall_consistent_emptyPdu_iff : ∃ gs : List (List QString),
    decodePieces emptyPdu.heap 0 (mbap.pieces emptyPdu.bytes).1 = some (gs, 0) ∧
      (List.Forall₂ (fun texts x ↦ Consistent texts x.length) gs (mbap.pieces emptyPdu.bytes).1 ↔
        ∀ x ∈ (mbap.pieces emptyPdu.bytes).1, lengthField x ≠ 0) := by
  have hrun := deliver_of_isFrame {} (p := emptyPdu) (by decide) (by decide)
  obtain ⟨-, gs, hgs, -, hiff⟩ := forall_consistent_iff hrun (QJsonObject.insert_self ..)
  exact ⟨gs, hgs, hiff⟩

/-- Six zero bytes: a header up to its length field, which is 0. -/
def zeroLength : Payload where
  bytes := [0, 0, 0, 0, 0, 0]
  beyond _ := 0
  heap _ _ := 0
  length_pos := by decide
  length_lt := by decide

theorem not_consistent_zeroLength :
    ¬∀ (self self' : Modbus) (p : Payload) (modbus_data : QJsonObject) (text : QString)
      (gs : List (List QString)), deliver self p = some (self', modbus_data) →
      modbus_data "modbus" = some text →
      decodePieces p.heap self.m_lastAddress (mbap.pieces p.bytes).1 =
        some (gs, self'.m_lastAddress) →
      List.Forall₂ (fun texts x ↦ Consistent texts x.length) gs (mbap.pieces p.bytes).1 := by
  intro h
  have hframe : mbap.IsFrame zeroLength.bytes := by decide
  have hrun := deliver_of_isFrame {} hframe (by decide)
  have hpieces := hframe.pieces_append []
  rw [List.append_nil, SelfDelimiting.pieces_nil] at hpieces
  have hcons := h _ _ zeroLength _ _ [group 0 0 [] ""] hrun (QJsonObject.insert_self ..)
    (by rw [hpieces]; rfl)
  rw [hpieces] at hcons
  have hgroup := (consistent_group_iff hframe "").mp (List.forall₂_cons.mp hcons).1
  exact absurd rfl hgroup

end Modbus

end OtTcpListener
