import OtTcpListener.Modbus.Session

/-!
# Where the splitter reads

A call of `processModbusPacket` reads its header before it looks at `length`, and nothing after the
guard reaches past the end. So the reads of a call stay inside its payload exactly when the payload
has the six bytes up to the length field (`Call.readsIn_iff`). A call in which the decoder runs off
its end stays inside nothing: what it goes on to read is undefined.

The first call has at least one byte, and each nested call what its caller left over. Hence all
calls for a payload stay inside if and only if the decoder returns on every complete ADU and no
scrap of one to five bytes is left over behind them (`forall_inBounds_iff`).
-/

namespace OtTcpListener

open Probe QString

namespace Modbus

namespace Call

/-- The call is defined to its end, and every byte it reads from `packet` lies below `length`. -/
structure InBounds (c : Call) : Prop where
  returns : (body c.heap c.self c.length).run c.packet ≠ .unreturned
  reads : ReadsIn (fun i : ℕ ↦ (i : ℤ) < c.length)
    (processModbusPacket c.heap c.self c.length .empty) c.packet

/-- **One call.** Its reads stay inside the payload exactly when the header does, up to and with the
length field. -/
theorem readsIn_iff (c : Call) :
    ReadsIn (fun i : ℕ ↦ (i : ℤ) < c.length) (processModbusPacket c.heap c.self c.length .empty)
      c.packet ↔ 6 ≤ c.length.1 := by
  rw [processModbusPacket_eq_body, readsIn_map, body, readsIn_bind, readsIn_map,
    readsIn_loadUShort, readsIn_bind, readsIn_map, readsIn_loadUShort]
  constructor
  · rintro ⟨⟨-, h5⟩, -⟩
    omega
  · intro h6
    refine ⟨⟨by omega, by omega⟩, ⟨by omega, by omega⟩, ?_⟩
    rw [readsIn_ite, run_map]
    generalize htons ((loadUShort 4).run c.packet) = modbus_tcp_lenght
    have hrem := remainigLen_eq c.length modbus_tcp_lenght
    split
    · exact readsIn_pure _ _
    · next hnonneg =>
      rw [readsIn_bind, readsIn_copy, sizeofSniffModbusTcp]
      refine ⟨fun i hi ↦ by omega, ?_⟩
      cases (analyzeModbusPacket c.self.m_lastAddress (modbus_tcp_lenght.toNat - 1)).run
          (buffer ((copy 7 (modbus_tcp_lenght.toNat - 1)).run c.packet) (c.heap 0)) with
      | none => exact readsIn_pure _ _
      | some r =>
        dsimp only
        split
        · rw [readsIn_bind, readsIn_copy]
          exact ⟨fun i hi ↦ by omega, readsIn_pure _ _⟩
        · exact readsIn_pure _ _

theorem inBounds_iff (c : Call) :
    c.InBounds ↔ (body c.heap c.self c.length).run c.packet ≠ .unreturned ∧ 6 ≤ c.length.1 := by
  rw [← readsIn_iff]
  exact ⟨fun h ↦ ⟨h.returns, h.reads⟩, fun h ↦ ⟨h.1, h.2⟩⟩

theorem inBounds_of_run_body {c : Call} {o : Outcome}
    (hrun : (body c.heap c.self c.length).run c.packet = o) (ho : o ≠ .unreturned)
    (h6 : 6 ≤ c.length.1) : c.InBounds :=
  c.inBounds_iff.mpr ⟨hrun ▸ ho, h6⟩

/-- **All calls.** They stay inside when the decoder returns on the complete ADUs, and nothing, or
six bytes at least, are left over behind them. -/
theorem forall_inBounds_trace_iff (heap : Heap) (self : Modbus) (length : PosInt)
    {payload : List UInt8} (hlen : (payload.length : ℤ) = length) (beyond : Memory) :
    (∀ c ∈ (Call.mk heap self length (buffer payload beyond)).trace, c.InBounds) ↔
      (∀ x ∈ (mbap.pieces payload).1, (pduOf x).length < 5 ∨ (functionCode x).toNat < 128) ∧
        ((mbap.pieces payload).2 = [] ∨ 6 ≤ (mbap.pieces payload).2.length) := by
  induction payload using mbap.pieces_induction generalizing heap self length beyond with
  | incomplete xs hxs =>
    have hbody := run_body_of_incomplete heap self beyond hlen hxs
    have hnext : (Call.mk heap self length (buffer xs beyond)).next = none := by
      rw [next, hbody]
      rfl
    have hne : xs ≠ [] := ne_nil_of_length_eq hlen
    rw [trace_of_next_eq_none hnext, List.forall_mem_singleton, inBounds_iff, hbody, hxs.pieces_eq,
      ← hlen]
    simp only [ne_eq, reduceCtorEq, not_false_eq_true, hne, false_or, List.not_mem_nil,
      false_imp_iff, implies_true, true_and]
    exact Nat.ofNat_le_cast
  | frame x ys hx ih =>
    have hbody := run_body_of_isFrame heap self beyond hx hlen
    have h6 : 6 ≤ length.1 := by
      have h6 := (isFrame_iff.mp hx).1
      rw [List.length_append] at hlen
      omega
    have hnone := run_pduOf_eq_none_iff self.m_lastAddress (heap 0) hx
    rw [hx.pieces_append, List.forall_mem_cons]
    cases hreply : (analyzeModbusPacket self.m_lastAddress ((lengthField x).toNat - 1)).run
        (buffer (pduOf x) (heap 0)) with
    | none =>
      -- this call is not defined to its end
      obtain ⟨h5, hexc⟩ := hnone.mp hreply
      have hout : ¬(Call.mk heap self length (buffer (x ++ ys) beyond)).InBounds := fun h ↦
        h.returns (by rw [hbody, hreply])
      refine iff_of_false (fun h ↦ hout (h _ (List.mem_of_mem_head? (Descent.head?_trace _)))) ?_
      rintro ⟨⟨hshort | hcode, -⟩, -⟩ <;> omega
    | some r =>
      have hreturns : (pduOf x).length < 5 ∨ (functionCode x).toNat < 128 := by
        by_contra hc
        push Not at hc
        exact Option.some_ne_none r (hreply ▸ hnone.mpr hc)
      rw [and_iff_right hreturns]
      by_cases hys : 0 < ys.length
      · have hnested : (body heap self length).run (buffer (x ++ ys) beyond) =
            .nested ⟨heap.after 2, ⟨self.data ++ group (transactionId x) (lengthField x) (pduOf x)
              r.1, r.2⟩, ⟨ys.length, by omega, by
                have := length.2.2
                rw [List.length_append] at hlen
                omega⟩, buffer ys (heap 1)⟩ := by
          rw [hbody, hreply]
          simp only [dif_pos hys]
        have hinside : (Call.mk heap self length (buffer (x ++ ys) beyond)).InBounds :=
          inBounds_of_run_body hnested nofun h6
        have hnext : (Call.mk heap self length (buffer (x ++ ys) beyond)).next = some _ :=
          next_eq_some_iff.mpr hnested
        rw [trace_of_next_eq_some hnext, List.forall_mem_cons, and_iff_right hinside,
          ih _ _ _ rfl]
      · obtain rfl : ys = [] := List.length_eq_zero_iff.mp (by omega)
        have hpublished : (body heap self length).run (buffer (x ++ []) beyond) =
            .published r.2 (join (self.data ++ group (transactionId x) (lengthField x) (pduOf x)
              r.1) ';') := by
          rw [hbody, hreply]
          simp only [dif_neg hys]
        have hinside : (Call.mk heap self length (buffer (x ++ []) beyond)).InBounds :=
          inBounds_of_run_body hpublished nofun h6
        have hnext : (Call.mk heap self length (buffer (x ++ []) beyond)).next = none := by
          rw [next, hpublished]
          rfl
        rw [trace_of_next_eq_none hnext, List.forall_mem_singleton, SelfDelimiting.pieces_nil]
        exact iff_of_true hinside ⟨fun _ h ↦ absurd h List.not_mem_nil, .inl rfl⟩

end Call

/-- The first call for a payload. -/
def Payload.call (p : Payload) (self : Modbus) : Call :=
  ⟨p.heap, self, p.length, buffer p.bytes p.beyond⟩

/-- **Splitter bounds.** Every call that a payload leads to is defined and reads no byte from
outside those it was given, exactly when no complete ADU has the exception bit and a PDU of five
bytes or more, and what is left over behind them is empty or has six bytes at least. -/
theorem forall_inBounds_iff (self : Modbus) (p : Payload) :
    (∀ c ∈ (p.call self).trace, c.InBounds) ↔
      (∀ x ∈ (mbap.pieces p.bytes).1, (pduOf x).length < 5 ∨ (functionCode x).toNat < 128) ∧
        ((mbap.pieces p.bytes).2 = [] ∨ 6 ≤ (mbap.pieces p.bytes).2.length) :=
  Call.forall_inBounds_trace_iff p.heap self p.length rfl p.beyond

/-- A payload of one byte. -/
def oneByte : Payload where
  bytes := [0]
  beyond _ := 0
  heap _ _ := 0
  length_pos := by decide
  length_lt := by decide

theorem not_inBounds_oneByte :
    ¬∀ (self : Modbus) (p : Payload), ∀ c ∈ (p.call self).trace, c.InBounds := by
  intro h
  have hfirst := h {} oneByte (oneByte.call {}) (List.mem_of_mem_head? (Descent.head?_trace _))
  exact absurd ((Call.inBounds_iff _).mp hfirst).2 (by decide)

end Modbus

end OtTcpListener
