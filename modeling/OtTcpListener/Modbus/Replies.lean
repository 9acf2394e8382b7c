import OtTcpListener.Modbus.Read

/-!
# Replies to well-formed messages

Which replies do the messages of the protocol get? The code takes every PDU with fewer than eight
bytes for a fragment, and decides by length what the others are.

* Most requests, and the responses to writes, have five bytes. None of them is reported
  (`FixedPdu.not_reported`).
* The response to a read of `n` registers has `2 + 2 * n` bytes. It is reported as such from four
  registers on (`Read.run_response_eq_listing_iff`).
* A request to write `n` registers has `6 + 2 * n` bytes. It is reported as such from two registers
  on (`PresetMultiple.run_pdu_eq_listing_iff`).
-/

namespace OtTcpListener

open Probe QString

namespace Modbus

theorem listing_ne_empty (function : UInt8) (base : ℕ) (registers : List UInt16) :
    listing function base registers ≠ "" := join_functionName_ne_empty _ _

/-! ## Responses to reads -/

namespace Read

variable (x : Read) (last : UInt16) (beyond : Memory)

/-- **Read responses.** A response is rendered as the list of its registers, numbered from
`m_lastAddress`, exactly when it carries at least four of them. -/
theorem run_response_eq_listing_iff :
    (analyzeModbusPacket last x.response.pdu.length).run (buffer x.response.pdu beyond) =
      some (listing x.function last.toNat x.registers, last) ↔ 4 ≤ x.registers.length := by
  constructor
  · intro h
    by_contra hlt
    rcases Nat.lt_or_ge x.registers.length 3 with hle | hge
    · rw [x.run_response_of_le_two last beyond (Nat.le_of_lt_succ hle), Option.some.injEq,
        Prod.mk.injEq] at h
      exact listing_ne_empty _ _ _ h.1.symm
    · -- one line where the list has three
      have hthree : x.registers.length = 3 := by omega
      obtain ⟨reply, last', item, hrun, hlines⟩ := x.registerLines_of_eq_three last beyond hthree
      rw [hrun, Option.some.injEq, Prod.mk.injEq] at h
      rw [h.1, listing, x.response.registerLines_of_reply _ (notMem_mapIdx_registerItem _ _)]
        at hlines
      have hlength := congrArg List.length hlines
      rw [List.length_mapIdx, hthree] at hlength
      cases hlength
  · exact x.run_response_of_four_le last beyond

/-- A response with a single register. -/
def single : Read := ⟨1, 1, 3, 0, [7], three_eq_three_or_four, by decide, by decide⟩

theorem run_response_single_ne_listing :
    (analyzeModbusPacket 0 single.response.pdu.length).run (buffer single.response.pdu fun _ ↦ 0) ≠
      some (listing single.function 0 single.registers, 0) := by
  intro h
  rw [single.run_response_of_le_two 0 _ (by decide), Option.some.injEq, Prod.mk.injEq] at h
  exact listing_ne_empty _ _ _ h.1.symm

end Read

/-! ## Messages of five bytes -/

/-- A message made of a function code and two fields: a request to read, a request or a response of
a single write or of a diagnostic, a response to a multiple write. -/
structure FixedPdu where
  function : UInt8
  /-- The start address, or the sub-function of a diagnostic. -/
  address : UInt16
  /-- The quantity, or the value. -/
  value : UInt16
  function_mem : function ∈ [1, 2, 3, 4, 5, 6, 8, 15, 16]

namespace FixedPdu

variable (x : FixedPdu) (last : UInt16) (beyond : Memory)

/-- The bytes. -/
def pdu : List UInt8 := x.function :: (be16Bytes x.address ++ be16Bytes x.value)

/-- What a report of the message begins with. -/
def opening : QString :=
  join (("Function:" ++ functionName x.function.toNat) ::
    if x.function = 3 ∨ x.function = 4 then
      ["Start:" ++ number x.address.toNat ++ " Length:" ++ number x.value.toNat]
    else if x.function = 8 then ["Subfunction:" ++ number x.address.toNat]
    else []) ';'

/-- The reply reports the message. -/
def Reported (reply : QString) : Prop := reply ≠ "" ∧ x.opening.toList <+: reply.toList

theorem run_pdu :
    (analyzeModbusPacket last x.pdu.length).run (buffer x.pdu beyond) = some ("", last) := by
  have hlen : x.pdu.length = 5 := rfl
  have hcode : ∀ b ∈ ([1, 2, 3, 4, 5, 6, 8, 15, 16] : List UInt8), b.toNat < 128 := by simp
  exact run_analyzeModbusPacket_of_lt_eight last (by omega) (hcode _ x.function_mem)

/-- **Messages of five bytes.** None of them is reported. -/
theorem not_reported :
    ¬∃ reply last', (analyzeModbusPacket last x.pdu.length).run (buffer x.pdu beyond) =
      some (reply, last') ∧ x.Reported reply := by
  rintro ⟨reply, last', hrun, hne, -⟩
  rw [x.run_pdu, Option.some.injEq, Prod.mk.injEq] at hrun
  exact hne hrun.1.symm

/-- A request to read one register from address 0. -/
def readOne : FixedPdu := ⟨3, 0, 1, by decide⟩

theorem not_reported_readOne :
    ¬∀ x : FixedPdu, ∃ reply last',
      (analyzeModbusPacket 0 x.pdu.length).run (buffer x.pdu fun _ ↦ 0) = some (reply, last') ∧
        x.Reported reply := by
  intro h
  obtain ⟨reply, last', hrun, hne, -⟩ := h readOne
  rw [readOne.run_pdu, Option.some.injEq, Prod.mk.injEq] at hrun
  exact hne hrun.1.symm

end FixedPdu

/-! ## Requests to write registers -/

/-- A request to write registers. -/
structure PresetMultiple where
  address : UInt16
  registers : List UInt16
  /-- The byte count is a byte. -/
  length_registers_le : registers.length ≤ 127

namespace PresetMultiple

variable (x : PresetMultiple) (last : UInt16) (beyond : Memory)

/-- The bytes. -/
def pdu : List UInt8 :=
  16 :: (be16Bytes x.address ++ be16Bytes (.ofNat x.registers.length) ++
    .ofNat (2 * x.registers.length) :: x.registers.flatMap be16Bytes)

theorem length_pdu : x.pdu.length = 6 + 2 * x.registers.length := by
  change (x.registers.flatMap be16Bytes).length + 6 = _
  rw [length_flatMap_be16Bytes, Nat.add_comm]

theorem function_pdu : (buffer x.pdu beyond 0 &&& 127).toNat = UInt8.toNat 16 := by
  have hcode : buffer x.pdu beyond 0 = 16 := rfl
  rw [hcode]
  rfl

/-- One of the registers in the request. -/
theorem register_pdu {i : ℕ} (hi : i < x.registers.length) :
    be16 (buffer x.pdu beyond (6 + i * 2)) (buffer x.pdu beyond (6 + i * 2 + 1)) =
      x.registers[i] := by
  rw [← be16_buffer_flatMap hi fun i ↦ beyond (i + 6), Nat.add_comm 6]
  rfl

theorem run_pdu_of_two_le (h : 2 ≤ x.registers.length) :
    (analyzeModbusPacket last x.pdu.length).run (buffer x.pdu beyond) =
      some (listing 16 x.address.toNat x.registers, last) := by
  have hlen := x.length_pdu
  have hmax := x.length_registers_le
  have hcount : (buffer x.pdu beyond 5).toNat / 2 = x.registers.length := by
    change (UInt8.ofNat (2 * x.registers.length)).toNat / 2 = _
    rw [UInt8.toNat_ofNat_of_lt' (by rw [UInt8.size]; omega)]
    omega
  have haddress : be16 (buffer x.pdu beyond 1) (buffer x.pdu beyond 2) = x.address :=
    be16_be16Bytes x.address
  rw [run_analyzeModbusPacket_of_preset last (by omega) rfl, haddress, listing,
    map_registerItem_eq_mapIdx hcount fun i ↦ x.register_pdu beyond, x.function_pdu]

/-- A request with a single register is rendered without it. -/
theorem run_pdu_of_eq_one (h : x.registers.length = 1) :
    (analyzeModbusPacket last x.pdu.length).run (buffer x.pdu beyond) =
      some (join ["Function:" ++ functionName (UInt8.toNat 16)] ';', last) := by
  have hlen := x.length_pdu
  rw [run_analyzeModbusPacket_of_preset_eight last (by omega) rfl, x.function_pdu]

theorem join_function_ne_listing (h : x.registers.length = 1) :
    join ["Function:" ++ functionName (UInt8.toNat 16)] ';' ≠
      listing 16 x.address.toNat x.registers := by
  intro heq
  have hname : ∀ s ∈ ["Function:" ++ functionName (UInt8.toNat 16)], ';' ∉ s.toList := by decide
  have hitems := notMem_mapIdx_registerItem x.address.toNat x.registers
  have hlist := join_injective hname (List.cons_ne_nil _ _)
    (List.forall_mem_cons.mpr ⟨notMem_functionName _ (.inl rfl), hitems⟩) (List.cons_ne_nil _ _) heq
  have hlength := congrArg List.length hlist
  rw [List.length_cons, List.length_cons, List.length_mapIdx, h] at hlength
  cases hlength

/-- **Requests to write registers.** A request is rendered as the list of its registers, numbered
from its own address, exactly when it carries at least two of them. -/
theorem run_pdu_eq_listing_iff :
    (analyzeModbusPacket last x.pdu.length).run (buffer x.pdu beyond) =
      some (listing 16 x.address.toNat x.registers, last) ↔ 2 ≤ x.registers.length := by
  constructor
  · intro h
    by_contra hlt
    rcases Nat.lt_or_ge x.registers.length 1 with hlt | hge
    · have hlen := x.length_pdu
      have hcode : (buffer x.pdu beyond 0).toNat < 128 := (by decide : UInt8.toNat 16 < 128)
      rw [run_analyzeModbusPacket_of_lt_eight last (by omega) hcode, Option.some.injEq,
        Prod.mk.injEq] at h
      exact listing_ne_empty _ _ _ h.1.symm
    · have hone : x.registers.length = 1 := by omega
      rw [x.run_pdu_of_eq_one last beyond hone, Option.some.injEq, Prod.mk.injEq] at h
      exact x.join_function_ne_listing hone h.1
  · exact x.run_pdu_of_two_le last beyond

/-- A request to write a single register. -/
def single : PresetMultiple := ⟨0, [7], by decide⟩

theorem run_pdu_single_ne_listing :
    (analyzeModbusPacket 0 single.pdu.length).run (buffer single.pdu fun _ ↦ 0) ≠
      some (listing 16 single.address.toNat single.registers, 0) := by
  intro h
  rw [single.run_pdu_of_eq_one 0 _ rfl, Option.some.injEq, Prod.mk.injEq] at h
  exact single.join_function_ne_listing rfl h.1

end PresetMultiple

end Modbus

end OtTcpListener
