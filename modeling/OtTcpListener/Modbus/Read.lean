import OtTcpListener.Modbus.Confinement
import OtTcpListener.Modbus.Framing

/-!
# Reading registers

A read of holding or input registers as Modbus defines it: a request names a start address and a
quantity, and the response carries that many registers and no address.

The lines published for a response depend on how many registers it carries. From four on they list
the registers, numbered from `m_lastAddress` (`registerLines_of_four_le`). Up to two registers
there are none, and a response with three has the length at which the code expects a request.
-/

namespace OtTcpListener

open Probe QString

namespace Modbus

/-! ## Requests and responses -/

/-- A read of registers: the transaction, the start address, and the values read. -/
structure Read where
  transaction_id : UInt16
  unit_identifier : UInt8
  function : UInt8
  address : UInt16
  registers : List UInt16
  function_eq : function = 3 ∨ function = 4
  /-- The last register read has a sixteen-bit address. -/
  address_add_le : address.toNat + registers.length ≤ 65536
  /-- The byte count of the response is a byte. -/
  length_registers_le : registers.length ≤ 127

namespace Read

/-- The request. -/
def request (x : Read) : Adu where
  transaction_id := x.transaction_id
  protocol_identifier := 0
  unit_identifier := x.unit_identifier
  pdu := x.function :: (be16Bytes x.address ++ be16Bytes (.ofNat x.registers.length))
  length_pdu_le := (by decide : 5 ≤ 65534)

/-- The response. -/
def response (x : Read) : Adu where
  transaction_id := x.transaction_id
  protocol_identifier := 0
  unit_identifier := x.unit_identifier
  pdu := x.function :: .ofNat (2 * x.registers.length) :: x.registers.flatMap be16Bytes
  length_pdu_le := by
    have := x.length_registers_le
    rw [List.length_cons, List.length_cons, length_flatMap_be16Bytes]
    omega

/-- The registers read, labelled with their addresses. -/
def labels (x : Read) : List QString :=
  x.registers.mapIdx fun i value ↦ registerItem (x.address.toNat + i) value

theorem length_pdu_response (x : Read) : x.response.pdu.length = 2 + 2 * x.registers.length := by
  change (x.registers.flatMap be16Bytes).length + 1 + 1 = _
  rw [length_flatMap_be16Bytes]
  omega

end Read

/-! ## Lists of registers -/

/-- The reply that lists registers, numbered from `base` on. -/
def listing (function : UInt8) (base : ℕ) (registers : List UInt16) : QString :=
  join (("Function:" ++ functionName function.toNat) ::
    registers.mapIdx fun i value ↦ registerItem (base + i) value) ';'

/-- A reply that names a function is not empty. -/
theorem join_functionName_ne_empty (code : ℕ) (items : List QString) :
    join (("Function:" ++ functionName code) :: items) ';' ≠ "" := by
  intro h
  obtain ⟨t, ht⟩ := exists_join_cons ("Function:" ++ functionName code) items ';'
  rw [ht, String.append_assoc, ← String.toList_inj, String.toList_append] at h
  cases h

/-- The loop over `count` registers lists them when the memory holds them. -/
theorem map_registerItem_eq_mapIdx {registers : List UInt16} {base count : ℕ} {v : ℕ → UInt16}
    (hcount : count = registers.length) (hv : ∀ (i : ℕ) (hi : i < registers.length),
      v i = registers[i]) :
    ((List.range count).map fun i ↦ registerItem (base + i) (v i)) =
      registers.mapIdx fun i value ↦ registerItem (base + i) value := by
  subst hcount
  refine List.ext_getElem (by simp) fun i hi _ ↦ ?_
  rw [List.length_map, List.length_range] at hi
  rw [List.getElem_map, List.getElem_range, hv i hi, List.getElem_mapIdx]

theorem notMem_mapIdx_registerItem (base : ℕ) (registers : List UInt16) :
    ∀ s ∈ registers.mapIdx fun i value ↦ registerItem (base + i) value, ';' ∉ s.toList := by
  intro s hs
  obtain ⟨i, hi, rfl⟩ := List.mem_mapIdx.mp hs
  exact (IsItem.register _ _).notMem (.inl rfl)

/-! ## Published lines -/

/-- The lines of a published text behind the transaction id, the length, the bytes and the
function. -/
def registerLines (text : QString) : List QString := (split text ';').drop 4

namespace Adu

/-- The lines before the reply. -/
def heading (a : Adu) : List QString :=
  ["Transaction Id:" ++ number a.transaction_id.toNat, "Lenght:" ++ number a.pdu.length,
    "Hex:" ++ toHex a.pdu]

theorem notMem_heading (a : Adu) : ∀ s ∈ a.heading, ';' ∉ s.toList := by
  intro s hs
  rw [heading, List.mem_cons, List.mem_cons, List.mem_singleton] at hs
  rcases hs with rfl | rfl | rfl <;>
    rw [String.toList_append, List.mem_append, not_or]
  · exact ⟨by decide, notMem_number rfl (by decide) _⟩
  · exact ⟨by decide, notMem_number rfl (by decide) _⟩
  · exact ⟨by decide, notMem_toHex (by decide) (by decide) _⟩

/-- Without a reply, the lines of a unit are its heading. -/
theorem split_texts_empty (a : Adu) : split (join (a.texts "") ';') ';' = a.heading := by
  rw [texts, if_pos rfl, List.append_nil, ← heading,
    split_join a.notMem_heading (List.cons_ne_nil _ _)]

/-- With a reply, they are the heading, the name of the function, and the items. -/
theorem split_texts_reply (a : Adu) (code : ℕ) {items : List QString}
    (hitems : ∀ s ∈ items, ';' ∉ s.toList) :
    split (join (a.texts (join (("Function:" ++ functionName code) :: items) ';')) ';') ';' =
      a.heading ++ ("Function:" ++ functionName code) :: items := by
  have hlist : ∀ s ∈ ("Function:" ++ functionName code) :: items, ';' ∉ s.toList := by
    intro s hs
    rcases List.mem_cons.mp hs with rfl | hs
    · exact notMem_functionName code (.inl rfl)
    · exact hitems s hs
  have hne := join_functionName_ne_empty code items
  -- the reply is itself joined, so its parts are parts of the text
  have hheading : a.heading ≠ [] := List.cons_ne_nil _ _
  rw [texts, if_neg hne, ← heading, join_append_join hheading (List.cons_ne_nil _ _),
    split_join _ (by simp)]
  intro s hs
  rcases List.mem_append.mp hs with hs | hs
  · exact a.notMem_heading s hs
  · exact hlist s hs

theorem registerLines_of_empty (a : Adu) : registerLines (join (a.texts "") ';') = [] := by
  rw [registerLines, a.split_texts_empty]
  rfl

/-- The lines of a reply are those behind the name of the function. -/
theorem registerLines_of_reply (a : Adu) (code : ℕ) {items : List QString}
    (hitems : ∀ s ∈ items, ';' ∉ s.toList) :
    registerLines (join (a.texts (join (("Function:" ++ functionName code) :: items) ';')) ';') =
      items := by
  rw [registerLines, a.split_texts_reply code hitems]
  rfl

end Adu

/-! ## The lines of a response -/

namespace Read

variable (x : Read) (last : UInt16) (beyond : Memory)

/-- One of the registers in the response. -/
theorem register_response {i : ℕ} (hi : i < x.registers.length) :
    be16 (buffer x.response.pdu beyond (2 + i * 2)) (buffer x.response.pdu beyond (2 + i * 2 + 1)) =
      x.registers[i] := by
  rw [← be16_buffer_flatMap hi fun i ↦ beyond (i + 1 + 1), Nat.add_comm 2]
  rfl

theorem run_response_of_le_two (h : x.registers.length ≤ 2) :
    (analyzeModbusPacket last x.response.pdu.length).run (buffer x.response.pdu beyond) =
      some ("", last) := by
  have hlen := x.length_pdu_response
  exact run_analyzeModbusPacket_of_lt_eight last (by omega) (toNat_lt_of_read x.function_eq)

/-- A response with at most two registers has no lines. -/
theorem registerLines_of_le_two (h : x.registers.length ≤ 2) :
    ∃ reply, (analyzeModbusPacket last x.response.pdu.length).run (buffer x.response.pdu beyond) =
        some (reply, last) ∧ registerLines (join (x.response.texts reply) ';') = [] :=
  ⟨"", x.run_response_of_le_two last beyond h, x.response.registerLines_of_empty⟩

/-- A response with three registers is taken for a request. -/
theorem registerLines_of_eq_three (h : x.registers.length = 3) :
    ∃ reply last' item,
      (analyzeModbusPacket last x.response.pdu.length).run (buffer x.response.pdu beyond) =
        some (reply, last') ∧ registerLines (join (x.response.texts reply) ';') = [item] := by
  have hlen := x.length_pdu_response
  refine ⟨_, _, _, run_analyzeModbusPacket_of_eight last (by omega) x.function_eq,
    x.response.registerLines_of_reply _ (List.forall_mem_singleton.mpr ?_)⟩
  exact (IsItem.request _ _).notMem (.inl rfl)

/-- A response with four registers or more is rendered as the list of its registers, numbered from
`m_lastAddress`. -/
theorem run_response_of_four_le (h : 4 ≤ x.registers.length) :
    (analyzeModbusPacket last x.response.pdu.length).run (buffer x.response.pdu beyond) =
      some (listing x.function last.toNat x.registers, last) := by
  have hlen := x.length_pdu_response
  have hmax := x.length_registers_le
  have hcount : (buffer x.response.pdu beyond 1).toNat / 2 = x.registers.length := by
    change (UInt8.ofNat (2 * x.registers.length)).toNat / 2 = _
    rw [UInt8.toNat_ofNat_of_lt' (by rw [UInt8.size]; omega)]
    omega
  have hname : (x.function &&& 127).toNat = x.function.toNat := by
    rcases x.function_eq with hfc | hfc <;> rw [hfc] <;> rfl
  rw [run_analyzeModbusPacket_of_registers last (by omega) x.function_eq, listing,
    map_registerItem_eq_mapIdx hcount fun i ↦ x.register_response beyond, ← hname]
  rfl

/-- A response with four registers or more has a line for each, numbered from `m_lastAddress`. -/
theorem registerLines_of_four_le (h : 4 ≤ x.registers.length) :
    ∃ reply, (analyzeModbusPacket last x.response.pdu.length).run (buffer x.response.pdu beyond) =
        some (reply, last) ∧
      registerLines (join (x.response.texts reply) ';') =
        x.registers.mapIdx fun i value ↦ registerItem (last.toNat + i) value :=
  ⟨_, x.run_response_of_four_le last beyond h,
    x.response.registerLines_of_reply _ (notMem_mapIdx_registerItem _ _)⟩

end Read

end Modbus

end OtTcpListener
