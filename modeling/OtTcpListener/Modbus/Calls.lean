import OtTcpListener.Foundations.Descent
import OtTcpListener.Modbus.Process

/-!
# The calls behind one payload

`processModbusPacket` calls itself, each time on a freshly allocated copy of what remains. `body` is
one call up to that point, with the arguments of the nested call as part of its outcome, and
`processModbusPacket_eq_body` says that the function is its body followed by the nested call.
`trace` lists the calls that a first one leads to.

Each nested call gets a positive length smaller by at least six than that of its caller, whatever
the length fields say: a length field of 0 still uses up the six bytes in front of what it counts.
That bounds the number of calls (`trace_lengths`).
-/

namespace OtTcpListener

open Probe QString

namespace Modbus

/-- A call of `processModbusPacket`: the object, the arguments, and the blocks it will allocate. -/
structure Call where
  heap : Heap
  self : Modbus
  length : PosInt
  packet : Memory

/-- How a call goes on once it has done its own work. -/
inductive Outcome where
  /-- The ADU is incomplete: leave. -/
  | abandoned
  /-- `analyzeModbusPacket` has run off its end: the run ends with this call, which meets nothing
  that is asked of it. -/
  | unreturned
  /-- Nothing remains: publish the text and leave. -/
  | published (lastAddress : UInt16) (text : QString)
  /-- Call `processModbusPacket` for what remains. -/
  | nested (c : Call)

/-- The nested call of an outcome. -/
def Outcome.nested? : Outcome → Option Call
  | .nested c => some c
  | _ => none

theorem Outcome.nested?_eq_some_iff {o : Outcome} {c : Call} :
    o.nested? = some c ↔ o = .nested c := by
  cases o <;> simp [nested?]

/-- `Modbus::processModbusPacket` without the nested call and without `modbus_data`. -/
def body (heap : Heap) (self : Modbus) (length : PosInt) : Reader Outcome := do
  let modbus_tcp_lenght ← htons <$> loadUShort 4
  let modbus_transaction_id ← htons <$> loadUShort 0
  if remainigLen length modbus_tcp_lenght < 0 then
    return .abandoned
  else do
    let temp ← copy sizeofSniffModbusTcp (modbus_tcp_lenght.toNat - 1)
    match (analyzeModbusPacket self.m_lastAddress (modbus_tcp_lenght.toNat - 1)).run
        (buffer temp (heap 0)) with
    | none => return .unreturned
    | some (reply, lastAddress) =>
      let data := self.data ++ group modbus_transaction_id modbus_tcp_lenght temp reply
      if h : 0 < remainigLen length modbus_tcp_lenght then do
        let remainig ← copy (modbus_tcp_lenght.toNat + sizeofSniffModbusTcp - 1)
          (remainigLen length modbus_tcp_lenght).toNat
        return .nested ⟨heap.after 2, ⟨data, lastAddress⟩,
          ⟨remainigLen length modbus_tcp_lenght, remainigLen_pos_and_lt h⟩,
          buffer remainig (heap 1)⟩
      else
        return .published lastAddress (join data ';')

/-- What a call leaves behind, given how it goes on. -/
def finish (self : Modbus) (modbus_data : QJsonObject) : Outcome → Option (Modbus × QJsonObject)
  | .abandoned => some (self, modbus_data)
  | .unreturned => none
  | .published lastAddress text => some (⟨[], lastAddress⟩, modbus_data.insert "modbus" text)
  | .nested c => (processModbusPacket c.heap c.self c.length modbus_data).run c.packet

/-- **The function is its body followed by the nested call.** -/
theorem processModbusPacket_eq_body (heap : Heap) (self : Modbus) (length : PosInt)
    (modbus_data : QJsonObject) :
    processModbusPacket heap self length modbus_data =
      finish self modbus_data <$> body heap self length := by
  rw [processModbusPacket, body, map_bind]
  refine bind_congr fun modbus_tcp_lenght ↦ ?_
  rw [map_bind]
  refine bind_congr fun modbus_transaction_id ↦ ?_
  split
  · rfl
  · rw [map_bind]
    refine bind_congr fun temp ↦ ?_
    cases (analyzeModbusPacket self.m_lastAddress (modbus_tcp_lenght.toNat - 1)).run
        (buffer temp (heap 0)) with
    | none => rfl
    | some r =>
      dsimp only
      split
      · rw [map_bind]
        rfl
      · rfl

/-! ## Nested calls -/

/-- A nested call is given what is left over by the length field that its caller finds. -/
theorem length_of_run_body {heap : Heap} {self : Modbus} {length : PosInt} {packet : Memory}
    {c : Call} (h : (body heap self length).run packet = .nested c) :
    ∃ modbus_tcp_lenght : UInt16, c.length.1 = remainigLen length modbus_tcp_lenght := by
  refine ⟨htons ((loadUShort 4).run packet), ?_⟩
  rw [body] at h
  simp only [run_bind, run_map] at h
  by_cases hneg : remainigLen length (htons ((loadUShort 4).run packet)) < 0
  · rw [if_pos hneg, run_pure] at h
    cases h
  · rw [if_neg hneg, run_bind] at h
    cases hreply : (analyzeModbusPacket self.m_lastAddress
        ((htons ((loadUShort 4).run packet)).toNat - 1)).run
        (buffer ((copy sizeofSniffModbusTcp
          ((htons ((loadUShort 4).run packet)).toNat - 1)).run packet) (heap 0)) with
    | none =>
      rw [hreply] at h
      cases h
    | some r =>
      rw [hreply] at h
      by_cases hpos : 0 < remainigLen length (htons ((loadUShort 4).run packet))
      · simp only [dif_pos hpos, run_bind, run_pure, Outcome.nested.injEq] at h
        rw [← h]
      · simp only [dif_neg hpos, run_pure] at h
        cases h

namespace Call

/-- The nested call that a call makes, if it makes one. -/
def next (c : Call) : Option Call := ((body c.heap c.self c.length).run c.packet).nested?

theorem next_eq_some_iff {c c' : Call} :
    c.next = some c' ↔ (body c.heap c.self c.length).run c.packet = .nested c' :=
  Outcome.nested?_eq_some_iff

/-- A nested call is given at least six bytes less. -/
theorem length_add_six_le_of_next {c c' : Call} (h : c.next = some c') :
    c'.length.1 + 6 ≤ c.length.1 := by
  obtain ⟨modbus_tcp_lenght, hlen⟩ := length_of_run_body (next_eq_some_iff.mp h)
  rw [hlen, remainigLen_eq]
  omega

/-- The nested calls as a machine that runs down the lengths. -/
def descent : Descent Call where
  next := next
  measure c := c.length.1.toNat
  next_lt {c c'} h := by
    have hlen := length_add_six_le_of_next h
    have hpos := c'.length.2.1
    omega

/-- A call and those it leads to, in order. -/
def trace (c : Call) : List Call := descent.trace c

theorem trace_of_next_eq_none {c : Call} (h : c.next = none) : c.trace = [c] :=
  Descent.trace_of_none h

theorem trace_of_next_eq_some {c c' : Call} (h : c.next = some c') : c.trace = c :: c'.trace :=
  Descent.trace_of_some h

/-- **Splitting terminates.** For every length field the remaining length is the integer difference;
each nested call is given a positive length smaller by at least six; and there are at most
`n / 6 + 1` calls for a payload of `n` bytes. -/
theorem trace_lengths (c : Call) :
    (∀ modbus_tcp_lenght : UInt16,
      remainigLen c.length modbus_tcp_lenght = c.length.1 - modbus_tcp_lenght.toNat - 6) ∧
    c.trace.IsChain (fun c c' ↦ c.next = some c' ∧ 0 < c'.length.1 ∧
      c'.length.1 + 6 ≤ c.length.1) ∧
    c.trace.length ≤ c.length.1.toNat / 6 + 1 := by
  refine ⟨remainigLen_eq c.length, ?_, ?_⟩
  · refine (descent.isChain_trace c).imp fun c c' h ↦ ?_
    exact ⟨h, c'.length.2.1, length_add_six_le_of_next h⟩
  · have hpos : ∀ c : Call, 0 < descent.measure c := fun c ↦ Int.pos_iff_toNat_pos.mp c.length.2.1
    have hstep : ∀ c c' : Call, descent.next c = some c' →
        descent.measure c' + 6 ≤ descent.measure c := by
      intro c c' h
      have hlen := length_add_six_le_of_next h
      have hpos := c'.length.2.1
      change c'.length.1.toNat + 6 ≤ c.length.1.toNat
      omega
    have hcount : 6 * c.trace.length < c.length.1.toNat + 6 :=
      Descent.mul_length_trace_lt hpos hstep c
    omega

end Call

end Modbus

end OtTcpListener
