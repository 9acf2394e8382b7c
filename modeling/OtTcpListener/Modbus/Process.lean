import OtTcpListener.Modbus.Analyze

/-!
# Splitting a payload into application data units

`Modbus::processModbusPacket` takes the first ADU off a payload, renders it, and calls itself on a
copy of what remains. The texts collect in the member `data`; the call that finds nothing remaining
joins them, publishes them under `"modbus"` and clears the list. A call whose ADU is incomplete
returns at once.

`remainig_len` is computed in `size_t` and narrowed to `int`. For a positive `int` length this is
the integer difference (`remainigLen_eq`), which is what makes the recursion terminate.
-/

namespace OtTcpListener

open Probe QString

/-- The state of a `Modbus` object. -/
structure Modbus where
  data : List QString := []
  m_lastAddress : UInt16 := 0

namespace Modbus

/-- `sizeof(struct sniff_modbus_tcp)`: the struct is packed. -/
def sizeofSniffModbusTcp : ℕ := 7

/-- `length - (modbus_tcp_lenght + sizeof(struct sniff_modbus_tcp) - 1)`, stored in an `int`. -/
def remainigLen (length : ℤ) (modbus_tcp_lenght : UInt16) : ℤ :=
  toInt (sizeTSub (sizeT length) (modbus_tcp_lenght.toNat + sizeofSniffModbusTcp - 1))

theorem remainigLen_eq (length : PosInt) (modbus_tcp_lenght : UInt16) :
    remainigLen length modbus_tcp_lenght = length - modbus_tcp_lenght.toNat - 6 := by
  have hpos := length.2.1
  have hmax := length.2.2
  have hL := modbus_tcp_lenght.toNat_lt
  rw [remainigLen, sizeofSniffModbusTcp, toInt_sizeTSub (by omega) (by omega) (by omega)]
  omega

theorem remainigLen_lt (length : PosInt) (modbus_tcp_lenght : UInt16) :
    remainigLen length modbus_tcp_lenght < 2 ^ 31 := by
  have hmax := length.2.2
  rw [remainigLen_eq]
  omega

/-- What remains is a length that can be passed. -/
theorem remainigLen_pos_and_lt {length : PosInt} {modbus_tcp_lenght : UInt16}
    (h : 0 < remainigLen length modbus_tcp_lenght) :
    0 < remainigLen length modbus_tcp_lenght ∧ remainigLen length modbus_tcp_lenght < 2 ^ 31 :=
  ⟨h, remainigLen_lt length modbus_tcp_lenght⟩

/-- Every nested call is given a strictly shorter payload. -/
theorem toNat_remainigLen_lt (length : PosInt) (modbus_tcp_lenght : UInt16) :
    (remainigLen length modbus_tcp_lenght).toNat < length.1.toNat := by
  have hpos := length.2.1
  rw [remainigLen_eq]
  omega

/-- The texts appended to `data` for one ADU. -/
def group (transaction_id modbus_tcp_lenght : UInt16) (databuf : List UInt8) (reply : QString) :
    List QString :=
  ["Transaction Id:" ++ number transaction_id.toNat,
    "Lenght:" ++ number (modbus_tcp_lenght.toNat - 1),
    "Hex:" ++ toHex databuf] ++ if reply.isEmpty then [] else [reply]

/-- `Modbus::processModbusPacket`, on the `length` bytes behind its argument. The two blocks it
allocates are the next two of the heap. `none`: `analyzeModbusPacket` ran off its end. -/
def processModbusPacket (heap : Heap) (self : Modbus) (length : PosInt)
    (modbus_data : QJsonObject) : Reader (Option (Modbus × QJsonObject)) := do
  let modbus_tcp_lenght ← htons <$> loadUShort 4
  let modbus_transaction_id ← htons <$> loadUShort 0
  if remainigLen length modbus_tcp_lenght < 0 then
    return some (self, modbus_data)
  else do
    -- a length field of 0 makes the bound of the copy loop -1: nothing is copied
    let temp ← copy sizeofSniffModbusTcp (modbus_tcp_lenght.toNat - 1)
    match (analyzeModbusPacket self.m_lastAddress (modbus_tcp_lenght.toNat - 1)).run
        (buffer temp (heap 0)) with
    | none => return none
    | some (reply, lastAddress) =>
      let data := self.data ++ group modbus_transaction_id modbus_tcp_lenght temp reply
      if h : 0 < remainigLen length modbus_tcp_lenght then do
        let remainig ← copy (modbus_tcp_lenght.toNat + sizeofSniffModbusTcp - 1)
          (remainigLen length modbus_tcp_lenght).toNat
        return (processModbusPacket (heap.after 2) ⟨data, lastAddress⟩
          ⟨remainigLen length modbus_tcp_lenght, h, remainigLen_lt _ _⟩ modbus_data).run
            (buffer remainig (heap 1))
      else
        return some (⟨[], lastAddress⟩, modbus_data.insert "modbus" (join data ';'))
termination_by length.1.toNat
decreasing_by exact toNat_remainigLen_lt length _

end Modbus

end OtTcpListener
