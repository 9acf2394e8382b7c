import OtTcpListener.Platform.Qt

/-!
# Decoding one protocol data unit

`Modbus::analyzeModbusPacket` reads a PDU of a given length and renders it as text. It keeps one
piece of state, `m_lastAddress`, the base of the register numbers it prints.

A call either returns, with a text and the new `m_lastAddress`, or runs off the end of a function
that has to return a value; the latter is `none`. It is undefined behaviour, and read in one way
throughout: the run ends with that call, and nothing asked of it or of what would follow is met.

## Requests and responses

The code tells them apart by length alone: for function codes 3 and 4 a PDU of exactly eight bytes
is rendered as a request, a longer one as a list of registers. The number of registers comes from
the byte count in the PDU and is not compared with the length.
-/

namespace OtTcpListener

open Probe QString

namespace Modbus

/-- The switch on `function & 127`. -/
def functionName : ℕ → QString
  | 1 => "Read Coil Status"
  | 2 => "Read Input Status"
  | 3 => "Read Holding Registers"
  | 4 => "Read Input Registers"
  | 5 => "Force Single Coil"
  | 6 => "Preset Single Register"
  | 8 => "Diagnostics"
  | 15 => "Force Multiple Coils"
  | 16 => "Preset Multiple Registers"
  | _ => "Unknown function"

/-- The text of one register: its number, and its value as a `qint16`. -/
def registerItem (address : ℕ) (value : UInt16) : QString :=
  number address ++ ":" ++ number value.toInt16.toInt

/-- The loops over registers: `count` items numbered from `address`, with big-endian values from
byte `offset` on. -/
def registerItems (address offset count : ℕ) : Reader (List QString) :=
  (List.range count).mapM fun i ↦
    return registerItem (address + i) (be16 (← cell (offset + i * 2)) (← cell (offset + i * 2 + 1)))

/-- `Modbus::analyzeModbusPacket`, on the `length` bytes behind its argument. -/
def analyzeModbusPacket (m_lastAddress : UInt16) (length : ℤ) :
    Reader (Option (QString × UInt16)) :=
  if length < 5 then
    return some ("", m_lastAddress)
  else do
    let function ← cell 0
    let reply := ["Function:" ++ functionName (function &&& 127).toNat]
    -- the exception branch is empty: control reaches the closing brace without a return
    if function &&& 128 ≠ 0 then
      return none
    else if length < 8 then
      return some ("", m_lastAddress)
    else do
      let address := be16 (← cell 1) (← cell 2)
      let points := be16 (← cell 3) (← cell 4)
      if function = 3 ∨ function = 4 then
        if length > 8 then do
          let items ← registerItems m_lastAddress.toNat 2 ((← cell 1).toNat / 2)
          return some (join (reply ++ items) ';', m_lastAddress)
        else
          let item := "Start:" ++ number address.toNat ++ " Length:" ++ number points.toNat
          return some (join (reply ++ [item]) ';', address)
      else if function = 8 then do
        let subfunction := be16 (← cell 1) (← cell 2)
        let item := "Subfunction:" ++ number subfunction.toNat ++ " Length:" ++ number length
        return some (join (reply ++ [item]) ';', m_lastAddress)
      else if function = 16 then
        if length > 8 then do
          let items ← registerItems address.toNat 6 ((← cell 5).toNat / 2)
          return some (join (reply ++ items) ';', m_lastAddress)
        else
          return some (join reply ';', m_lastAddress)
      else
        return some (join reply ';', m_lastAddress)

/-! ## The two register loops -/

@[simp] theorem run_registerItems (address offset count : ℕ) (m : Memory) :
    (registerItems address offset count).run m = (List.range count).map fun i ↦
      registerItem (address + i) (be16 (m (offset + i * 2)) (m (offset + i * 2 + 1))) := by
  simp [registerItems]

/-- The loop visits the `2 * count` bytes from `offset` on. -/
@[simp] theorem readsIn_registerItems {n : ℤ} (address offset count : ℕ) (m : Memory) :
    ReadsIn (fun i : ℕ ↦ (i : ℤ) < n) (registerItems address offset count) m ↔
      0 < count → (offset + 2 * count : ℤ) ≤ n := by
  simp only [registerItems, readsIn_mapM, List.mem_range, readsIn_bind, readsIn_cell, readsIn_pure,
    run_cell, and_true]
  constructor
  · intro h hcount
    have := (h (count - 1) (by omega)).2
    omega
  · intro h i hi
    have := h (by omega)
    omega

/-! ## Where a call returns and where it reads -/

/-- The exception bit of a function code. -/
theorem and_128_ne_zero_iff (b : UInt8) : b &&& 128 ≠ 0 ↔ 128 ≤ b.toNat := by
  have key : ∀ n : Fin 256, UInt8.ofNat n &&& 128 ≠ 0 ↔ 128 ≤ n.val := by decide +kernel
  have h := key ⟨b.toNat, b.toNat_lt⟩
  rwa [UInt8.ofNat_toNat] at h

/-- The function codes of register reads have no exception bit. -/
theorem toNat_lt_of_read {function : UInt8} (h : function = 3 ∨ function = 4) :
    function.toNat < 128 := by
  rcases h with rfl | rfl <;> decide

theorem three_eq_three_or_four : (3 : UInt8) = 3 ∨ (3 : UInt8) = 4 := .inl rfl

/-- The register data that the byte count of the PDU announces lies inside the PDU, wherever the
code uses that byte count. -/
def ByteCountFits (length : ℤ) (m : Memory) : Prop :=
  8 < length → ((m 0 = 3 ∨ m 0 = 4) → 2 + 2 * ((m 1).toNat / 2 : ℕ) ≤ length) ∧
    (m 0 = 16 → 6 + 2 * ((m 5).toNat / 2 : ℕ) ≤ length)

instance (length : ℤ) (m : Memory) : Decidable (ByteCountFits length m) :=
  inferInstanceAs (Decidable (_ → _))

variable (last : UInt16) {length : ℤ} {m : Memory}

theorem analyzeModbusPacket_of_lt_five (h : length < 5) :
    analyzeModbusPacket last length = return some ("", last) := if_pos h

theorem run_analyzeModbusPacket_of_exception (h5 : 5 ≤ length) (hexc : 128 ≤ (m 0).toNat) :
    (analyzeModbusPacket last length).run m = none := by
  rw [analyzeModbusPacket, if_neg (not_lt.mpr h5), run_bind, run_cell]
  dsimp only
  rw [if_pos ((and_128_ne_zero_iff _).mpr hexc), run_pure]

theorem run_analyzeModbusPacket_of_lt_eight (h8 : length < 8) (hexc : (m 0).toNat < 128) :
    (analyzeModbusPacket last length).run m = some ("", last) := by
  by_cases h5 : length < 5
  · rw [analyzeModbusPacket_of_lt_five last h5, run_pure]
  · rw [analyzeModbusPacket, if_neg h5, run_bind, run_cell]
    dsimp only
    rw [if_neg (mt (and_128_ne_zero_iff _).mp (not_le.mpr hexc)), if_pos h8, run_pure]

/-- **What a call returns from eight bytes on.** The name of the function, and then, for the
functions the code knows more about, some items. The new `m_lastAddress` is that of what the code
takes for a request. -/
theorem run_analyzeModbusPacket_of_eight_le (h8 : 8 ≤ length) (hexc : (m 0).toNat < 128) :
    (analyzeModbusPacket last length).run m =
      some (join (("Function:" ++ functionName (m 0 &&& 127).toNat) ::
        if m 0 = 3 ∨ m 0 = 4 then
          if 8 < length then
            (List.range ((m 1).toNat / 2)).map fun i ↦
              registerItem (last.toNat + i) (be16 (m (2 + i * 2)) (m (2 + i * 2 + 1)))
          else
            ["Start:" ++ number (be16 (m 1) (m 2)).toNat ++ " Length:" ++
              number (be16 (m 3) (m 4)).toNat]
        else if m 0 = 8 then
          ["Subfunction:" ++ number (be16 (m 1) (m 2)).toNat ++ " Length:" ++ number length]
        else if m 0 = 16 ∧ 8 < length then
          (List.range ((m 5).toNat / 2)).map fun i ↦
            registerItem ((be16 (m 1) (m 2)).toNat + i)
              (be16 (m (6 + i * 2)) (m (6 + i * 2 + 1)))
        else []) ';',
      if length = 8 ∧ (m 0 = 3 ∨ m 0 = 4) then be16 (m 1) (m 2) else last) := by
  rw [analyzeModbusPacket, if_neg (by omega), run_bind, run_cell]
  dsimp only
  rw [if_neg (mt (and_128_ne_zero_iff _).mp (not_le.mpr hexc)), if_neg (not_lt.mpr h8)]
  simp only [run_ite, run_bind, run_cell, run_pure, run_registerItems, gt_iff_lt]
  by_cases h34 : m 0 = 3 ∨ m 0 = 4
  · by_cases hlong : 8 < length
    · have hkeep : ¬(length = 8 ∧ (m 0 = 3 ∨ m 0 = 4)) := fun h ↦ hlong.ne' h.1
      simp only [if_pos h34, if_pos hlong, if_neg hkeep]
      rfl
    · have hrequest : length = 8 ∧ (m 0 = 3 ∨ m 0 = 4) := ⟨by omega, h34⟩
      simp only [if_pos h34, if_neg hlong, if_pos hrequest]
      rfl
  · have hkeep : ¬(length = 8 ∧ (m 0 = 3 ∨ m 0 = 4)) := fun h ↦ h34 h.2
    simp only [if_neg h34, if_neg hkeep]
    by_cases hdiag : m 0 = 8
    · simp only [if_pos hdiag]
      rfl
    · by_cases h16 : m 0 = 16
      · by_cases hlong : 8 < length
        · simp only [if_neg hdiag, if_pos h16, if_pos hlong, if_pos (And.intro h16 hlong)]
          rfl
        · simp only [if_neg hdiag, if_pos h16, if_neg hlong, if_neg (mt And.right hlong)]
      · simp only [if_neg hdiag, if_neg h16, if_neg (mt And.left h16)]

/-- Function codes 3 and 4, a PDU longer than eight bytes: a list of registers. -/
theorem run_analyzeModbusPacket_of_registers (h8 : 8 < length) (hfc : m 0 = 3 ∨ m 0 = 4) :
    (analyzeModbusPacket last length).run m =
      some (join (("Function:" ++ functionName (m 0 &&& 127).toNat) ::
        (List.range ((m 1).toNat / 2)).map fun i ↦
          registerItem (last.toNat + i) (be16 (m (2 + i * 2)) (m (2 + i * 2 + 1)))) ';', last) := by
  rw [run_analyzeModbusPacket_of_eight_le last h8.le (toNat_lt_of_read hfc), if_pos hfc, if_pos h8,
    if_neg fun h ↦ h8.ne' h.1]

/-- Function codes 3 and 4, a PDU of exactly eight bytes: a start address and a length. -/
theorem run_analyzeModbusPacket_of_eight (h8 : length = 8) (hfc : m 0 = 3 ∨ m 0 = 4) :
    (analyzeModbusPacket last length).run m =
      some (join ["Function:" ++ functionName (m 0 &&& 127).toNat,
        "Start:" ++ number (be16 (m 1) (m 2)).toNat ++ " Length:" ++
          number (be16 (m 3) (m 4)).toNat] ';', be16 (m 1) (m 2)) := by
  rw [run_analyzeModbusPacket_of_eight_le last h8.ge (toNat_lt_of_read hfc), if_pos hfc,
    if_neg h8.not_gt, if_pos ⟨h8, hfc⟩]

/-- Function code 16, a PDU longer than eight bytes: a list of registers from its own address. -/
theorem run_analyzeModbusPacket_of_preset (h8 : 8 < length) (hfc : m 0 = 16) :
    (analyzeModbusPacket last length).run m =
      some (join (("Function:" ++ functionName (m 0 &&& 127).toNat) ::
        (List.range ((m 5).toNat / 2)).map fun i ↦
          registerItem ((be16 (m 1) (m 2)).toNat + i)
            (be16 (m (6 + i * 2)) (m (6 + i * 2 + 1)))) ';', last) := by
  have hexc : (m 0).toNat < 128 := by rw [hfc]; decide
  have h34 : ¬(m 0 = 3 ∨ m 0 = 4) := by rw [hfc]; decide
  have hdiag : ¬m 0 = 8 := by rw [hfc]; decide
  rw [run_analyzeModbusPacket_of_eight_le last h8.le hexc, if_neg h34, if_neg hdiag,
    if_pos ⟨hfc, h8⟩, if_neg fun h ↦ h34 h.2]

/-- Function code 16, a PDU of exactly eight bytes: the name of the function alone. -/
theorem run_analyzeModbusPacket_of_preset_eight (h8 : length = 8) (hfc : m 0 = 16) :
    (analyzeModbusPacket last length).run m =
      some (join ["Function:" ++ functionName (m 0 &&& 127).toNat] ';', last) := by
  have hexc : (m 0).toNat < 128 := by rw [hfc]; decide
  have h34 : ¬(m 0 = 3 ∨ m 0 = 4) := by rw [hfc]; decide
  have hdiag : ¬m 0 = 8 := by rw [hfc]; decide
  rw [run_analyzeModbusPacket_of_eight_le last h8.ge hexc, if_neg h34, if_neg hdiag,
    if_neg fun h ↦ h8.not_gt h.2, if_neg fun h ↦ h34 h.2]

/-- **Where a call returns.** It runs off the end exactly when the PDU has at least five bytes and
the exception bit. -/
theorem run_analyzeModbusPacket_eq_none_iff (length : ℤ) (m : Memory) :
    (analyzeModbusPacket last length).run m = none ↔ 5 ≤ length ∧ 128 ≤ (m 0).toNat := by
  constructor
  · intro hnone
    by_contra hc
    by_cases h5 : length < 5
    · rw [analyzeModbusPacket_of_lt_five last h5, run_pure] at hnone
      exact Option.some_ne_none _ hnone
    · have hexc : (m 0).toNat < 128 := by omega
      rcases lt_or_ge length 8 with h8 | h8
      · rw [run_analyzeModbusPacket_of_lt_eight last h8 hexc] at hnone
        exact Option.some_ne_none _ hnone
      · rw [run_analyzeModbusPacket_of_eight_le last h8 hexc] at hnone
        exact Option.some_ne_none _ hnone
  · rintro ⟨h5, hexc⟩
    exact run_analyzeModbusPacket_of_exception last h5 hexc

/-- The lines behind the name of the function. -/
inductive IsItem : QString → Prop where
  | register (address : ℕ) (value : UInt16) : IsItem (registerItem address value)
  | request (address points : UInt16) :
    IsItem ("Start:" ++ number address.toNat ++ " Length:" ++ number points.toNat)
  | subfunction (subfunction : UInt16) (length : ℤ) :
    IsItem ("Subfunction:" ++ number subfunction.toNat ++ " Length:" ++ number length)

/-- **What a call returns.** Either nothing, for a PDU of fewer than eight bytes, or the name of the
function and some items. `m_lastAddress` changes for function codes 3 and 4 and a PDU of exactly
eight bytes only. -/
theorem run_analyzeModbusPacket_cases {last last' : UInt16} {reply : QString}
    (h : (analyzeModbusPacket last length).run m = some (reply, last')) :
    (length < 8 ∧ reply = "" ∧ last' = last) ∨
      ∃ items : List QString,
        reply = join (("Function:" ++ functionName (m 0 &&& 127).toNat) :: items) ';' ∧
        (∀ s ∈ items, IsItem s) ∧
        last' = if length = 8 ∧ (m 0 = 3 ∨ m 0 = 4) then be16 (m 1) (m 2) else last := by
  have hreturns := mt (run_analyzeModbusPacket_eq_none_iff last length m).mpr (by rw [h]; simp)
  rcases lt_or_ge length 8 with h8 | h8
  · left
    by_cases h5 : length < 5
    · rw [analyzeModbusPacket_of_lt_five last h5, run_pure, Option.some.injEq, Prod.mk.injEq] at h
      exact ⟨h8, h.1.symm, h.2.symm⟩
    · rw [run_analyzeModbusPacket_of_lt_eight last h8 (by omega), Option.some.injEq,
        Prod.mk.injEq] at h
      exact ⟨h8, h.1.symm, h.2.symm⟩
  · right
    rw [run_analyzeModbusPacket_of_eight_le last h8 (by omega), Option.some.injEq,
      Prod.mk.injEq] at h
    refine ⟨_, h.1.symm, fun s hs ↦ ?_, h.2.symm⟩
    split_ifs at hs with h34 hlong hdiag hpreset
    · obtain ⟨i, -, rfl⟩ := List.mem_map.mp hs
      exact .register _ _
    · rw [List.mem_singleton.mp hs]
      exact .request _ _
    · rw [List.mem_singleton.mp hs]
      exact .subfunction _ _
    · obtain ⟨i, -, rfl⟩ := List.mem_map.mp hs
      exact .register _ _
    · exact absurd hs List.not_mem_nil

/-- **Where a call reads.** The calls that stay inside the PDU are those whose byte count fits. -/
theorem readsIn_analyzeModbusPacket_iff (length : ℤ) (m : Memory) :
    ReadsIn (fun i : ℕ ↦ (i : ℤ) < length) (analyzeModbusPacket last length) m ↔
      ByteCountFits length m := by
  by_cases h5 : length < 5
  · rw [analyzeModbusPacket_of_lt_five last h5]
    exact iff_of_true (readsIn_pure _ _) fun h ↦ by omega
  rw [analyzeModbusPacket, if_neg h5, readsIn_bind, readsIn_cell, run_cell]
  dsimp only
  by_cases hexc : m 0 &&& 128 ≠ 0
  · -- no branch that uses a byte count has the exception bit
    have hfc : m 0 ≠ 3 ∧ m 0 ≠ 4 ∧ m 0 ≠ 16 := by
      refine ⟨?_, ?_, ?_⟩ <;> intro h <;> rw [h] at hexc <;> exact hexc (by decide)
    rw [if_pos hexc]
    refine iff_of_true ⟨by omega, readsIn_pure _ _⟩ fun _ ↦ ⟨fun h ↦ ?_, fun h ↦ absurd h hfc.2.2⟩
    exact h.elim (absurd · hfc.1) (absurd · hfc.2.1)
  rw [if_neg hexc]
  by_cases h8 : length < 8
  · rw [if_pos h8]
    exact iff_of_true ⟨by omega, readsIn_pure _ _⟩ fun h ↦ by omega
  · rw [if_neg h8]
    simp only [readsIn_bind, readsIn_cell, run_cell, readsIn_ite, readsIn_pure,
      readsIn_registerItems]
    unfold ByteCountFits
    push_cast
    split_ifs with hreg hlong hfc8 hfc16 hlong <;> grind

/-- A call that returns and stays inside the PDU gives the same result on every memory that holds
the PDU. -/
theorem run_analyzeModbusPacket_congr (hfits : ByteCountFits length m) {m' : Memory}
    (hm : ∀ i : ℕ, (i : ℤ) < length → m i = m' i) :
    (analyzeModbusPacket last length).run m = (analyzeModbusPacket last length).run m' :=
  ((readsIn_analyzeModbusPacket_iff last length m).mpr hfits).run_congr hm

end Modbus

end OtTcpListener
