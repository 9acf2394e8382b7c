import OtTcpListener.Modbus.Analyze

/-!
# Confinement

Does the text of a PDU depend on that PDU alone? `analyzeModbusPacket` compares the length with 8
before it lists registers, but takes their number from a byte count in the PDU. A call depends on
nothing outside the PDU exactly when it returns and the byte count fits
(`analyzeModbusPacket_confined_iff`). Otherwise the list runs past the end, and a change of the
first byte behind the PDU changes the text.
-/

namespace OtTcpListener

open Probe QString

namespace Modbus

/-! ## The register texts determine the registers -/

theorem registerItem_injective (address : ℕ) : Function.Injective (registerItem address) := by
  intro v w h
  rw [registerItem, registerItem] at h
  have hnum := number_injective (String.append_right_inj _ |>.mp h)
  exact congrArg Int16.toUInt16 (Int16.toInt_inj.mp hnum)

theorem registerItem_inj_left {address address' : ℕ} {value : UInt16} :
    registerItem address value = registerItem address' value ↔ address = address' := by
  refine ⟨fun h ↦ ?_, congrArg (registerItem · value)⟩
  rw [registerItem, registerItem, String.append_assoc, String.append_assoc,
    String.append_left_inj] at h
  exact Int.ofNat_inj.mp (number_injective h)

/-- No item of a reply holds the separator, or the capital T that a group begins with. -/
theorem IsItem.notMem {s : QString} (hs : IsItem s) {c : Char} (hc : c = ';' ∨ c = 'T') :
    c ∉ s.toList := by
  have hdigit : c.isDigit = false := by rcases hc with rfl | rfl <;> rfl
  have hminus : c ≠ '-' := by rcases hc with rfl | rfl <;> decide
  have hnumber : ∀ n : ℤ, c ∉ (number n).toList := notMem_number hdigit hminus
  have hcolon : c ∉ ":".toList := by rcases hc with rfl | rfl <;> decide
  have hlength : c ∉ " Length:".toList := by rcases hc with rfl | rfl <;> decide
  have hfields : ∀ (name : QString) (n k : ℤ), c ∉ name.toList →
      c ∉ (name ++ number n ++ " Length:" ++ number k).toList := fun name n k hname ↦ by
    rw [String.toList_append, String.toList_append, String.toList_append, List.mem_append,
      List.mem_append, List.mem_append, not_or, not_or, not_or]
    exact ⟨⟨⟨hname, hnumber n⟩, hlength⟩, hnumber k⟩
  cases hs with
  | register address value =>
    rw [registerItem, String.toList_append, String.toList_append, List.mem_append, List.mem_append,
      not_or, not_or]
    exact ⟨⟨hnumber _, hcolon⟩, hnumber _⟩
  | request address points => exact hfields _ _ _ (by rcases hc with rfl | rfl <;> decide)
  | subfunction subfunction length =>
    exact hfields _ _ _ (by rcases hc with rfl | rfl <;> decide)

theorem notMem_functionName (code : ℕ) {c : Char} (hc : c = ';' ∨ c = 'T') :
    c ∉ ("Function:" ++ functionName code).toList := by
  unfold functionName
  rcases hc with rfl | rfl <;> split <;> decide

/-- A text that lists registers determines the registers. -/
theorem registerTexts_inj {code address count : ℕ} {v w : ℕ → UInt16}
    (h : join (("Function:" ++ functionName code) ::
        (List.range count).map fun i ↦ registerItem (address + i) (v i)) ';' =
      join (("Function:" ++ functionName code) ::
        (List.range count).map fun i ↦ registerItem (address + i) (w i)) ';') :
    ∀ i < count, v i = w i := by
  have hsep : ∀ u : ℕ → UInt16, ∀ s ∈ ("Function:" ++ functionName code) ::
      (List.range count).map fun i ↦ registerItem (address + i) (u i), ';' ∉ s.toList := by
    intro u s hs
    rcases List.mem_cons.mp hs with rfl | hs
    · exact notMem_functionName code (.inl rfl)
    · obtain ⟨i, -, rfl⟩ := List.mem_map.mp hs
      exact (IsItem.register _ _).notMem (.inl rfl)
  have hlist := join_injective (hsep v) (List.cons_ne_nil _ _) (hsep w) (List.cons_ne_nil _ _) h
  intro i hi
  exact registerItem_injective _
    (List.map_inj_left.mp (List.cons.inj hlist).2 i (List.mem_range.mpr hi))

/-! ## The first byte past the end -/

/-- The memory with the byte at `n` changed. -/
def bump (m : Memory) (n : ℕ) : Memory := Function.update m n (m n + 1)

theorem bump_of_ne (m : Memory) {n i : ℕ} (h : i ≠ n) : bump m n i = m i :=
  Function.update_of_ne h ..

theorem toNat_bump_self_ne (m : Memory) (n : ℕ) : (bump m n n).toNat ≠ (m n).toNat := by
  have := (m n).toNat_lt
  rw [bump, Function.update_self, UInt8.toNat_add]
  change ((m n).toNat + 1) % 256 ≠ _
  omega

/-- A register list that covers the changed byte has a changed register. -/
theorem exists_register_bump_ne (m : Memory) (offset count : ℕ) {n : ℕ} (hlo : offset ≤ n)
    (hhi : n < offset + 2 * count) : ∃ i < count,
      be16 (bump m n (offset + i * 2)) (bump m n (offset + i * 2 + 1)) ≠
        be16 (m (offset + i * 2)) (m (offset + i * 2 + 1)) := by
  have hbyte := toNat_bump_self_ne m n
  refine ⟨(n - offset) / 2, by omega, fun h ↦ hbyte ?_⟩
  have hval := congrArg UInt16.toNat h
  rw [toNat_be16, toNat_be16] at hval
  rcases Nat.mod_two_eq_zero_or_one (n - offset) with hpar | hpar
  · -- the changed byte is the high one
    have hn : offset + (n - offset) / 2 * 2 = n := by omega
    rw [hn, bump_of_ne m (show n + 1 ≠ n by omega)] at hval
    omega
  · have hn : offset + (n - offset) / 2 * 2 + 1 = n := by omega
    rw [hn, bump_of_ne m (by omega)] at hval
    omega

/-- When the byte count does not fit, the byte just past the PDU shows in the text. -/
theorem run_bump_ne (last : UInt16) {length : ℤ} {m : Memory} (hfits : ¬ByteCountFits length m) :
    (analyzeModbusPacket last length).run (bump m length.toNat) ≠
      (analyzeModbusPacket last length).run m := by
  have hbig : 8 < length := not_le.mp fun h ↦ hfits fun h' ↦ absurd h' (not_lt.mpr h)
  have hcell : ∀ i ≤ 8, bump m length.toNat i = m i := fun i hi ↦ bump_of_ne m (by omega)
  by_cases hregs : m 0 = 3 ∨ m 0 = 4
  · have hcount : length < 2 + 2 * ((m 1).toNat / 2 : ℕ) := by
      by_contra hc
      refine hfits fun _ ↦ ⟨fun _ ↦ not_lt.mp hc, fun h16 ↦ ?_⟩
      rw [h16] at hregs
      exact absurd hregs (by decide)
    obtain ⟨i, hi, hne⟩ := exists_register_bump_ne m 2 ((m 1).toNat / 2)
      (show 2 ≤ length.toNat by omega) (by omega)
    intro h
    rw [run_analyzeModbusPacket_of_registers last hbig (by rwa [hcell 0 (by omega)]),
      run_analyzeModbusPacket_of_registers last hbig hregs, hcell 0 (by omega),
      hcell 1 (by omega), Option.some.injEq, Prod.mk.injEq] at h
    exact hne (registerTexts_inj h.1 i hi)
  · have h16 : m 0 = 16 := by
      by_contra hc
      exact hfits fun _ ↦ ⟨fun h ↦ absurd h hregs, fun h ↦ absurd h hc⟩
    have hcount : length < 6 + 2 * ((m 5).toNat / 2 : ℕ) := by
      by_contra hc
      exact hfits fun _ ↦ ⟨fun h ↦ absurd h hregs, fun _ ↦ not_lt.mp hc⟩
    obtain ⟨i, hi, hne⟩ := exists_register_bump_ne m 6 ((m 5).toNat / 2)
      (show 6 ≤ length.toNat by omega) (by omega)
    intro h
    rw [run_analyzeModbusPacket_of_preset last hbig (by rwa [hcell 0 (by omega)]),
      run_analyzeModbusPacket_of_preset last hbig h16, hcell 0 (by omega), hcell 1 (by omega),
      hcell 2 (by omega), hcell 5 (by omega), Option.some.injEq, Prod.mk.injEq] at h
    exact hne (registerTexts_inj h.1 i hi)

/-- **Confinement.** A call returns the same on every memory that holds the PDU exactly when it
returns and the byte count of the PDU does not reach past its end. -/
theorem analyzeModbusPacket_confined_iff (last : UInt16) (length : ℤ) (m : Memory) :
    (∀ m' : Memory, (∀ i : ℕ, (i : ℤ) < length → m' i = m i) →
      ∃ r, (analyzeModbusPacket last length).run m = some r ∧
        (analyzeModbusPacket last length).run m' = some r) ↔
      (length < 5 ∨ (m 0).toNat < 128) ∧ ByteCountFits length m := by
  constructor
  · intro h
    refine ⟨?_, ?_⟩
    · obtain ⟨r, hr, -⟩ := h m fun _ _ ↦ rfl
      by_contra hc
      push Not at hc
      have hnone := (run_analyzeModbusPacket_eq_none_iff last length m).mpr hc
      rw [hr] at hnone
      cases hnone
    · by_contra hfits
      obtain ⟨r, hr, hr'⟩ := h (bump m length.toNat) fun i hi ↦ bump_of_ne m (by omega)
      exact run_bump_ne last hfits (hr'.trans hr.symm)
  · rintro ⟨hret, hfits⟩ m' hm
    have hsome : (analyzeModbusPacket last length).run m ≠ none := fun hnone ↦ by
      have := (run_analyzeModbusPacket_eq_none_iff last length m).mp hnone
      omega
    obtain ⟨r, hr⟩ := Option.ne_none_iff_exists'.mp hsome
    refine ⟨r, hr, ?_⟩
    rw [← hr]
    exact (run_analyzeModbusPacket_congr last hfits fun i hi ↦ (hm i hi).symm).symm

/-- A response of nine bytes that announces eight bytes of registers. -/
def shortResponse : List UInt8 := [3, 8, 0, 1, 0, 2, 0, 3, 0]

theorem analyzeModbusPacket_shortResponse_leaks :
    ¬∀ m' : Memory, (∀ i : ℕ, (i : ℤ) < 9 → m' i = buffer shortResponse (fun _ ↦ 0) i) →
      ∃ r, (analyzeModbusPacket 0 9).run (buffer shortResponse fun _ ↦ 0) = some r ∧
        (analyzeModbusPacket 0 9).run m' = some r := by
  intro h
  obtain ⟨r, hr, hr'⟩ := h (buffer shortResponse fun _ ↦ 1) fun i hi ↦ by
    rw [buffer_of_lt (by simpa [shortResponse] using hi),
      buffer_of_lt (by simpa [shortResponse] using hi)]
  have hne : (analyzeModbusPacket 0 9).run (buffer shortResponse fun _ ↦ 0) ≠
      (analyzeModbusPacket 0 9).run (buffer shortResponse fun _ ↦ 1) := by decide +kernel
  exact hne (hr.trans hr'.symm)

end Modbus

end OtTcpListener
