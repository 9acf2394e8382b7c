import OtTcpListener.Foundations.Buffer

/-!
# The host: C integers, memory and address texts

What the C and C++ sources take from a 64-bit little-endian Linux host: conversions between `int`,
`size_t` and `u_int`, byte-order conversion of 16-bit fields, blocks returned by `malloc`, and the
texts of `inet_ntoa` and `ether_ntoa`.

Memory behind a pointer is a function from byte offsets to bytes. A block of `n` bytes has `n` bytes
that the program wrote and, past them, whatever the heap holds there. `Heap` supplies the latter,
one filling per call of `malloc`, so that a read past the end of a block has a value, and one the
program does not control.
-/

namespace OtTcpListener

open Probe

/-- The bytes behind a pointer. -/
abbrev Memory := ℕ → UInt8

/-- A computation on the bytes behind a pointer. -/
abbrev Reader (α : Type) := Probe ℕ UInt8 α

/-- The bytes past the end of each block, in the order in which `malloc` returns the blocks. -/
abbrev Heap := ℕ → Memory

/-- The heap after `n` further calls of `malloc`. -/
def Heap.after (heap : Heap) (n : ℕ) : Heap := fun k ↦ heap (n + k)

/-! ## Integer conversions -/

/-- A positive `int`: what a caller passes as the length of a block it has filled. -/
abbrev PosInt := {n : ℤ // 0 < n ∧ n < 2 ^ 31}

/-- Conversion of an `int` operand to `size_t`. -/
def sizeT (n : ℤ) : ℕ := (n % 2 ^ 64).toNat

/-- Subtraction in `size_t`. -/
def sizeTSub (a b : ℕ) : ℕ := (a + 2 ^ 64 - b) % 2 ^ 64

/-- Conversion of an unsigned value to `int`. -/
def toInt (n : ℕ) : ℤ :=
  if n % 2 ^ 32 < 2 ^ 31 then n % 2 ^ 32 else n % 2 ^ 32 - 2 ^ 32

theorem toInt_of_lt {n : ℕ} (h : n < 2 ^ 31) : toInt n = n := by
  unfold toInt
  split <;> omega

/-- Wrap-around in `size_t` followed by narrowing is the integer difference, when that is an
`int`. -/
theorem toInt_sizeTSub {a : ℤ} {b : ℕ} (hb : b ≤ 2 ^ 64) (hlo : -2 ^ 31 ≤ a - b)
    (hhi : a - b < 2 ^ 31) : toInt (sizeTSub (sizeT a) b) = a - b := by
  unfold toInt sizeTSub sizeT
  split <;> omega

/-! ## Sixteen-bit fields -/

/-- The value of two bytes in network order. -/
def be16 (hi lo : UInt8) : UInt16 := .ofNat (hi.toNat * 256 + lo.toNat)

/-- A `u_short` load: the first byte is the low one. -/
def loadUShort (i : ℕ) : Reader UInt16 := do
  let lo ← cell i
  let hi ← cell (i + 1)
  return .ofNat (lo.toNat + hi.toNat * 256)

/-- `htons` and `ntohs`: exchange the two bytes. -/
def htons (x : UInt16) : UInt16 := .ofNat (x.toNat % 256 * 256 + x.toNat / 256)

@[simp] theorem toNat_be16 (hi lo : UInt8) : (be16 hi lo).toNat = hi.toNat * 256 + lo.toNat := by
  have hhi := hi.toNat_lt
  have hlo := lo.toNat_lt
  rw [be16, UInt16.toNat_ofNat_of_lt' (by rw [UInt16.size]; omega)]

/-- Loading a field and exchanging its bytes reads it in network order. -/
theorem htons_run_loadUShort (i : ℕ) (m : Memory) :
    htons ((loadUShort i).run m) = be16 (m i) (m (i + 1)) := by
  have hlo := (m i).toNat_lt
  have hhi := (m (i + 1)).toNat_lt
  rw [loadUShort, run_bind, run_bind, run_pure, run_cell, run_cell, htons,
    UInt16.toNat_ofNat_of_lt' (by rw [UInt16.size]; omega), be16]
  exact congrArg UInt16.ofNat (by omega)

@[simp] theorem readsIn_loadUShort {P : ℕ → Prop} (i : ℕ) (m : Memory) :
    ReadsIn P (loadUShort i) m ↔ P i ∧ P (i + 1) := by
  simp [loadUShort]

/-- The two bytes of a field in network order. -/
def be16Bytes (x : UInt16) : List UInt8 := [.ofNat (x.toNat / 256), .ofNat (x.toNat % 256)]

theorem be16_be16Bytes (x : UInt16) :
    be16 (.ofNat (x.toNat / 256)) (.ofNat (x.toNat % 256)) = x := by
  have hx := x.toNat_lt
  rw [be16, UInt8.toNat_ofNat_of_lt' (by rw [UInt8.size]; omega),
    UInt8.toNat_ofNat_of_lt' (by rw [UInt8.size]; omega), ← UInt16.toNat_inj,
    UInt16.toNat_ofNat_of_lt' (by rw [UInt16.size]; omega)]
  omega

theorem length_flatMap_be16Bytes (values : List UInt16) :
    (values.flatMap be16Bytes).length = 2 * values.length := by
  induction values with
  | nil => rfl
  | cons v values ih =>
    rw [List.flatMap_cons, List.length_append, ih, List.length_cons, be16Bytes, List.length_cons,
      List.length_singleton]
    omega

/-- The fields of a buffer filled with fields. -/
theorem be16_buffer_flatMap {values : List UInt16} {i : ℕ} (hi : i < values.length)
    (beyond : Memory) :
    be16 (buffer (values.flatMap be16Bytes) beyond (i * 2))
      (buffer (values.flatMap be16Bytes) beyond (i * 2 + 1)) = values[i] := by
  induction values generalizing i beyond with
  | nil => exact absurd hi (Nat.not_lt_zero i)
  | cons v values ih =>
    cases i with
    | zero => exact be16_be16Bytes v
    | succ i =>
      have hidx : (i + 1) * 2 = i * 2 + 1 + 1 := Nat.succ_mul i 2
      rw [List.flatMap_cons, be16Bytes, List.cons_append, List.cons_append, List.nil_append, hidx,
        buffer_cons_succ, buffer_cons_succ, buffer_cons_succ, buffer_cons_succ,
        ih (Nat.lt_of_succ_lt_succ hi), List.getElem_cons_succ]

/-! ## Addresses -/

/-- `struct in_addr`, byte by byte in memory order. -/
structure InAddr where
  (b0 b1 b2 b3 : UInt8)
  deriving DecidableEq, Repr

namespace InAddr

/-- The four bytes in memory order. -/
def bytes (a : InAddr) : List UInt8 := [a.b0, a.b1, a.b2, a.b3]

/-- A `struct in_addr` load. -/
def load (i : ℕ) : Reader InAddr :=
  return ⟨← cell i, ← cell (i + 1), ← cell (i + 2), ← cell (i + 3)⟩

@[simp] theorem run_load (i : ℕ) (m : Memory) :
    (load i).run m = ⟨m i, m (i + 1), m (i + 2), m (i + 3)⟩ := by
  simp [load]

@[simp] theorem readsIn_load {P : ℕ → Prop} (i : ℕ) (m : Memory) :
    ReadsIn P (load i) m ↔ P i ∧ P (i + 1) ∧ P (i + 2) ∧ P (i + 3) := by
  simp [load]

end InAddr

/-- `struct ether_addr`. -/
structure EtherAddr where
  (o0 o1 o2 o3 o4 o5 : UInt8)
  deriving DecidableEq, Repr

namespace EtherAddr

/-- The six octets in order. -/
def bytes (a : EtherAddr) : List UInt8 := [a.o0, a.o1, a.o2, a.o3, a.o4, a.o5]

/-- A `struct ether_addr` load. -/
def load (i : ℕ) : Reader EtherAddr :=
  return ⟨← cell i, ← cell (i + 1), ← cell (i + 2), ← cell (i + 3), ← cell (i + 4), ← cell (i + 5)⟩

@[simp] theorem run_load (i : ℕ) (m : Memory) :
    (load i).run m = ⟨m i, m (i + 1), m (i + 2), m (i + 3), m (i + 4), m (i + 5)⟩ := by
  simp [load]

@[simp] theorem readsIn_load {P : ℕ → Prop} (i : ℕ) (m : Memory) :
    ReadsIn P (load i) m ↔
      P i ∧ P (i + 1) ∧ P (i + 2) ∧ P (i + 3) ∧ P (i + 4) ∧ P (i + 5) := by
  simp [load]

end EtherAddr

/-- `inet_ntoa`: four decimal numbers separated by dots. -/
def inet_ntoa (a : InAddr) : String :=
  ".".intercalate (a.bytes.map fun b ↦ b.toNat.repr)

/-- `ether_ntoa`: six hexadecimal numbers, without leading zeros, separated by colons. -/
def ether_ntoa (a : EtherAddr) : String :=
  ":".intercalate (a.bytes.map fun b ↦ String.ofList (Nat.toDigits 16 b.toNat))

end OtTcpListener
