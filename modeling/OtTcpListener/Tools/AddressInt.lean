import OtTcpListener.Foundations.Throwing
import OtTcpListener.Platform.StdString

/-!
# Addresses as integers

`get_IP_from_int` writes the four octets of an integer as a dotted quad, and `get_int_from_IP` is
there to read one back. Its loop looks for a dot, takes the number in front of it, and removes both.
The number behind the last dot has no dot behind it, so the loop never sees it. The first number is
shifted by 24 bits as an `int`, and from 128 on that overflows.

The round trip therefore gives an integer back, without overflow, exactly if its last octet is 0
and its first one below 128 (`get_int_from_IP_get_IP_from_int_iff`).
-/

namespace OtTcpListener

open Bytes Throwing

namespace NetworkTools

/-! ## The code -/

/-- `NetworkTools::get_IP_from_int`. The state of the loop is `IP` and `a`. -/
def get_IP_from_int (a : UInt64) : Bytes :=
  ((List.range 4).foldl (fun (s : Bytes × UInt64) i ↦
      let IP := to_string (s.2 &&& 0xff).toNat ++ s.1
      (if i < 3 then ascii "." ++ IP else IP, s.2 >>> 8))
    ([], a)).1

/-- What can end the loop of `get_int_from_IP` other than that no dot is left: an exception, and a
shift that C++ leaves undefined. -/
inductive Fault where
  | thrown (e : StdException)
  | undefinedShift
  deriving DecidableEq

/-- The value of an `int` shifted by `bits` bits, reduced to an `int`. -/
def shifted (token : ℤ) (bits : ℕ) : ℤ := Int.bmod (token * 2 ^ bits) (2 ^ 32)

/-- The loop of `NetworkTools::get_int_from_IP`, and whether a shift has overflowed. The `int` is
extended with its sign when it is added. -/
def intLoop (IP : Bytes) (val : UInt64) (count : ℤ) (overflow : Bool) :
    Except Fault (UInt64 × Bool) :=
  match _h : find IP 46 0 with
  | none => .ok (val, overflow)
  | some pos =>
    match substr IP 0 pos >>= stoi with
    | .error e => .error (.thrown e)
    | .ok token =>
      if token < 0 ∨ count < 0 then
        .error .undefinedShift
      else
        let bits := (8 * count).toNat
        intLoop (erase IP 0 (pos + 1)) (val + .ofInt (shifted token bits)) (count - 1)
          (overflow || shifted token bits ≠ token * 2 ^ bits)
termination_by IP.length
decreasing_by
  obtain ⟨-, hlt⟩ := lt_length_of_find _h
  rw [erase, List.length_append, List.length_take, List.length_drop]
  omega

/-- `NetworkTools::get_int_from_IP`. -/
def get_int_from_IP (IP : Bytes) : Except Fault (UInt64 × Bool) := intLoop IP 0 3 false

/-! ## Writing -/

/-- The octets are written from the highest to the lowest. -/
theorem get_IP_from_int_eq (a : UInt64) :
    get_IP_from_int a = to_string (a.toNat / 2 ^ 24 % 256) ++ 46 ::
      (to_string (a.toNat / 2 ^ 16 % 256) ++ 46 ::
        (to_string (a.toNat / 2 ^ 8 % 256) ++ 46 :: to_string (a.toNat % 256))) := by
  have hlow : ∀ b : UInt64, (b &&& 0xff).toNat = b.toNat % 256 := fun b ↦ by
    rw [UInt64.toNat_and]
    exact Nat.and_two_pow_sub_one_eq_mod b.toNat 8
  have hshift : ∀ b : UInt64, (b >>> 8).toNat = b.toNat / 256 := fun b ↦ by
    rw [UInt64.toNat_shiftRight]
    exact Nat.shiftRight_eq_div_pow b.toNat 8
  have hdot : ascii "." = [46] := by decide
  have hrange : List.range 4 = [0, 1, 2, 3] := rfl
  simp only [get_IP_from_int, hrange, List.foldl_cons, List.foldl_nil, hlow, hshift, hdot,
    Nat.div_div_eq_div_mul]
  norm_num

/-! ## Reading -/

/-- One round, at an octet with a dot behind it. -/
theorem intLoop_to_string {n : ℕ} (hn : n < 256) (rest : Bytes) (val : UInt64) {count : ℤ}
    (hcount : 0 ≤ count) (overflow : Bool) :
    intLoop (to_string n ++ 46 :: rest) val count overflow =
      intLoop rest (val + .ofInt (shifted n (8 * count).toNat)) (count - 1)
        (overflow || shifted n (8 * count).toNat ≠ n * 2 ^ (8 * count).toNat) := by
  have hdot : 46 ∉ to_string n := notMem_to_string (by decide) n
  have hfind := find_append_cons hdot rest
  have hsubstr : substr (to_string n ++ 46 :: rest) 0 (to_string n).length =
      .ok (to_string n) := by
    rw [substr, if_neg (Nat.not_lt_zero _), List.drop_zero, List.take_left]
  have herase : erase (to_string n ++ 46 :: rest) 0 ((to_string n).length + 1) = rest := by
    rw [erase, List.take_zero, List.nil_append, Nat.zero_add, ← List.drop_drop, List.drop_left,
      List.drop_one, List.tail_cons]
  rw [intLoop]
  split
  · rename_i hnone
    cases hfind.symm.trans hnone
  · rename_i pos hpos
    obtain rfl := Option.some.inj (hfind.symm.trans hpos)
    rw [hsubstr, ok_bind, stoi_to_string (by omega), herase]
    exact if_neg (by omega)

/-- The end, at an octet without a dot. -/
theorem intLoop_last (n : ℕ) (val : UInt64) (count : ℤ) (overflow : Bool) :
    intLoop (to_string n) val count overflow = .ok (val, overflow) := by
  have hfind : find (to_string n) 46 0 = none :=
    find_eq_none_iff.mpr (notMem_to_string (by decide) n)
  rw [intLoop]
  split
  · rfl
  · rename_i pos hpos
    cases hfind.symm.trans hpos

/-- A shift does not overflow exactly if its exact value is an `int`. -/
theorem shifted_eq_iff (n bits : ℕ) : shifted n bits = n * 2 ^ bits ↔ n * 2 ^ bits < 2 ^ 31 := by
  have hcast : (n : ℤ) * 2 ^ bits = (n * 2 ^ bits : ℕ) := by push_cast; rfl
  rw [shifted, hcast]
  generalize n * 2 ^ bits = k
  simp only [Int.bmod]
  split <;> omega

theorem ofInt_natCast (k : ℕ) : UInt64.ofInt k = UInt64.ofNat k := by
  rw [UInt64.ofInt, ← UInt64.toNat_inj, UInt64.toNat_ofNat', UInt64.toNat_ofNat']
  omega

/-- What the round trip gives: the two middle octets in their places, the first one as an `int`
extended with its sign, and whether that `int` has overflowed. -/
theorem get_int_from_IP_get_IP_from_int (a : UInt64) :
    get_int_from_IP (get_IP_from_int a) =
      .ok (.ofInt (shifted (a.toNat / 2 ^ 24 % 256 : ℕ) 24) +
          .ofNat (a.toNat / 2 ^ 16 % 256 * 2 ^ 16 + a.toNat / 2 ^ 8 % 256 * 2 ^ 8),
        decide (128 ≤ a.toNat / 2 ^ 24 % 256)) := by
  have hoctet : ∀ n : ℕ, n % 256 < 256 := fun n ↦ Nat.mod_lt n (by decide)
  have hfirst := shifted_eq_iff (a.toNat / 2 ^ 24 % 256) 24
  have hsecond := (shifted_eq_iff (a.toNat / 2 ^ 16 % 256) 16).mpr (by omega)
  have hthird := (shifted_eq_iff (a.toNat / 2 ^ 8 % 256) 8).mpr (by omega)
  have hflag : decide (shifted (a.toNat / 2 ^ 24 % 256 : ℕ) 24 ≠
      (a.toNat / 2 ^ 24 % 256 : ℕ) * 2 ^ 24) = decide (128 ≤ a.toNat / 2 ^ 24 % 256) := by
    rw [decide_eq_decide, ne_eq, hfirst]
    omega
  rw [get_IP_from_int_eq, get_int_from_IP, intLoop_to_string (hoctet _) _ _ (by decide),
    intLoop_to_string (hoctet _) _ _ (by decide), intLoop_to_string (hoctet _) _ _ (by decide),
    intLoop_last]
  change Except.ok (0 + UInt64.ofInt (shifted (a.toNat / 2 ^ 24 % 256 : ℕ) 24) +
      UInt64.ofInt (shifted (a.toNat / 2 ^ 16 % 256 : ℕ) 16) +
      UInt64.ofInt (shifted (a.toNat / 2 ^ 8 % 256 : ℕ) 8),
    false || decide (shifted (a.toNat / 2 ^ 24 % 256 : ℕ) 24 ≠
      (a.toNat / 2 ^ 24 % 256 : ℕ) * 2 ^ 24) ||
    decide (shifted (a.toNat / 2 ^ 16 % 256 : ℕ) 16 ≠
      (a.toNat / 2 ^ 16 % 256 : ℕ) * 2 ^ 16) ||
    decide (shifted (a.toNat / 2 ^ 8 % 256 : ℕ) 8 ≠ (a.toNat / 2 ^ 8 % 256 : ℕ) * 2 ^ 8)) = _
  rw [hflag, hsecond, hthird, Bool.false_or, decide_eq_false (not_not.mpr rfl),
    decide_eq_false (not_not.mpr rfl), Bool.or_false, Bool.or_false, UInt64.zero_add,
    UInt64.add_assoc, UInt64.ofNat_add, ← ofInt_natCast, ← ofInt_natCast]
  push_cast
  rfl

/-! ## The round trip -/

/-- **When a round trip is faithful.** An address integer comes back, and no shift overflows, if and
only if its last octet is 0 and its first octet is below 128. -/
theorem get_int_from_IP_get_IP_from_int_iff (a : UInt32) :
    get_int_from_IP (get_IP_from_int a.toUInt64) = .ok (a.toUInt64, false) ↔
      a.toNat % 256 = 0 ∧ a.toNat < 2 ^ 31 := by
  have ha := a.toNat_lt
  rw [get_int_from_IP_get_IP_from_int, UInt32.toNat_toUInt64, Except.ok.injEq, Prod.mk.injEq,
    decide_eq_false_iff_not, Nat.not_le]
  have hvalue : a.toNat / 2 ^ 24 % 256 < 128 →
      UInt64.ofInt (shifted (a.toNat / 2 ^ 24 % 256 : ℕ) 24) +
          .ofNat (a.toNat / 2 ^ 16 % 256 * 2 ^ 16 + a.toNat / 2 ^ 8 % 256 * 2 ^ 8) =
        .ofNat (a.toNat / 256 * 256) := by
    intro hlow
    have hsplit : a.toNat / 256 * 256 = a.toNat / 2 ^ 24 % 256 * 2 ^ 24 +
        (a.toNat / 2 ^ 16 % 256 * 2 ^ 16 + a.toNat / 2 ^ 8 % 256 * 2 ^ 8) := by omega
    rw [(shifted_eq_iff _ 24).mpr (by omega), hsplit, UInt64.ofNat_add (_ * 2 ^ 24),
      ← ofInt_natCast (_ * 2 ^ 24)]
    push_cast
    rfl
  have hsame : UInt64.ofNat (a.toNat / 256 * 256) = a.toUInt64 ↔ a.toNat % 256 = 0 := by
    rw [UInt64.ofNat_eq_iff_mod_eq_toNat, UInt32.toNat_toUInt64]
    omega
  constructor
  · rintro ⟨heq, hlow⟩
    rw [hvalue hlow, hsame] at heq
    exact ⟨heq, by omega⟩
  · rintro ⟨hlast, hlow⟩
    have hfirst : a.toNat / 2 ^ 24 % 256 < 128 := by omega
    exact ⟨(hvalue hfirst).trans (hsame.mpr hlast), hfirst⟩

/-- `0.0.0.1` is read back as 0, and `192.168.1.0` with an overflow and a sign. -/
theorem not_roundTrip_last_octet :
    get_int_from_IP (get_IP_from_int 1) = .ok (0, false) ∧
      get_int_from_IP (get_IP_from_int 0xc0a80100) = .ok (0xffffffffc0a80100, true) ∧
      ¬∀ a : UInt32, get_int_from_IP (get_IP_from_int a.toUInt64) = .ok (a.toUInt64, false) := by
  have hone : get_int_from_IP (get_IP_from_int 1) = .ok (0, false) := by
    rw [get_int_from_IP_get_IP_from_int]
    decide +kernel
  refine ⟨hone, ?_, fun h ↦ ?_⟩
  · rw [get_int_from_IP_get_IP_from_int]
    decide +kernel
  · have hwide : (1 : UInt32).toUInt64 = 1 := by decide
    have h1 := h 1
    rw [hwide, hone] at h1
    exact absurd h1 (by decide)

end NetworkTools

end OtTcpListener
