import OtTcpListener.Platform.StdString

/-!
# `std::stoul`

Unsigned numbers in a base, as `std::stoul` reads them: white space, a sign, in base 16 a prefix,
digits, and then anything. Nothing about it is strict, so a number may be written in many ways;
`toBase` is the shortest, and `stoul_toBase` reads it back whatever follows, as long as that goes on
neither with a digit nor with the letter of a prefix.
-/

namespace OtTcpListener

namespace Bytes

/-! ## Reading -/

/-- The value of a digit or of a letter in a base, if it has one there. -/
def digit (base : ℕ) (b : UInt8) : Option ℕ :=
  let value := if isdigit b then b.toNat - 48
    else if 97 ≤ b ∧ b ≤ 122 then b.toNat - 87
    else if 65 ≤ b ∧ b ≤ 90 then b.toNat - 55
    else base
  if value < base then some value else none

/-- The value of a row of digits in a base. -/
def numeral (base : ℕ) (digits : List ℕ) : ℕ := digits.foldl (fun n v ↦ base * n + v) 0

/-- `std::stoul`: white space, a sign, a prefix in base 16, digits, and whatever follows. A minus
sign negates in `unsigned long`. -/
def stoul (base : ℕ) (str : Bytes) : Except StdException ℕ :=
  let str := str.dropWhile isspace
  let negative := str.head? = some 45
  let str := if str.head? = some 45 ∨ str.head? = some 43 then str.tail else str
  let prefixed := base = 16 ∧ (str.take 2 = ascii "0x" ∨ str.take 2 = ascii "0X") ∧
    ((str.drop 2).head?.bind (digit base)).isSome
  let str := if prefixed then str.drop 2 else str
  let digits := (str.takeWhile fun b ↦ (digit base b).isSome).filterMap (digit base)
  let value := numeral base digits
  if digits = [] then .error .invalid_argument
  else if value < 2 ^ 64 then .ok (if negative then (2 ^ 64 - value) % 2 ^ 64 else value)
  else .error .out_of_range

/-- A digit is neither white space nor a sign, nor the letter of a prefix. -/
theorem not_isspace_of_digit {base : ℕ} (hbase : base ≤ 16) {b : UInt8}
    (h : (digit base b).isSome = true) :
    isspace b = false ∧ b ≠ 45 ∧ b ≠ 43 ∧ b ≠ 120 ∧ b ≠ 88 := by
  have hexcluded : ∀ b : UInt8, (isspace b = true ∨ b = 45 ∨ b = 43 ∨ b = 120 ∨ b = 88) →
      isdigit b = false ∧ (97 ≤ b ∧ b ≤ 122 → 16 ≤ b.toNat - 87) ∧
        (65 ≤ b ∧ b ≤ 90 → 16 ≤ b.toNat - 55) := forall_byte (by decide +kernel)
  by_contra hnot
  have hcase : isspace b = true ∨ b = 45 ∨ b = 43 ∨ b = 120 ∨ b = 88 := by
    by_contra hall
    simp only [not_or, Bool.not_eq_true] at hall
    exact hnot hall
  obtain ⟨hdigit, hlower, hupper⟩ := hexcluded b hcase
  rw [digit, hdigit, if_neg Bool.false_ne_true, Option.isSome_ite] at h
  split_ifs at h with hl hu
  · exact absurd h (Nat.not_lt.mpr (hbase.trans (hlower hl)))
  · exact absurd h (Nat.not_lt.mpr (hbase.trans (hupper hu)))
  · exact absurd h (Nat.lt_irrefl _)

/-- On a text that begins with digits. -/
theorem stoul_append {base : ℕ} (hbase : base ≤ 16) {digits rest : Bytes} (hne : digits ≠ [])
    (hdigits : ∀ b ∈ digits, (digit base b).isSome = true)
    (hrest : ∀ b, rest.head? = some b → digit base b = none ∧ b ≠ 120 ∧ b ≠ 88) :
    stoul base (digits ++ rest) =
      if numeral base (digits.filterMap (digit base)) < 2 ^ 64 then
        .ok (numeral base (digits.filterMap (digit base)))
      else .error .out_of_range := by
  obtain ⟨b, digits', rfl⟩ := List.exists_cons_of_ne_nil hne
  obtain ⟨hspace, hminus, hplus, hx, hX⟩ :=
    not_isspace_of_digit hbase (hdigits b List.mem_cons_self)
  have hdrop : (b :: digits' ++ rest).dropWhile isspace = b :: digits' ++ rest := by
    rw [List.cons_append, List.dropWhile_cons, hspace, if_neg Bool.false_ne_true]
  have hhead : (b :: digits' ++ rest).head? = some b := rfl
  have hsecond : ∀ c, (digits' ++ rest).head? = some c → c ≠ 120 ∧ c ≠ 88 := by
    intro c hc
    cases digits' with
    | nil => exact (hrest c hc).2
    | cons b' digits' =>
      obtain rfl := Option.some.inj hc
      exact (not_isspace_of_digit hbase
        (hdigits _ (List.mem_cons_of_mem b List.mem_cons_self))).2.2.2
  have hbegins : ¬(base = 16 ∧ ((b :: digits' ++ rest).take 2 = ascii "0x" ∨
      (b :: digits' ++ rest).take 2 = ascii "0X") ∧
        (((b :: digits' ++ rest).drop 2).head?.bind (digit base)).isSome = true) := by
    rintro ⟨-, htake, -⟩
    rw [List.cons_append, List.take_succ_cons] at htake
    cases hcons : digits' ++ rest with
    | nil =>
      rw [hcons] at htake
      exact absurd htake (by simp [ascii])
    | cons c tail =>
      obtain ⟨hcx, hcX⟩ := hsecond c (by rw [hcons, List.head?_cons])
      rw [hcons, List.take_succ_cons, List.take_zero] at htake
      rcases htake with htake | htake
      · exact hcx (List.cons.inj (List.cons.inj htake).2).1
      · exact hcX (List.cons.inj (List.cons.inj htake).2).1
  have htake : (b :: digits' ++ rest).takeWhile (fun b ↦ (digit base b).isSome) =
      b :: digits' := by
    rw [List.takeWhile_append_of_pos hdigits]
    cases rest with
    | nil => rw [List.takeWhile_nil, List.append_nil]
    | cons c rest =>
      rw [List.takeWhile_cons, (hrest c rfl).1, if_neg (by simp), List.append_nil]
  have hvalues : (b :: digits').filterMap (digit base) ≠ [] := by
    obtain ⟨v, hv⟩ := Option.isSome_iff_exists.mp (hdigits b List.mem_cons_self)
    rw [List.filterMap_cons_some hv]
    exact List.cons_ne_nil _ _
  simp only [stoul, hdrop, hhead, Option.some.injEq, hminus, hplus, or_self, if_false, hbegins,
    htake, hvalues]

theorem stoul_to_string {n : ℕ} (h : n < 2 ^ 64) : stoul 10 (to_string n) = .ok n := by
  have hvalue : ∀ b : UInt8, isdigit b = true → digit 10 b = some (b.toNat - 48) :=
    forall_byte (by decide +kernel)
  have hsome : ∀ b ∈ to_string n, digit 10 b = some (b.toNat - 48) := fun b hb ↦
    hvalue b (isdigit_of_mem_to_string hb)
  have hdecimal : numeral 10 ((to_string n).filterMap (digit 10)) = n := by
    have hmap : (to_string n).filterMap (digit 10) = (to_string n).map fun b ↦ b.toNat - 48 := by
      rw [List.filterMap_congr hsome, ← List.filterMap_eq_map]
      rfl
    rw [hmap, numeral, List.foldl_map]
    exact decimal_to_string n
  have hrest : ∀ b, ([] : Bytes).head? = some b → digit 10 b = none ∧ b ≠ 120 ∧ b ≠ 88 := nofun
  have hall := stoul_append (by decide) (to_string_ne_nil n)
    (fun b hb ↦ by rw [hsome b hb, Option.isSome_some]) hrest
  rwa [List.append_nil, hdecimal, if_pos h] at hall

/-! ## Writing -/

/-- A number in a base of at most 16, the highest digit first. -/
def toBase (base n : ℕ) : Bytes :=
  if n = 0 then [48]
  else (Nat.digits base n).reverse.map fun v ↦ .ofNat (if v < 10 then 48 + v else 87 + v)

theorem digit_ofNat {base v : ℕ} (hbase : base ≤ 16) (hv : v < base) :
    digit base (.ofNat (if v < 10 then 48 + v else 87 + v)) = some v := by
  have hall : ∀ base : Fin 17, ∀ v : Fin 16, v.val < base.val →
      digit base (.ofNat (if v.val < 10 then 48 + v.val else 87 + v.val)) = some v.val := by
    decide +kernel
  exact hall ⟨base, Nat.lt_succ_of_le hbase⟩ ⟨v, hv.trans_le hbase⟩ hv

theorem numeral_reverse (base : ℕ) (values : List ℕ) :
    numeral base values.reverse = Nat.ofDigits base values := by
  induction values with
  | nil => rfl
  | cons v values ih =>
    rw [List.reverse_cons, numeral, List.foldl_append, ← numeral, ih, Nat.ofDigits_cons,
      List.foldl_cons, List.foldl_nil]
    exact Nat.add_comm _ _

theorem toBase_ne_nil (base n : ℕ) : toBase base n ≠ [] := by
  rw [toBase]
  split
  · exact List.cons_ne_nil _ _
  · rename_i hn
    rw [ne_eq, List.map_eq_nil_iff, List.reverse_eq_nil_iff]
    exact Nat.digits_ne_nil_iff_ne_zero.mpr hn

/-- The digits of a number, and their value. -/
theorem digit_toBase {base : ℕ} (hlo : 2 ≤ base) (hbase : base ≤ 16) (n : ℕ) :
    (∀ b ∈ toBase base n, (digit base b).isSome = true) ∧
      numeral base ((toBase base n).filterMap (digit base)) = n := by
  by_cases hn : n = 0
  · rw [toBase, if_pos hn, hn]
    have hzero := digit_ofNat (v := 0) hbase (by omega)
    change digit base 48 = some 0 at hzero
    refine ⟨fun b hb ↦ ?_, ?_⟩
    · rw [List.mem_singleton.mp hb, hzero, Option.isSome_some]
    · rw [List.filterMap_cons_some hzero]
      exact Nat.mul_zero base
  · have hdigit : ∀ v ∈ (Nat.digits base n).reverse,
        digit base (.ofNat (if v < 10 then 48 + v else 87 + v)) = some v := fun v hv ↦
      digit_ofNat hbase (Nat.digits_lt_base hlo (List.mem_reverse.mp hv))
    rw [toBase, if_neg hn]
    constructor
    · intro b hb
      obtain ⟨v, hv, rfl⟩ := List.mem_map.mp hb
      rw [hdigit v hv, Option.isSome_some]
    · have hall : (Nat.digits base n).reverse.filterMap (digit base ∘ fun v ↦
          .ofNat (if v < 10 then 48 + v else 87 + v)) =
            (Nat.digits base n).reverse.filterMap some :=
        List.filterMap_congr hdigit
      rw [List.filterMap_map, hall, List.filterMap_some, numeral_reverse, Nat.ofDigits_digits]

theorem stoul_toBase {base : ℕ} (hlo : 2 ≤ base) (hbase : base ≤ 16) {n : ℕ} (hn : n < 2 ^ 64)
    {rest : Bytes} (hrest : ∀ b, rest.head? = some b → digit base b = none ∧ b ≠ 120 ∧ b ≠ 88) :
    stoul base (toBase base n ++ rest) = .ok n := by
  obtain ⟨hdigits, hvalue⟩ := digit_toBase hlo hbase n
  rw [stoul_append hbase (toBase_ne_nil base n) hdigits hrest, hvalue, if_pos hn]

end Bytes

end OtTcpListener
