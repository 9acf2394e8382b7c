import OtTcpListener.Platform.StdString

/-!
# Internet addresses as integers and as texts

`s_addr` is the integer that the four bytes of an address make in the memory of a little-endian
host, and `ntohl` and `htonl` reverse its bytes. The reversed integer is the value of the address,
in which the first byte counts most and a network is a range.

`inet_pton` reads the texts that `inet_ntoa` writes, and no others.
-/

namespace OtTcpListener

open Bytes

/-! ## Byte order -/

/-- `ntohl` and `htonl`: reverse the four bytes. -/
def ntohl (x : UInt32) : UInt32 :=
  .ofNat (x.toNat % 2 ^ 8 * 2 ^ 24 + x.toNat / 2 ^ 8 % 2 ^ 8 * 2 ^ 16 +
    x.toNat / 2 ^ 16 % 2 ^ 8 * 2 ^ 8 + x.toNat / 2 ^ 24)

/-- The number with four given bytes, the lowest first. -/
def ofBytes (a b c d : ℕ) : ℕ := a + 2 ^ 8 * (b + 2 ^ 8 * (c + 2 ^ 8 * d))

theorem exists_ofBytes {n : ℕ} (hn : n < 2 ^ 32) :
    ∃ a < 2 ^ 8, ∃ b < 2 ^ 8, ∃ c < 2 ^ 8, ∃ d < 2 ^ 8, n = ofBytes a b c d := by
  refine ⟨n % 2 ^ 8, by omega, n / 2 ^ 8 % 2 ^ 8, by omega, n / 2 ^ 16 % 2 ^ 8, by omega,
    n / 2 ^ 24, by omega, ?_⟩
  unfold ofBytes
  omega

section

variable {a b c d : ℕ} (ha : a < 2 ^ 8) (hb : b < 2 ^ 8) (hc : c < 2 ^ 8) (hd : d < 2 ^ 8)
include ha hb hc hd

theorem ofBytes_lt : ofBytes a b c d < 2 ^ 32 := by
  unfold ofBytes
  omega

theorem toNat_ntohl {x : UInt32} (hx : x.toNat = ofBytes a b c d) :
    (ntohl x).toNat = ofBytes d c b a := by
  unfold ofBytes at hx ⊢
  have hlow : x.toNat % 2 ^ 8 = a := by omega
  have hmid : x.toNat / 2 ^ 8 % 2 ^ 8 = b := by omega
  have hmid' : x.toNat / 2 ^ 16 % 2 ^ 8 = c := by omega
  have hhigh : x.toNat / 2 ^ 24 = d := by omega
  rw [ntohl, hlow, hmid, hmid', hhigh, UInt32.toNat_ofNat_of_lt' (by rw [UInt32.size]; omega)]
  omega

end

/-- Masking is done byte by byte. -/
theorem and_ofBytes {a b c a' b' c' : ℕ} (ha : a < 2 ^ 8) (hb : b < 2 ^ 8) (hc : c < 2 ^ 8)
    (ha' : a' < 2 ^ 8) (hb' : b' < 2 ^ 8) (hc' : c' < 2 ^ 8) (d d' : ℕ) :
    ofBytes a b c d &&& ofBytes a' b' c' d' =
      ofBytes (a &&& a') (b &&& b') (c &&& c') (d &&& d') := by
  have hstep {a a' r r' : ℕ} (ha : a < 2 ^ 8) (ha' : a' < 2 ^ 8) :
      (a + 2 ^ 8 * r) &&& (a' + 2 ^ 8 * r') = (a &&& a') + 2 ^ 8 * (r &&& r') := by
    rw [← Nat.mod_add_div ((a + 2 ^ 8 * r) &&& (a' + 2 ^ 8 * r')) (2 ^ 8), Nat.and_mod_two_pow,
      Nat.and_div_two_pow, Nat.add_mul_mod_self_left, Nat.add_mul_mod_self_left,
      Nat.mod_eq_of_lt ha, Nat.mod_eq_of_lt ha', Nat.add_mul_div_left _ _ (by decide),
      Nat.add_mul_div_left _ _ (by decide), Nat.div_eq_of_lt ha, Nat.div_eq_of_lt ha',
      Nat.zero_add, Nat.zero_add]
  unfold ofBytes
  rw [hstep ha ha', hstep hb hb', hstep hc hc']

@[simp] theorem ntohl_ntohl (x : UInt32) : ntohl (ntohl x) = x := by
  obtain ⟨a, ha, b, hb, c, hc, d, hd, hx⟩ := exists_ofBytes x.toNat_lt
  rw [← UInt32.toNat_inj, toNat_ntohl hd hc hb ha (toNat_ntohl ha hb hc hd hx), hx]

/-- Reversing the bytes commutes with masking. -/
theorem ntohl_and (x y : UInt32) : ntohl (x &&& y) = ntohl x &&& ntohl y := by
  obtain ⟨a, ha, b, hb, c, hc, d, hd, hx⟩ := exists_ofBytes x.toNat_lt
  obtain ⟨a', ha', b', hb', c', hc', d', hd', hy⟩ := exists_ofBytes y.toNat_lt
  have hand : (x &&& y).toNat = ofBytes (a &&& a') (b &&& b') (c &&& c') (d &&& d') := by
    rw [UInt32.toNat_and, hx, hy, and_ofBytes ha hb hc ha' hb' hc']
  rw [← UInt32.toNat_inj, UInt32.toNat_and, toNat_ntohl ha hb hc hd hx,
    toNat_ntohl ha' hb' hc' hd' hy, and_ofBytes hd hc hb hd' hc' hb',
    toNat_ntohl (Nat.and_lt_two_pow a ha') (Nat.and_lt_two_pow b hb')
      (Nat.and_lt_two_pow c hc') (Nat.and_lt_two_pow d hd') hand]

namespace InAddr

/-- The member `s_addr`: the first byte is the low one. -/
def s_addr (a : InAddr) : UInt32 :=
  .ofNat (ofBytes a.b0.toNat a.b1.toNat a.b2.toNat a.b3.toNat)

/-- The address whose member `s_addr` has been set. -/
def of_s_addr (x : UInt32) : InAddr :=
  ⟨.ofNat (x.toNat % 2 ^ 8), .ofNat (x.toNat / 2 ^ 8 % 2 ^ 8), .ofNat (x.toNat / 2 ^ 16 % 2 ^ 8),
    .ofNat (x.toNat / 2 ^ 24)⟩

/-- The address as a number, in which the first byte counts most. -/
def value (a : InAddr) : ℕ := ofBytes a.b3.toNat a.b2.toNat a.b1.toNat a.b0.toNat

theorem toNat_s_addr (a : InAddr) :
    a.s_addr.toNat = ofBytes a.b0.toNat a.b1.toNat a.b2.toNat a.b3.toNat :=
  UInt32.toNat_ofNat_of_lt' (ofBytes_lt a.b0.toNat_lt a.b1.toNat_lt a.b2.toNat_lt a.b3.toNat_lt)

theorem value_lt (a : InAddr) : a.value < 2 ^ 32 :=
  ofBytes_lt a.b3.toNat_lt a.b2.toNat_lt a.b1.toNat_lt a.b0.toNat_lt

/-- Network byte order is the order of the bytes in memory. -/
theorem toNat_ntohl_s_addr (a : InAddr) : (ntohl a.s_addr).toNat = a.value :=
  toNat_ntohl a.b0.toNat_lt a.b1.toNat_lt a.b2.toNat_lt a.b3.toNat_lt a.toNat_s_addr

@[simp] theorem s_addr_of_s_addr (x : UInt32) : (of_s_addr x).s_addr = x := by
  have hx := x.toNat_lt
  have hbyte {n : ℕ} (hn : n < 2 ^ 8) : (UInt8.ofNat n).toNat = n := UInt8.toNat_ofNat_of_lt' hn
  rw [← UInt32.toNat_inj, toNat_s_addr, of_s_addr, hbyte (by omega), hbyte (by omega),
    hbyte (by omega), hbyte (by omega)]
  unfold ofBytes
  omega

theorem value_injective : Function.Injective value := by
  intro a b h
  have h0 := a.b0.toNat_lt
  have h1 := a.b1.toNat_lt
  have h2 := a.b2.toNat_lt
  have h3 := a.b3.toNat_lt
  have h0' := b.b0.toNat_lt
  have h1' := b.b1.toNat_lt
  have h2' := b.b2.toNat_lt
  have h3' := b.b3.toNat_lt
  unfold value ofBytes at h
  obtain ⟨a0, a1, a2, a3⟩ := a
  obtain ⟨b0, b1, b2, b3⟩ := b
  rw [mk.injEq, ← UInt8.toNat_inj, ← UInt8.toNat_inj, ← UInt8.toNat_inj, ← UInt8.toNat_inj]
  dsimp only at *
  omega

/-- Setting `s_addr` from a value. -/
theorem value_of_s_addr_ntohl (x : UInt32) : (of_s_addr (ntohl x)).value = x.toNat := by
  rw [← toNat_ntohl_s_addr, s_addr_of_s_addr, ntohl_ntohl]

end InAddr

/-! ## Texts -/

/-- One number of a dotted quad: digits without a leading zero, of value at most 255. -/
def octet (part : Bytes) : Option UInt8 :=
  if part = to_string (decimal part) ∧ decimal part < 256 then some (.ofNat (decimal part))
  else none

/-- `inet_pton` with `AF_INET`. `none`: the text is no dotted quad, and nothing is stored. -/
def inet_pton (src : Bytes) : Option InAddr :=
  match src.splitOn 46 with
  | [p0, p1, p2, p3] => return ⟨← octet p0, ← octet p1, ← octet p2, ← octet p3⟩
  | _ => none

theorem octet_to_string (b : UInt8) : octet (to_string b.toNat) = some b := by
  rw [octet, decimal_to_string, if_pos ⟨rfl, b.toNat_lt⟩, UInt8.ofNat_toNat]

theorem toStdString_of_forall_le {s : QString} (h : ∀ c ∈ s.toList, c.toNat ≤ 0x7f) :
    toStdString s = ascii s := by
  rw [toStdString, ascii, List.flatMap_congr fun c hc ↦ utf8EncodeChar_of_le (h c hc),
    ← List.map_eq_flatMap]

theorem toStdString_append (s t : QString) :
    toStdString (s ++ t) = toStdString s ++ toStdString t := by
  rw [toStdString, String.toList_append, List.flatMap_append]
  rfl

theorem toStdString_repr (n : ℕ) : toStdString n.repr = to_string n := by
  refine toStdString_of_forall_le fun c hc ↦ ?_
  rw [Nat.repr_eq_ofList_toDigits, String.toList_ofList] at hc
  have hdigit := toNat_of_isDigit (Nat.isDigit_of_mem_toDigits (by decide) (by decide) hc)
  omega

/-- The bytes of a dotted quad. -/
theorem toStdString_inet_ntoa (a : InAddr) :
    toStdString (inet_ntoa a) = [46].intercalate (a.bytes.map fun b ↦ to_string b.toNat) := by
  have hdot : toStdString "." = [46] := by decide
  have hquad : inet_ntoa a = a.b0.toNat.repr ++ "." ++ a.b1.toNat.repr ++ "." ++
      a.b2.toNat.repr ++ "." ++ a.b3.toNat.repr := by
    simp [inet_ntoa, InAddr.bytes, String.intercalate_cons_of_ne_nil, String.append_assoc]
  rw [hquad]
  simp [toStdString_append, toStdString_repr, hdot, InAddr.bytes]

/-- A dotted quad consists of digits and dots. -/
theorem eq_or_isdigit_of_mem_inet_ntoa {a : InAddr} {b : UInt8}
    (hb : b ∈ toStdString (inet_ntoa a)) : b = 46 ∨ isdigit b = true := by
  rw [toStdString_inet_ntoa] at hb
  simp only [InAddr.bytes, List.map_cons, List.map_nil, List.intercalate_cons_cons,
    List.intercalate_singleton, List.mem_append, List.mem_singleton] at hb
  have hdigit (n : ℕ) (hn : b ∈ to_string n) : b = 46 ∨ isdigit b = true :=
    .inr (isdigit_of_mem_to_string hn)
  rcases hb with (h | h) | (h | h) | (h | h) | h
  all_goals first | exact .inl h | exact hdigit _ h

/-- Passing a dotted quad as a C string loses nothing. -/
theorem c_str_inet_ntoa (a : InAddr) :
    c_str (toStdString (inet_ntoa a)) = toStdString (inet_ntoa a) := by
  refine List.takeWhile_eq_self_iff.mpr fun b hb ↦ decide_eq_true fun h0 ↦ ?_
  rw [h0] at hb
  exact absurd (eq_or_isdigit_of_mem_inet_ntoa hb) (by decide)

/-- The parts of a dotted quad. -/
theorem splitOn_inet_ntoa (a : InAddr) :
    (toStdString (inet_ntoa a)).splitOn 46 = a.bytes.map fun b ↦ to_string b.toNat := by
  have hdots : ∀ p ∈ a.bytes.map fun b ↦ to_string b.toNat, 46 ∉ p := by
    intro p hp
    obtain ⟨b, -, rfl⟩ := List.mem_map.mp hp
    exact notMem_to_string (by decide) _
  rw [toStdString_inet_ntoa, List.splitOn_intercalate 46 hdots (List.cons_ne_nil _ _)]

/-- With the final NUL a dotted quad fits in `INET_ADDRSTRLEN` bytes. -/
theorem length_inet_ntoa_lt (a : InAddr) : (toStdString (inet_ntoa a)).length < 16 := by
  have hthree : ∀ b : UInt8, (to_string b.toNat).length ≤ 3 := forall_byte (by decide +kernel)
  have h0 := hthree a.b0
  have h1 := hthree a.b1
  have h2 := hthree a.b2
  have h3 := hthree a.b3
  rw [toStdString_inet_ntoa]
  simp only [InAddr.bytes, List.map_cons, List.map_nil, List.intercalate_cons_cons,
    List.intercalate_singleton, List.length_append, List.length_singleton]
  omega

/-- `inet_pton` reads back what `inet_ntoa` writes. -/
theorem inet_pton_inet_ntoa (a : InAddr) :
    inet_pton (c_str (toStdString (inet_ntoa a))) = some a := by
  rw [c_str_inet_ntoa, inet_pton, splitOn_inet_ntoa]
  simp [InAddr.bytes, octet_to_string]

theorem toStdString_inet_ntoa_injective :
    Function.Injective fun a ↦ toStdString (inet_ntoa a) := by
  intro a b h
  have ha := inet_pton_inet_ntoa a
  dsimp only at h
  rw [h, inet_pton_inet_ntoa, Option.some.injEq] at ha
  exact ha.symm

theorem inet_ntoa_injective : Function.Injective inet_ntoa := fun _ _ h ↦
  toStdString_inet_ntoa_injective (congrArg toStdString h)

theorem notMem_slash_inet_ntoa (a : InAddr) : '/' ∉ (inet_ntoa a).toList := fun h ↦ by
  have hmem : (47 : UInt8) ∈ toStdString (inet_ntoa a) :=
    List.mem_flatMap.mpr ⟨'/', h, by decide⟩
  exact absurd (eq_or_isdigit_of_mem_inet_ntoa hmem) (by decide)

end OtTcpListener
