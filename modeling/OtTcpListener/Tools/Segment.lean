import OtTcpListener.Platform.Inet

/-!
# The network segment

Two places work out which network the interface is in. `OtListener::init` masks the address of the
interface with its netmask, through `geNetSegment`, and publishes the result followed by `/24`. The
constructor of `Sniffer` masks the same address with 255.255.255.0, whatever the netmask, and lists
the 256 addresses from the masked one on.

Both mean a network of 256 addresses. They mean the same one, and the one the interface is in,
exactly if the bits of the address between the end of the netmask and bit 24 are all 0
(`segmentsAgree_iff`).
-/

namespace OtTcpListener

open Bytes InAddr

/-! ## The code -/

/-- What the locals `ipaddress` and `subnetmask` hold before `inet_pton` sets them. -/
structure Locals where
  ipaddress : InAddr
  subnetmask : InAddr

/-- `NetworkTools::geNetSegment`. What `inet_pton` returns is not looked at. -/
def NetworkTools.geNetSegment (unset : Locals) (ifaceIp mask : QString) : QString :=
  let ipaddress := (inet_pton (c_str (toStdString ifaceIp))).getD unset.ipaddress
  let subnetmask := (inet_pton (c_str (toStdString mask))).getD unset.subnetmask
  let first_ip : UInt64 := (ntohl (ipaddress.s_addr &&& subnetmask.s_addr)).toUInt64
  let long_address : UInt64 := (ntohl first_ip.toUInt32).toUInt64
  inet_ntoa (of_s_addr long_address.toUInt32)

/-- The member `netSegment` that `OtListener::init` gives its client. -/
def OtListener.netSegment (unset : Locals) (ip mask : QString) : QString :=
  NetworkTools.geNetSegment unset ip mask ++ "/24"

namespace Sniffer

/-- The loop of the constructor. Both bounds are below `2 ^ 32`, so the counter, an
`unsigned long`, does not wrap around. -/
def segmentLoop (ip last_ip : ℕ) : List QString :=
  if ip ≤ last_ip then inet_ntoa (of_s_addr (ntohl (.ofNat ip))) :: segmentLoop (ip + 1) last_ip
  else []
termination_by last_ip + 1 - ip

/-- The member `segmentIpList` that the constructor of `Sniffer` fills. -/
def segmentIpList (unset : Locals) (ifaceIp : QString) : List QString :=
  let ipaddress := (inet_pton (c_str (toStdString ifaceIp))).getD unset.ipaddress
  let subnetmask := (inet_pton (ascii "255.255.255.0")).getD unset.subnetmask
  let first_ip := (ntohl (ipaddress.s_addr &&& subnetmask.s_addr)).toNat
  let last_ip := (ntohl (ipaddress.s_addr ||| ~~~subnetmask.s_addr)).toNat
  segmentLoop first_ip last_ip

end Sniffer

/-! ## What the two mean -/

/-- The addresses that a text `a.b.c.d/n` denotes: those that share the first `n` bits of
`a.b.c.d`. -/
def cidr (text : QString) : Set InAddr :=
  {x | ∃ base : InAddr, ∃ len : ℕ, len ≤ 32 ∧ text = inet_ntoa base ++ "/" ++ QString.number len ∧
    x.value / 2 ^ (32 - len) = base.value / 2 ^ (32 - len)}

/-- The contiguous netmask of `n` bits. -/
def netmask (n : ℕ) : InAddr := of_s_addr (ntohl (.ofNat (2 ^ 32 - 2 ^ (32 - n))))

/-- For an interface at the address `a` with a netmask of `n` bits: the published segment and the
addresses listed are the same, and `a` is among them. -/
def SegmentsAgree (unset : Locals) (a : InAddr) (n : ℕ) : Prop :=
  let published := cidr (OtListener.netSegment unset (inet_ntoa a) (inet_ntoa (netmask n)))
  published = {x | inet_ntoa x ∈ Sniffer.segmentIpList unset (inet_ntoa a)} ∧ a ∈ published

/-! ## The published segment -/

/-- Masking with a contiguous mask clears the low bits. -/
theorem and_two_pow_sub {v k : ℕ} (hv : v < 2 ^ 32) (hk : k ≤ 32) :
    v &&& (2 ^ 32 - 2 ^ k) = v / 2 ^ k * 2 ^ k := by
  have hmask : 2 ^ 32 - 2 ^ k = 2 ^ k * (2 ^ (32 - k) - 1) := by
    rw [Nat.mul_sub, ← Nat.pow_add, Nat.add_sub_cancel' hk, Nat.mul_one]
  have hlow : (v &&& (2 ^ 32 - 2 ^ k)) % 2 ^ k = 0 := by
    rw [Nat.and_mod_two_pow, hmask, Nat.mul_mod_right, Nat.and_zero]
  have hhigh : (v &&& (2 ^ 32 - 2 ^ k)) / 2 ^ k = v / 2 ^ k := by
    have hlt : v / 2 ^ k < 2 ^ (32 - k) := by
      rw [Nat.div_lt_iff_lt_mul (Nat.two_pow_pos k), ← Nat.pow_add, Nat.sub_add_cancel hk]
      exact hv
    rw [Nat.and_div_two_pow, hmask, Nat.mul_div_cancel_left _ (Nat.two_pow_pos k),
      Nat.and_two_pow_sub_one_eq_mod, Nat.mod_eq_of_lt hlt]
  rw [← Nat.div_add_mod (v &&& (2 ^ 32 - 2 ^ k)) (2 ^ k), hlow, hhigh, Nat.add_zero, Nat.mul_comm]

theorem value_netmask {n : ℕ} : (netmask n).value = 2 ^ 32 - 2 ^ (32 - n) := by
  have hpos := Nat.two_pow_pos (32 - n)
  rw [netmask, value_of_s_addr_ntohl, UInt32.toNat_ofNat_of_lt' (by rw [UInt32.size]; omega)]

/-- `geNetSegment` writes the address with the bits behind the netmask cleared. -/
theorem geNetSegment_inet_ntoa (unset : Locals) (a : InAddr) {n : ℕ} :
    ∃ base : InAddr, NetworkTools.geNetSegment unset (inet_ntoa a) (inet_ntoa (netmask n)) =
      inet_ntoa base ∧ base.value = a.value / 2 ^ (32 - n) * 2 ^ (32 - n) := by
  refine ⟨of_s_addr (a.s_addr &&& (netmask n).s_addr), ?_, ?_⟩
  · rw [NetworkTools.geNetSegment, inet_pton_inet_ntoa, inet_pton_inet_ntoa]
    simp
  · rw [← toNat_ntohl_s_addr, s_addr_of_s_addr, ntohl_and, UInt32.toNat_and, toNat_ntohl_s_addr,
      toNat_ntohl_s_addr, value_netmask, and_two_pow_sub a.value_lt (Nat.sub_le 32 n)]

/-- A text is read as a network in one way. -/
theorem mem_cidr_iff {base x : InAddr} :
    x ∈ cidr (inet_ntoa base ++ "/24") ↔ x.value / 2 ^ 8 = base.value / 2 ^ 8 := by
  constructor
  · rintro ⟨base', len, hlen, htext, hx⟩
    have hslash (a : InAddr) (l : ℤ) :
        ∀ s ∈ [inet_ntoa a, QString.number l], '/' ∉ s.toList := by
      intro s hs
      rcases List.mem_pair.mp hs with rfl | rfl
      · exact notMem_slash_inet_ntoa a
      · exact QString.notMem_number (by decide) (by decide) l
    have hpair (s t : QString) : QString.join [s, t] '/' = s ++ "/" ++ t := by
      rw [QString.join, String.intercalate_cons_of_ne_nil (List.cons_ne_nil _ _),
        String.intercalate_singleton]
      rfl
    have hjoin : QString.join [inet_ntoa base, QString.number 24] '/' =
        QString.join [inet_ntoa base', QString.number len] '/' := by
      rw [hpair, hpair, ← htext, String.append_assoc]
      rfl
    have hparts := QString.join_injective (hslash base 24) (List.cons_ne_nil _ _)
      (hslash base' len) (List.cons_ne_nil _ _) hjoin
    rw [List.cons.injEq, List.cons.injEq] at hparts
    have hlen24 : (24 : ℤ) = len := QString.number_injective hparts.2.1
    obtain rfl : len = 24 := by omega
    rw [hx, inet_ntoa_injective hparts.1]
  · intro hx
    exact ⟨base, 24, by decide, by rw [String.append_assoc]; rfl, hx⟩

/-! ## The addresses listed -/

namespace Sniffer

theorem mem_segmentLoop_iff {s : QString} {ip last_ip : ℕ} :
    s ∈ segmentLoop ip last_ip ↔
      ∃ v, ip ≤ v ∧ v ≤ last_ip ∧ s = inet_ntoa (of_s_addr (ntohl (.ofNat v))) := by
  fun_induction segmentLoop ip last_ip with
  | case1 ip hle ih =>
    rw [List.mem_cons, ih]
    constructor
    · rintro (rfl | ⟨v, hlo, hhi, hs⟩)
      · exact ⟨ip, le_rfl, hle, rfl⟩
      · exact ⟨v, by omega, hhi, hs⟩
    · rintro ⟨v, hlo, hhi, hs⟩
      rcases hlo.eq_or_lt with rfl | hlt
      · exact .inl hs
      · exact .inr ⟨v, hlt, hhi, hs⟩
  | case2 ip hgt =>
    refine iff_of_false List.not_mem_nil ?_
    rintro ⟨v, hlo, hhi, -⟩
    omega

/-- The highest address of the network of 256 addresses. -/
theorem toNat_ntohl_or (a : InAddr) :
    (ntohl (a.s_addr ||| ~~~(netmask 24).s_addr)).toNat = a.value / 2 ^ 8 * 2 ^ 8 + 255 := by
  have h0 := a.b0.toNat_lt
  have h1 := a.b1.toNat_lt
  have h2 := a.b2.toNat_lt
  have h3 := a.b3.toNat_lt
  have hmask : (~~~(netmask 24).s_addr).toNat = 255 * 2 ^ 24 := by decide +kernel
  have hbyte : ∀ n : Fin 256, n.val ||| 255 = 255 := by decide +kernel
  have hor : (a.s_addr ||| ~~~(netmask 24).s_addr).toNat =
      ofBytes a.b0.toNat a.b1.toNat a.b2.toNat 255 := by
    have hhigh : ofBytes a.b0.toNat a.b1.toNat a.b2.toNat a.b3.toNat / 2 ^ 24 = a.b3.toNat := by
      unfold ofBytes
      omega
    rw [UInt32.toNat_or, hmask, toNat_s_addr, ← Nat.div_add_mod (_ ||| 255 * 2 ^ 24) (2 ^ 24),
      Nat.or_div_two_pow, Nat.or_mod_two_pow, Nat.mul_mod_left, Nat.or_zero,
      Nat.mul_div_cancel _ (by decide), hhigh, hbyte ⟨a.b3.toNat, a.b3.toNat_lt⟩]
    unfold ofBytes
    omega
  rw [toNat_ntohl h0 h1 h2 (by decide) hor, value]
  unfold ofBytes
  omega

/-- The addresses listed are those that share the first 24 bits. -/
theorem mem_segmentIpList_iff (unset : Locals) {a x : InAddr} :
    inet_ntoa x ∈ segmentIpList unset (inet_ntoa a) ↔ x.value / 2 ^ 8 = a.value / 2 ^ 8 := by
  have ha := a.value_lt
  have hx := x.value_lt
  have hmask : inet_pton (ascii "255.255.255.0") = some (netmask 24) := by decide +kernel
  rw [segmentIpList, inet_pton_inet_ntoa, hmask]
  simp only [Option.getD_some]
  rw [ntohl_and, UInt32.toNat_and, toNat_ntohl_s_addr, toNat_ntohl_s_addr, value_netmask,
    and_two_pow_sub ha (by decide), toNat_ntohl_or, mem_segmentLoop_iff]
  constructor
  · rintro ⟨v, hlo, hhi, hs⟩
    rw [inet_ntoa_injective hs, value_of_s_addr_ntohl, UInt32.toNat_ofNat']
    omega
  · intro h
    refine ⟨x.value, by omega, by omega, congrArg inet_ntoa (value_injective ?_)⟩
    rw [value_of_s_addr_ntohl, UInt32.toNat_ofNat_of_lt' (by rw [UInt32.size]; omega)]

end Sniffer

/-! ## Agreement -/

/-- Clearing `k` low bits leaves what is above the lowest 8 bits exactly if the bits cleared there
were 0. -/
theorem clear_div_iff (v k : ℕ) :
    v / 2 ^ k * 2 ^ k / 2 ^ 8 = v / 2 ^ 8 ↔ v / 2 ^ 8 % 2 ^ (k - 8) = 0 := by
  by_cases hk : k ≤ 8
  · have hsplit : 2 ^ 8 = 2 ^ k * 2 ^ (8 - k) := by rw [← Nat.pow_add, Nat.add_sub_cancel' hk]
    rw [Nat.sub_eq_zero_of_le hk, Nat.pow_zero, Nat.mod_one, eq_self_iff_true, iff_true, hsplit,
      Nat.mul_comm, Nat.mul_div_mul_left _ _ (Nat.two_pow_pos k), Nat.div_div_eq_div_mul]
  · obtain ⟨j, rfl⟩ := Nat.exists_eq_add_of_le (Nat.le_of_not_le hk)
    rw [Nat.add_sub_cancel_left, Nat.pow_add, ← Nat.div_div_eq_div_mul, Nat.mul_comm (2 ^ 8),
      ← Nat.mul_assoc, Nat.mul_div_cancel _ (by decide), ← Nat.dvd_iff_mod_eq_zero]
    exact Nat.dvd_iff_div_mul_eq _ _ |>.symm

/-- Both sides are networks of 256 addresses: they agree exactly if masking has kept the network. -/
theorem segmentsAgree_iff_clear (unset : Locals) (a : InAddr) (n : ℕ) :
    SegmentsAgree unset a n ↔
      a.value / 2 ^ (32 - n) * 2 ^ (32 - n) / 2 ^ 8 = a.value / 2 ^ 8 := by
  obtain ⟨base, htext, hbase⟩ := geNetSegment_inet_ntoa unset a (n := n)
  have hpublished : cidr (OtListener.netSegment unset (inet_ntoa a) (inet_ntoa (netmask n))) =
      {x | x.value / 2 ^ 8 = base.value / 2 ^ 8} := by
    rw [OtListener.netSegment, htext]
    exact Set.ext fun x ↦ mem_cidr_iff
  have hlisted : {x | inet_ntoa x ∈ Sniffer.segmentIpList unset (inet_ntoa a)} =
      {x | x.value / 2 ^ 8 = a.value / 2 ^ 8} :=
    Set.ext fun x ↦ Sniffer.mem_segmentIpList_iff unset
  rw [SegmentsAgree, hpublished, hlisted, ← hbase]
  constructor
  · rintro ⟨-, ha⟩
    exact ha.symm
  · intro h
    refine ⟨?_, h.symm⟩
    rw [h]

/-- **When the segments agree.** The published segment is the one whose addresses are listed, and
contains the address of the interface, if and only if the address has only zeros between the end of
the netmask and bit 24. For a netmask of 24 bits or more that is so. -/
theorem segmentsAgree_iff (unset : Locals) (a : InAddr) (n : ℕ) :
    SegmentsAgree unset a n ↔ a.value / 2 ^ 8 % 2 ^ (24 - n) = 0 := by
  have hsub : 24 - n = 32 - n - 8 := by omega
  rw [segmentsAgree_iff_clear, clear_div_iff, hsub]

/-- With a netmask of 16 bits, an interface at 10.1.5.7 publishes 10.1.0.0/24. -/
theorem not_segmentsAgree_16 :
    OtListener.netSegment ⟨⟨0, 0, 0, 0⟩, ⟨0, 0, 0, 0⟩⟩ "10.1.5.7" "255.255.0.0" = "10.1.0.0/24" ∧
      ¬SegmentsAgree ⟨⟨0, 0, 0, 0⟩, ⟨0, 0, 0, 0⟩⟩ ⟨10, 1, 5, 7⟩ 16 := by
  constructor
  · decide +kernel
  · rw [segmentsAgree_iff_clear]
    decide +kernel

end OtTcpListener
