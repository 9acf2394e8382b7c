import OtTcpListener.Tools.Split

/-!
# Validating an address

`validateIP` splits a text at its dots, wants four tokens, and looks at them one after the other. A
token has to be a number by the standards of `isNumber`, and `std::stoi` has to find a value of at
most 255 in it. `isNumber` lets square brackets pass along with the digits. `std::stoi` throws on a
token that begins with a bracket and on one whose digits exceed an `int`, and ignores a bracket and
all that follows it.

So the function can throw, and it can accept a text that is no address. `Settled` names the texts
for which it does neither and gives the right answer (`validatesRight_iff_settled`).
-/

namespace OtTcpListener

open Bytes Parts Throwing

namespace Tools

/-! ## The code -/

/-- `isNumber`. The brackets belong to the set. -/
def isNumber (str : Bytes) : Bool :=
  !str.isEmpty && (find_first_not_of str (ascii "[0123456789]")).isNone

/-- The loop of `validateIP` over the tokens. -/
def validateTokens : List Bytes → Except StdException Bool
  | [] => return true
  | str :: list => do
    if !isNumber str then
      return false
    else if 255 < (← stoi str) then
      return false
    else if (← stoi str) < 0 then
      return false
    else
      validateTokens list

/-- `validateIP`. -/
def validateIP (ip : Bytes) : Except StdException Bool := do
  let list ← split ip 46
  if list.length ≠ 4 then
    return false
  else if !(← validateTokens list) then
    return false
  else
    return ip ≠ ascii "0.0.0.0"

/-! ## What is asked for -/

/-- A decimal number of at most 255. -/
def IsOctet (part : Bytes) : Prop :=
  part ≠ [] ∧ (∀ b ∈ part, isdigit b) ∧ decimal part ≤ 255

/-- Four octets between dots, other than the unspecified address. -/
def IsAddress (s : Bytes) : Prop :=
  ∃ parts : List Bytes, parts.length = 4 ∧ (∀ part ∈ parts, IsOctet part) ∧
    [46].intercalate parts = s ∧ s ≠ ascii "0.0.0.0"

/-- `validateIP` returns, and returns whether the text is an address. -/
def ValidatesRight (s : Bytes) : Prop :=
  ∃ b, validateIP s = .ok b ∧ (b = true ↔ IsAddress s)

/-! ## One token

`isNumber` wants digits and square brackets. `std::stoi` then reads the digits up to the first
bracket, so a token that is neither passed nor stopped at begins with a bracket, or with digits
beyond an `int`, and throws. -/

/-- A digit or a square bracket. -/
def Numeric (b : UInt8) : Prop := isdigit b = true ∨ b = 91 ∨ b = 93

/-- The loop goes on behind this token: digits and brackets only, a digit first, and the digits up
to the first bracket are at most 255. -/
def Passes (str : Bytes) : Prop :=
  (∀ b ∈ str, Numeric b) ∧ leadingDigits str ≠ [] ∧ decimal (leadingDigits str) ≤ 255

/-- The loop returns at this token: it is empty, or has a byte that is neither digit nor bracket,
or it has a digit first and the digits up to the first bracket are more than 255 and an `int`. -/
def Stops (str : Bytes) : Prop :=
  str = [] ∨ (∃ b ∈ str, ¬Numeric b) ∨
    leadingDigits str ≠ [] ∧ 255 < decimal (leadingDigits str) ∧
      decimal (leadingDigits str) < 2 ^ 31

theorem mem_set_iff : ∀ b : UInt8, b ∈ ascii "[0123456789]" ↔ Numeric b := by
  unfold Numeric
  exact forall_byte (by decide +kernel)

theorem isNumber_eq_true_iff {str : Bytes} :
    isNumber str = true ↔ str ≠ [] ∧ ∀ b ∈ str, Numeric b := by
  rw [isNumber, Bool.and_eq_true, Bool.not_eq_true', List.isEmpty_eq_false_iff,
    Option.isNone_iff_eq_none, find_first_not_of_eq_none_iff]
  simp only [mem_set_iff]

theorem isNumber_eq_false_iff {str : Bytes} :
    isNumber str = false ↔ str = [] ∨ ∃ b ∈ str, ¬Numeric b := by
  rw [Bool.eq_false_iff, ne_eq, isNumber_eq_true_iff]
  push Not
  exact or_iff_not_imp_left.symm

theorem passes_iff {str : Bytes} :
    Passes str ↔ isNumber str = true ∧ leadingDigits str ≠ [] ∧
      decimal (leadingDigits str) ≤ 255 := by
  rw [Passes, isNumber_eq_true_iff]
  refine ⟨fun ⟨hnum, hne, hle⟩ ↦ ⟨⟨?_, hnum⟩, hne, hle⟩, fun ⟨hnum, h⟩ ↦ ⟨hnum.2, h⟩⟩
  rintro rfl
  exact hne rfl

theorem stops_iff {str : Bytes} :
    Stops str ↔ isNumber str = false ∨
      leadingDigits str ≠ [] ∧ 255 < decimal (leadingDigits str) ∧
        decimal (leadingDigits str) < 2 ^ 31 := by
  rw [Stops, isNumber_eq_false_iff, or_assoc]

theorem isNumber_eq_false_of_mem_dot {str : Bytes} (h : 46 ∈ str) : isNumber str = false :=
  isNumber_eq_false_iff.mpr (.inr ⟨46, h, by unfold Numeric; decide⟩)

/-- What `std::stoi` makes of a number by the standards of `isNumber`. -/
theorem stoi_of_isNumber {str : Bytes} (h : isNumber str = true) :
    stoi str = if leadingDigits str = [] then .error .invalid_argument
      else if decimal (leadingDigits str) < 2 ^ 31 then .ok (decimal (leadingDigits str))
      else .error .out_of_range := by
  have hset : ∀ b ∈ ascii "[0123456789]", isspace b = false ∧ b ≠ 45 ∧ b ≠ 43 := by
    decide +kernel
  have hnum := (isNumber_eq_true_iff.mp h).2
  exact stoi_of_head fun b hb ↦ hset b ((mem_set_iff b).mpr (hnum b (List.mem_of_head? hb)))

theorem validateTokens_cons_of_passes {str : Bytes} (h : Passes str) (list : List Bytes) :
    validateTokens (str :: list) = validateTokens list := by
  obtain ⟨hnum, hne, hle⟩ := passes_iff.mp h
  have hstoi : stoi str = .ok (decimal (leadingDigits str)) := by
    rw [stoi_of_isNumber hnum, if_neg hne, if_pos (by omega)]
  rw [validateTokens, hnum, if_neg (by decide), hstoi, ok_bind, if_neg (by omega), ok_bind,
    if_neg (by omega)]

theorem validateTokens_cons_of_stops {str : Bytes} (h : Stops str) (list : List Bytes) :
    validateTokens (str :: list) = .ok false := by
  rw [stops_iff] at h
  cases hnum : isNumber str with
  | false =>
    rw [validateTokens, hnum]
    rfl
  | true =>
    obtain ⟨hne, hgt, hlt⟩ := h.resolve_left (by rw [hnum]; exact Bool.noConfusion)
    have hstoi : stoi str = .ok (decimal (leadingDigits str)) := by
      rw [stoi_of_isNumber hnum, if_neg hne, if_pos hlt]
    rw [validateTokens, hnum, if_neg (by decide), hstoi, ok_bind, if_pos (by omega)]
    rfl

theorem validateTokens_cons_of_throws {str : Bytes} (hpass : ¬Passes str) (hstop : ¬Stops str)
    (list : List Bytes) : ∃ e, validateTokens (str :: list) = .error e := by
  rw [passes_iff] at hpass
  rw [stops_iff] at hstop
  have hnum : isNumber str = true := Bool.eq_true_of_not_eq_false fun h ↦ hstop (.inl h)
  have hstoi : ∃ e, stoi str = .error e := by
    rw [stoi_of_isNumber hnum]
    by_cases hne : leadingDigits str = []
    · exact ⟨_, if_pos hne⟩
    · rw [if_neg hne, if_neg fun hlt ↦ ?_]
      · exact ⟨_, rfl⟩
      · exact hpass ⟨hnum, hne, Nat.le_of_not_lt fun hgt ↦ hstop (.inr ⟨hne, hgt, hlt⟩)⟩
  obtain ⟨e, he⟩ := hstoi
  exact ⟨e, by rw [validateTokens, hnum, if_neg (by decide), he, error_bind]⟩

theorem not_stops_of_passes {str : Bytes} (h : Passes str) : ¬Stops str := by
  obtain ⟨hnum, -, hle⟩ := passes_iff.mp h
  rw [stops_iff]
  rintro (hstop | ⟨-, hgt, -⟩)
  · rw [hnum] at hstop
    cases hstop
  · exact absurd hgt (Nat.not_lt.mpr hle)

/-! ## The tokens in order -/

section

variable {α : Type} (token : α → Bytes) (l : List α)

theorem validateTokens_eq_true_iff :
    validateTokens (l.map token) = .ok true ↔ ∀ x ∈ l, Passes (token x) := by
  induction l with
  | nil => exact iff_of_true rfl fun _ h ↦ absurd h List.not_mem_nil
  | cons x l ih =>
    rw [List.map_cons, List.forall_mem_cons]
    by_cases hpass : Passes (token x)
    · rw [validateTokens_cons_of_passes hpass, ih, and_iff_right hpass]
    · refine iff_of_false (fun h ↦ ?_) fun h ↦ hpass h.1
      by_cases hstop : Stops (token x)
      · rw [validateTokens_cons_of_stops hstop] at h
        cases h
      · obtain ⟨e, he⟩ := validateTokens_cons_of_throws hpass hstop (l.map token)
        rw [he] at h
        cases h

theorem validateTokens_eq_false_iff :
    validateTokens (l.map token) = .ok false ↔
      Reaches (fun x ↦ Passes (token x)) (fun x ↦ Stops (token x)) l := by
  induction l with
  | nil => exact iff_of_false (fun h ↦ by cases h) not_reaches_nil
  | cons x l ih =>
    rw [List.map_cons, reaches_cons_iff]
    by_cases hpass : Passes (token x)
    · rw [validateTokens_cons_of_passes hpass, ih, and_iff_right hpass,
        or_iff_right (not_stops_of_passes hpass)]
    · rw [or_iff_left fun h ↦ hpass h.1]
      by_cases hstop : Stops (token x)
      · exact iff_of_true (validateTokens_cons_of_stops hstop _) hstop
      · obtain ⟨e, he⟩ := validateTokens_cons_of_throws hpass hstop (l.map token)
        rw [he]
        exact iff_of_false (fun h ↦ by cases h) hstop

end

/-! ## Octets -/

theorem leadingDigits_of_isOctet {part : Bytes} (h : IsOctet part) : leadingDigits part = part :=
  List.takeWhile_eq_self_iff.mpr h.2.1

theorem passes_of_isOctet {part : Bytes} (h : IsOctet part) : Passes part := by
  refine ⟨fun b hb ↦ .inl (h.2.1 b hb), ?_, ?_⟩ <;> rw [leadingDigits_of_isOctet h]
  · exact h.1
  · exact h.2.2

theorem notMem_dot_of_isOctet {part : Bytes} (h : IsOctet part) : 46 ∉ part := fun hdot ↦
  absurd (h.2.1 46 hdot) (by decide)

/-- An address is a text of four parts, all of them octets, other than the unspecified one. -/
theorem isAddress_iff {s : Bytes} : IsAddress s ↔
    (s.splitOn 46).length = 4 ∧ (∀ part ∈ s.splitOn 46, IsOctet part) ∧ s ≠ ascii "0.0.0.0" := by
  constructor
  · rintro ⟨parts, hlen, hoct, hjoin, hne⟩
    have hparts : parts = s.splitOn 46 := eq_splitOn_iff.mpr
      ⟨List.ne_nil_of_length_pos (by omega), fun p hp ↦ notMem_dot_of_isOctet (hoct p hp), hjoin⟩
    rw [← hparts]
    exact ⟨hlen, hoct, hne⟩
  · rintro ⟨hlen, hoct, hne⟩
    exact ⟨s.splitOn 46, hlen, hoct, List.intercalate_splitOn 46, hne⟩

/-! ## The answer -/

/-- The texts that `validateIP` answers for. No part begins at an offset that the `int` of `split`
turns into a negative number. And of four parts either all are octets and begin at an `int`, or some
part is no octet and the loop returns at a token before any token throws: it passes tokens that
begin at an `int` and stops at one, be it that the offset of the token has wrapped around, so that a
dot is left in it. -/
def Settled (s : Bytes) : Prop :=
  (∀ x ∈ located 0 (s.splitOn 46), x.1 % 2 ^ 32 < 2 ^ 31) ∧
    ((s.splitOn 46).length = 4 →
      (∀ x ∈ located 0 (s.splitOn 46), x.1 < 2 ^ 31 ∧ IsOctet x.2) ∨
        (¬∀ part ∈ s.splitOn 46, IsOctet part) ∧
          Reaches (fun x ↦ x.1 < 2 ^ 31 ∧ Passes x.2) (fun x ↦ 2 ^ 31 ≤ x.1 ∨ Stops x.2)
            (located 0 (s.splitOn 46)))

variable {s : Bytes}

theorem validateIP_eq (hlen : s.length < 2 ^ 63)
    (hbelow : ∀ x ∈ located 0 (s.splitOn 46), x.1 % 2 ^ 32 < 2 ^ 31) :
    validateIP s = if (s.splitOn 46).length = 4 then
      validateTokens ((located 0 (s.splitOn 46)).map (sliced s)) >>= fun b ↦
        .ok (b && decide (s ≠ ascii "0.0.0.0"))
      else .ok false := by
  rw [validateIP, (split_eq_ok_iff hlen).mpr ⟨hbelow, rfl⟩, ok_bind, List.length_map,
    length_located]
  by_cases h4 : (s.splitOn 46).length = 4
  · rw [if_pos h4, if_neg (not_not.mpr h4)]
    cases validateTokens ((located 0 (s.splitOn 46)).map (sliced s)) with
    | error e => rfl
    | ok b => cases b <;> rfl
  · rw [if_neg h4, if_pos h4]
    rfl

/-- What the loop does at a token, in terms of the part. -/
theorem sliced_cases {x : ℕ × Bytes} (hx : x ∈ located 0 (s.splitOn 46))
    (hbelow : x.1 % 2 ^ 32 < 2 ^ 31) :
    (Passes (sliced s x) ↔ x.1 < 2 ^ 31 ∧ Passes x.2) ∧
      (Stops (sliced s x) ↔ 2 ^ 31 ≤ x.1 ∨ Stops x.2) := by
  by_cases hnear : x.1 < 2 ^ 31
  · rw [(sliced_eq_iff hx).mpr (by omega), and_iff_right hnear, or_iff_right (by omega)]
    exact ⟨Iff.rfl, Iff.rfl⟩
  · -- the slice begins in front of the dot that precedes the part
    obtain ⟨front, hfront, hend, hslice⟩ := exists_sliced_eq hx
    have hdot : (46 : UInt8) ∈ sliced s x := by
      rcases hend with rfl | ⟨before, rfl⟩
      · rw [List.length_nil] at hfront
        omega
      · rw [List.length_append, List.length_singleton] at hfront
        rw [hslice, List.drop_append_of_le_length (by omega)]
        simp
    have hstop : Stops (sliced s x) := stops_iff.mpr (.inl (isNumber_eq_false_of_mem_dot hdot))
    exact ⟨iff_of_false (fun hpass ↦ not_stops_of_passes hpass hstop) fun h ↦ hnear h.1,
      iff_of_true hstop (.inl (by omega))⟩

/-- The offsets of the unspecified address are small. -/
theorem lt_of_eq_unspecified (hs : s = ascii "0.0.0.0") {x : ℕ × Bytes}
    (hx : x ∈ located 0 (s.splitOn 46)) : x.1 < 2 ^ 31 := by
  have hsmall : ∀ x ∈ located 0 ((ascii "0.0.0.0").splitOn 46), x.1 < 2 ^ 31 := by decide +kernel
  rw [hs] at hx
  exact hsmall x hx

/-- Four octets: right exactly if all of them begin at an `int`. -/
theorem right_iff_of_forall_isOctet (hoct : ∀ part ∈ s.splitOn 46, IsOctet part)
    (hbelow : ∀ x ∈ located 0 (s.splitOn 46), x.1 % 2 ^ 32 < 2 ^ 31) :
    (∃ b, (validateTokens ((located 0 (s.splitOn 46)).map (sliced s)) >>= fun b ↦
        .ok (b && decide (s ≠ ascii "0.0.0.0"))) = .ok b ∧ (b = true ↔ s ≠ ascii "0.0.0.0")) ↔
      ∀ x ∈ located 0 (s.splitOn 46), x.1 < 2 ^ 31 := by
  have hpass : ∀ x ∈ located 0 (s.splitOn 46), Passes x.2 := fun x hx ↦ by
    have hmem := List.mem_map_of_mem (f := Prod.snd) hx
    rw [map_snd_located] at hmem
    exact passes_of_isOctet (hoct _ hmem)
  constructor
  · rintro ⟨b, hb, hright⟩ x hx
    by_cases hs : s = ascii "0.0.0.0"
    · exact lt_of_eq_unspecified hs hx
    · rw [hright.mpr hs, decide_eq_true hs] at hb
      cases htokens : validateTokens ((located 0 (s.splitOn 46)).map (sliced s)) with
      | error e =>
        rw [htokens] at hb
        cases hb
      | ok b' =>
        rw [htokens, ok_bind, Bool.and_true, Except.ok.injEq] at hb
        rw [hb] at htokens
        have hall := (validateTokens_eq_true_iff _ _).mp htokens x hx
        exact ((sliced_cases hx (hbelow x hx)).1.mp hall).1
  · intro hnear
    have htokens : validateTokens ((located 0 (s.splitOn 46)).map (sliced s)) = .ok true :=
      (validateTokens_eq_true_iff _ _).mpr fun x hx ↦
        (sliced_cases hx (hbelow x hx)).1.mpr ⟨hnear x hx, hpass x hx⟩
    rw [htokens, ok_bind, Bool.true_and]
    exact ⟨_, rfl, decide_eq_true_iff⟩

/-- Four parts that are not all octets: right exactly if the loop stops before it throws. -/
theorem right_iff_of_not_forall_isOctet (hoct : ¬∀ part ∈ s.splitOn 46, IsOctet part)
    (hbelow : ∀ x ∈ located 0 (s.splitOn 46), x.1 % 2 ^ 32 < 2 ^ 31) :
    (∃ b, (validateTokens ((located 0 (s.splitOn 46)).map (sliced s)) >>= fun b ↦
        .ok (b && decide (s ≠ ascii "0.0.0.0"))) = .ok b ∧ (b = true ↔ False)) ↔
      Reaches (fun x ↦ x.1 < 2 ^ 31 ∧ Passes x.2) (fun x ↦ 2 ^ 31 ≤ x.1 ∨ Stops x.2)
        (located 0 (s.splitOn 46)) := by
  have hne : s ≠ ascii "0.0.0.0" := by
    rintro rfl
    refine hoct fun part hpart ↦ ?_
    have hzero : (ascii "0.0.0.0").splitOn 46 = List.replicate 4 (ascii "0") := by decide +kernel
    rw [hzero] at hpart
    obtain rfl := List.eq_of_mem_replicate hpart
    exact ⟨by decide +kernel, by decide +kernel, by decide +kernel⟩
  have hreach := reaches_congr (fun x hx ↦ (sliced_cases hx (hbelow x hx)).1)
    fun x hx ↦ (sliced_cases hx (hbelow x hx)).2
  rw [← hreach, ← validateTokens_eq_false_iff, decide_eq_true hne]
  simp only [iff_false, Bool.not_eq_true, Bool.and_true, exists_eq_right]
  cases validateTokens ((located 0 (s.splitOn 46)).map (sliced s)) <;> rfl

/-- **When a validation is right.** `validateIP` returns, and returns whether the text is an
address, for the settled texts and for no others. -/
theorem validatesRight_iff_settled (s : StdString) : ValidatesRight s.1 ↔ Settled s.1 := by
  obtain ⟨s, hlen⟩ := s
  rw [ValidatesRight, Settled]
  by_cases hbelow : ∀ x ∈ located 0 (s.splitOn 46), x.1 % 2 ^ 32 < 2 ^ 31
  · rw [and_iff_right hbelow, validateIP_eq hlen hbelow, isAddress_iff]
    by_cases h4 : (s.splitOn 46).length = 4
    · rw [if_pos h4, forall_prop_of_true h4, and_iff_right h4]
      by_cases hoct : ∀ part ∈ s.splitOn 46, IsOctet part
      · have hparts : (∀ x ∈ located 0 (s.splitOn 46), x.1 < 2 ^ 31 ∧ IsOctet x.2) ↔
            ∀ x ∈ located 0 (s.splitOn 46), x.1 < 2 ^ 31 := by
          refine forall₂_congr fun x hx ↦ and_iff_left (hoct _ ?_)
          rw [← map_snd_located 0 (s.splitOn 46)]
          exact List.mem_map_of_mem hx
        rw [or_iff_left fun h ↦ h.1 hoct, hparts, and_iff_right hoct]
        exact right_iff_of_forall_isOctet hoct hbelow
      · have hsome : ¬∀ x ∈ located 0 (s.splitOn 46), x.1 < 2 ^ 31 ∧ IsOctet x.2 := by
          refine fun h ↦ hoct fun part hpart ↦ ?_
          rw [← map_snd_located 0 (s.splitOn 46), List.mem_map] at hpart
          obtain ⟨x, hx, rfl⟩ := hpart
          exact (h x hx).2
        have hno : ((∀ part ∈ s.splitOn 46, IsOctet part) ∧ s ≠ ascii "0.0.0.0") = False :=
          eq_false fun h ↦ hoct h.1
        rw [or_iff_right hsome, and_iff_right hoct, hno]
        exact right_iff_of_not_forall_isOctet hoct hbelow
    · rw [if_neg h4]
      exact iff_of_true ⟨false, rfl, iff_of_false Bool.noConfusion fun h ↦ h4 h.1⟩
        fun h ↦ absurd h h4
  · refine iff_of_false ?_ fun h ↦ hbelow h.1
    rintro ⟨b, hb, -⟩
    cases hsplit : split s 46 with
    | error e =>
      rw [validateIP, hsplit] at hb
      cases hb
    | ok list => exact hbelow ((split_eq_ok_iff hlen).mp hsplit).1

/-- A bracket in front of the digits, and digits beyond an `int`, throw; a bracket behind the digits
is accepted. -/
theorem not_validatesRight_brackets :
    validateIP (ascii "[.1.1.1") = .error .invalid_argument ∧
      validateIP (ascii "99999999999.1.1.1") = .error .out_of_range ∧
      validateIP (ascii "1[.2.3.4") = .ok true ∧
      ¬ValidatesRight (ascii "[.1.1.1") ∧ ¬ValidatesRight (ascii "99999999999.1.1.1") ∧
      ¬ValidatesRight (ascii "1[.2.3.4") := by
  have hopen : validateIP (ascii "[.1.1.1") = .error .invalid_argument := by
    rw [validateIP, split_of_lt (by decide)]
    decide +kernel
  have hlong : validateIP (ascii "99999999999.1.1.1") = .error .out_of_range := by
    rw [validateIP, split_of_lt (by decide)]
    decide +kernel
  have hclose : validateIP (ascii "1[.2.3.4") = .ok true := by
    rw [validateIP, split_of_lt (by decide)]
    decide +kernel
  refine ⟨hopen, hlong, hclose, ?_, ?_, ?_⟩
  · rintro ⟨b, hb, -⟩
    rw [hopen] at hb
    cases hb
  · rintro ⟨b, hb, -⟩
    rw [hlong] at hb
    cases hb
  · rintro ⟨b, hb, hright⟩
    rw [hclose, Except.ok.injEq] at hb
    obtain ⟨-, hoct, -⟩ := isAddress_iff.mp (hright.mp hb.symm)
    have hfirst : IsOctet (ascii "1[") := hoct _ (by decide +kernel)
    exact absurd (hfirst.2.1 91 (by decide)) (by decide)

end Tools

end OtTcpListener
