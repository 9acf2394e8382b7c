import OtTcpListener.Platform.Qt

/-!
# `std::string`

A `std::string` holds bytes. The parts of it that the sources use are searches for one character,
slices, and the two conversions of numbers. A slice that begins past the end throws, and so does
`std::stoi` on a text that begins with no number or with one that is no `int`; a throw is an error
of `Except`.

A `QString` becomes a `std::string` through UTF-8 and comes back through UTF-8, up to the first NUL
when the string is passed as a C string.
-/

namespace OtTcpListener

/-- The contents of a `std::string`. -/
abbrev Bytes := List UInt8

/-- A `std::string`: no string gets as long as half the address space. -/
abbrev StdString := {str : Bytes // str.length < 2 ^ 63}

/-- What the standard library throws. -/
inductive StdException where
  | invalid_argument
  | out_of_range
  deriving DecidableEq

namespace Bytes

/-- The bytes of an ASCII literal. -/
def ascii (s : String) : Bytes := s.toList.map fun c ↦ .ofNat c.toNat

/-! ## Searching and slicing -/

/-- `find` of one character, from a position on. `none` is `npos`. -/
def find (str : Bytes) (c : UInt8) (pos : ℕ) : Option ℕ :=
  ((str.drop pos).findIdx? (· == c)).map (pos + ·)

/-- `substr`. -/
def substr (str : Bytes) (pos n : ℕ) : Except StdException Bytes :=
  if str.length < pos then .error .out_of_range else .ok ((str.drop pos).take n)

/-- `erase`, at a position inside the string. -/
def erase (str : Bytes) (pos n : ℕ) : Bytes := str.take pos ++ str.drop (pos + n)

/-- `find_first_not_of` a set of characters. `none` is `npos`. -/
def find_first_not_of (str set : Bytes) : Option ℕ := str.findIdx? fun b ↦ !set.contains b

variable {str : Bytes} {c : UInt8} {pos k : ℕ}

theorem find_eq_none_iff : find str c pos = none ↔ c ∉ str.drop pos := by
  rw [find, Option.map_eq_none_iff, List.findIdx?_eq_none_iff]
  simp only [beq_eq_false_iff_ne, ne_eq]
  exact ⟨fun h hc ↦ h c hc rfl, fun h x hx hxc ↦ h (hxc ▸ hx)⟩

/-- A match is the first one, and what lies before and behind it is what is left and right of the
character. -/
theorem drop_of_find_eq_some (h : find str c pos = some k) :
    pos ≤ k ∧ k < str.length ∧ c ∉ (str.drop pos).take (k - pos) ∧
      str.drop pos = (str.drop pos).take (k - pos) ++ c :: str.drop (k + 1) := by
  obtain ⟨j, hj, rfl⟩ := Option.map_eq_some_iff.mp h
  obtain ⟨hlt, hc, hbefore⟩ := List.findIdx?_eq_some_iff_getElem.mp hj
  have hlen : j < str.length - pos := by rwa [List.length_drop] at hlt
  rw [beq_iff_eq] at hc
  rw [Nat.add_sub_cancel_left]
  refine ⟨Nat.le_add_right pos j, by omega, fun hmem ↦ ?_, ?_⟩
  · obtain ⟨i, hi, hci⟩ := List.getElem_of_mem hmem
    rw [List.length_take] at hi
    rw [List.getElem_take] at hci
    exact hbefore i (by omega) (beq_iff_eq.mpr hci)
  · have hdrop : (str.drop pos).drop j = c :: str.drop (pos + j + 1) := by
      rw [List.drop_eq_getElem_cons hlt, hc, List.drop_drop, Nat.add_assoc]
    rw [← hdrop, List.take_append_drop]

theorem find_first_not_of_eq_none_iff {set : Bytes} :
    find_first_not_of str set = none ↔ ∀ b ∈ str, b ∈ set := by
  rw [find_first_not_of, List.findIdx?_eq_none_iff]
  simp only [Bool.not_eq_false', List.contains_iff_mem]

theorem lt_length_of_find (h : find str c pos = some k) : pos ≤ k ∧ k < str.length :=
  ⟨(drop_of_find_eq_some h).1, (drop_of_find_eq_some h).2.1⟩

/-- Induction along the matches of a character. -/
theorem find_induction (str : Bytes) (c : UInt8) {motive : ℕ → Prop}
    (last : ∀ pos, find str c pos = none → motive pos)
    (step : ∀ pos k, find str c pos = some k → motive (k + 1) → motive pos) (pos : ℕ) :
    motive pos := by
  induction h : str.length - pos using Nat.strong_induction_on generalizing pos with
  | _ n ih =>
    cases hfind : find str c pos with
    | none => exact last pos hfind
    | some k =>
      obtain ⟨hle, hlt⟩ := lt_length_of_find hfind
      exact step pos k hfind (ih _ (by omega) (k + 1) rfl)

/-- A search from the start when the text begins with a part without the character. -/
theorem find_append_cons {part : Bytes} (h : c ∉ part) (rest : Bytes) :
    find (part ++ c :: rest) c 0 = some part.length := by
  have hne : ∀ x ∈ part, (x == c) = false := fun x hx ↦ beq_eq_false_iff_ne.mpr fun hxc ↦
    h (hxc ▸ hx)
  rw [find, List.drop_zero, List.findIdx?_append, List.findIdx?_eq_none_iff.mpr hne,
    Option.none_or, List.findIdx?_cons, beq_self_eq_true, if_pos rfl, Option.map_some,
    Option.map_some, Nat.zero_add, Nat.zero_add]

/-! ## Numbers -/

/-- `isdigit`. -/
def isdigit (b : UInt8) : Bool := 48 ≤ b ∧ b ≤ 57

/-- `isspace`. -/
def isspace (b : UInt8) : Bool := b = 32 ∨ 9 ≤ b ∧ b ≤ 13

/-- The value of a row of decimal digits. -/
def decimal (digits : Bytes) : ℕ := digits.foldl (fun n b ↦ 10 * n + (b.toNat - 48)) 0

/-- The digits a text begins with. -/
def leadingDigits (str : Bytes) : Bytes := str.takeWhile isdigit

/-- `std::stoi`: white space, a sign, digits, and whatever follows. -/
def stoi (str : Bytes) : Except StdException ℤ :=
  let str := str.dropWhile isspace
  let negative := str.head? = some 45
  let digits := leadingDigits (if str.head? = some 45 ∨ str.head? = some 43 then str.tail else str)
  let value : ℤ := if negative then -decimal digits else decimal digits
  if digits = [] then .error .invalid_argument
  else if -2 ^ 31 ≤ value ∧ value < 2 ^ 31 then .ok value
  else .error .out_of_range

/-- `std::to_string` of an unsigned value. -/
def to_string (n : ℕ) : Bytes := ascii n.repr

/-- A property of every byte can be checked on the 256 values. -/
theorem forall_byte {P : UInt8 → Prop} (h : ∀ n : Fin 256, P (.ofNat n)) (b : UInt8) : P b := by
  have hb := h ⟨b.toNat, b.toNat_lt⟩
  rwa [UInt8.ofNat_toNat] at hb

/-- On a text that begins with neither white space nor a sign. -/
theorem stoi_of_head {str : Bytes}
    (h : ∀ b, str.head? = some b → isspace b = false ∧ b ≠ 45 ∧ b ≠ 43) :
    stoi str = if leadingDigits str = [] then .error .invalid_argument
      else if decimal (leadingDigits str) < 2 ^ 31 then .ok (decimal (leadingDigits str))
      else .error .out_of_range := by
  have hdrop : str.dropWhile isspace = str := by
    cases str with
    | nil => rfl
    | cons b str => rw [List.dropWhile_cons, (h b rfl).1, if_neg Bool.false_ne_true]
  have hminus : str.head? ≠ some 45 := fun hb ↦ (h _ hb).2.1 rfl
  have hplus : str.head? ≠ some 43 := fun hb ↦ (h _ hb).2.2 rfl
  have hvalue : (-2 ^ 31 ≤ (decimal (leadingDigits str) : ℤ) ∧
      (decimal (leadingDigits str) : ℤ) < 2 ^ 31) ↔ decimal (leadingDigits str) < 2 ^ 31 := by
    omega
  simp only [stoi, hdrop, hminus, hplus, or_self, if_false, hvalue]

theorem toNat_of_isDigit {c : Char} (h : c.isDigit = true) : 48 ≤ c.toNat ∧ c.toNat ≤ 57 := by
  rw [Char.isDigit, Bool.and_eq_true, decide_eq_true_iff, decide_eq_true_iff] at h
  exact ⟨UInt32.le_iff_toNat_le.mp h.1, UInt32.le_iff_toNat_le.mp h.2⟩

/-- A digit of a number, as a character and as a byte. -/
theorem isdigit_ofNat {c : Char} (h : c.isDigit = true) :
    isdigit (.ofNat c.toNat) = true ∧ (UInt8.ofNat c.toNat).toNat = c.toNat := by
  have hc := toNat_of_isDigit h
  have hnat : (UInt8.ofNat c.toNat).toNat = c.toNat := UInt8.toNat_ofNat_of_lt' (by
    rw [UInt8.size]
    omega)
  refine ⟨?_, hnat⟩
  rw [isdigit, decide_eq_true_iff, UInt8.le_iff_toNat_le, UInt8.le_iff_toNat_le, hnat]
  exact hc

theorem isdigit_of_mem_to_string {n : ℕ} {b : UInt8} (hb : b ∈ to_string n) :
    isdigit b = true := by
  rw [to_string, ascii, Nat.repr_eq_ofList_toDigits, String.toList_ofList, List.mem_map] at hb
  obtain ⟨c, hc, rfl⟩ := hb
  exact (isdigit_ofNat (Nat.isDigit_of_mem_toDigits (by decide) (by decide) hc)).1

theorem notMem_to_string {b : UInt8} (hb : isdigit b = false) (n : ℕ) : b ∉ to_string n := by
  intro hmem
  rw [isdigit_of_mem_to_string hmem] at hb
  cases hb

theorem decimal_to_string (n : ℕ) : decimal (to_string n) = n := by
  have hfold : ∀ (chars : List Char) (init : ℕ), (∀ c ∈ chars, c.isDigit = true) →
      (chars.map fun c ↦ UInt8.ofNat c.toNat).foldl (fun n b ↦ 10 * n + (b.toNat - 48)) init =
        Nat.ofDigitChars 10 chars init := by
    intro chars
    induction chars with
    | nil => exact fun init _ ↦ Nat.ofDigitChars_nil.symm
    | cons c chars ih =>
      intro init hdigit
      rw [List.forall_mem_cons] at hdigit
      rw [List.map_cons, List.foldl_cons, Nat.ofDigitChars_cons, (isdigit_ofNat hdigit.1).2]
      exact ih _ hdigit.2
  rw [decimal, to_string, ascii, Nat.repr_eq_ofList_toDigits, String.toList_ofList,
    hfold _ _ fun c hc ↦ Nat.isDigit_of_mem_toDigits (by decide) (by decide) hc,
    Nat.ofDigitChars_ten_toDigits]

theorem to_string_ne_nil (n : ℕ) : to_string n ≠ [] := by
  rw [to_string, ascii, Nat.repr_eq_ofList_toDigits, String.toList_ofList, ne_eq,
    List.map_eq_nil_iff]
  exact Nat.toDigits_ne_nil

theorem stoi_to_string {n : ℕ} (h : n < 2 ^ 31) : stoi (to_string n) = .ok n := by
  have hlead : leadingDigits (to_string n) = to_string n :=
    List.takeWhile_eq_self_iff.mpr fun b hb ↦ isdigit_of_mem_to_string hb
  have hset : ∀ b, isdigit b = true → isspace b = false ∧ b ≠ 45 ∧ b ≠ 43 :=
    forall_byte (by decide +kernel)
  rw [stoi_of_head fun b hb ↦ hset b (isdigit_of_mem_to_string (List.mem_of_head? hb)), hlead,
    if_neg (to_string_ne_nil n), decimal_to_string, if_pos h]

/-! ## Texts -/

/-- `isprint`. -/
def isprint (b : UInt8) : Bool := 0x20 ≤ b ∧ b ≤ 0x7e

/-- What a function sees that is given `c_str()`: the bytes up to the first NUL. -/
def c_str (str : Bytes) : Bytes := str.takeWhile (· ≠ 0)

/-- `QString::toStdString`: the UTF-8 encoding. -/
def toStdString (s : QString) : Bytes := s.toList.flatMap String.utf8EncodeChar

/-- The characters that UTF-8 bytes encode. A byte at which no encoded character begins becomes a
replacement character. -/
def decodeUtf8 : Bytes → List Char
  | [] => []
  | b :: bytes =>
    match ByteArray.utf8DecodeChar? (b :: bytes).toByteArray 0 with
    | some c => c :: decodeUtf8 (bytes.drop (c.utf8Size - 1))
    | none => Char.ofNat 0xfffd :: decodeUtf8 bytes
termination_by bytes => bytes.length

/-- `QString::fromUtf8`: a byte order mark in front is skipped. -/
def fromUtf8 (bytes : Bytes) : QString :=
  String.ofList (decodeUtf8
    (if [0xef, 0xbb, 0xbf].isPrefixOf bytes then bytes.drop 3 else bytes))

/-- Decoding undoes encoding. -/
theorem decodeUtf8_flatMap (chars : List Char) :
    decodeUtf8 (chars.flatMap String.utf8EncodeChar) = chars := by
  induction chars with
  | nil => rw [List.flatMap_nil, decodeUtf8]
  | cons c chars ih =>
    have hdecode : ByteArray.utf8DecodeChar? (String.utf8EncodeChar c ++
        chars.flatMap String.utf8EncodeChar).toByteArray 0 = some c := by
      rw [List.toByteArray_append]
      exact ByteArray.utf8DecodeChar?_utf8EncodeChar_append
    have hlen := String.length_utf8EncodeChar c
    rw [List.flatMap_cons]
    cases henc : String.utf8EncodeChar c with
    | nil => exact absurd henc String.utf8EncodeChar_ne_nil
    | cons b bytes =>
      rw [henc, List.cons_append] at hdecode
      rw [henc, List.length_cons] at hlen
      rw [List.cons_append, decodeUtf8, hdecode]
      change c :: decodeUtf8 ((bytes ++ _).drop (c.utf8Size - 1)) = c :: chars
      rw [← hlen, Nat.add_sub_cancel, List.drop_left, ih]

/-- A character of the ASCII range is encoded by one byte. -/
theorem utf8EncodeChar_of_le {c : Char} (h : c.toNat ≤ 0x7f) :
    String.utf8EncodeChar c = [.ofNat c.toNat] := if_pos h

/-- No byte of any other character is an ASCII byte. -/
theorem le_of_mem_utf8EncodeChar {c : Char} (h : 0x7f < c.toNat) {b : UInt8}
    (hb : b ∈ String.utf8EncodeChar c) : 0x80 ≤ b.toNat := by
  have hbyte {n : ℕ} (hlo : 0x80 ≤ n) (hhi : n < 256) : 0x80 ≤ (UInt8.ofNat n).toNat := by
    rw [UInt8.toNat_ofNat_of_lt' hhi]
    exact hlo
  have hnot : ¬c.val.toNat ≤ 0x7f := Nat.not_le.mpr h
  rw [String.utf8EncodeChar, if_neg hnot] at hb
  -- the first byte and the continuation bytes all have a marker added
  split_ifs at hb <;> simp only [List.mem_cons, List.not_mem_nil, or_false] at hb
  · rcases hb with rfl | rfl <;> exact hbyte (by omega) (by omega)
  · rcases hb with rfl | rfl | rfl <;> exact hbyte (by omega) (by omega)
  · rcases hb with rfl | rfl | rfl | rfl <;> exact hbyte (by omega) (by omega)

end Bytes

end OtTcpListener
