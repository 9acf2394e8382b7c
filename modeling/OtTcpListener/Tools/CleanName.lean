import OtTcpListener.Platform.StdString

/-!
# Cleaning a name

`cleanQString` prepares the name of an interface for the capture library. `changeTrCharacters`
replaces twelve Turkish letters by ASCII letters, one after the other; `RemoveSpecials` takes the
UTF-8 bytes of the result and erases those that do not print, in place, with an index and a length
of its own.

A character outside the ASCII range is erased byte by byte, so what remains is again the encoding of
characters. In terms of characters the two steps are a single pass: `cleanChar` says what becomes of
each (`cleanQString_eq_filterMap`).
-/

namespace OtTcpListener

open Bytes

namespace NetworkTools

/-! ## The code -/

/-- `NetworkTools::changeTrCharacters`. -/
def changeTrCharacters (text : QString) : QString :=
  let text := QString.replace text 'ö' 'o'
  let text := QString.replace text 'Ö' 'O'
  let text := QString.replace text 'ü' 'u'
  let text := QString.replace text 'Ü' 'U'
  let text := QString.replace text 'ı' 'i'
  let text := QString.replace text 'İ' 'I'
  let text := QString.replace text 'ğ' 'g'
  let text := QString.replace text 'Ğ' 'G'
  let text := QString.replace text 'ş' 's'
  let text := QString.replace text 'Ş' 'S'
  let text := QString.replace text 'ç' 'c'
  QString.replace text 'Ç' 'C'

/-- The loop of `NetworkTools::RemoveSpecials`. Its two counters are of type `int` and stay between
0 and the length of the string, which is an `int`, too: Qt keeps the bytes it is made of in a
`QByteArray`. -/
def removeLoop (str : Bytes) (i len : ℕ) : Bytes :=
  if _h : i < len then
    if isprint (str.getD i 0) then removeLoop str (i + 1) len
    else removeLoop (erase str i 1) i (len - 1)
  else str
termination_by len - i

/-- `NetworkTools::RemoveSpecials`. -/
def RemoveSpecials (qstr : QString) : QString :=
  let str := toStdString qstr
  fromUtf8 (c_str (removeLoop str 0 str.length))

/-- `NetworkTools::cleanQString`. -/
def cleanQString (toClean : QString) : QString := RemoveSpecials (changeTrCharacters toClean)

/-! ## One character -/

/-- The Turkish letters and the ASCII letters they become. -/
def turkish : List (Char × Char) :=
  [('ö', 'o'), ('Ö', 'O'), ('ü', 'u'), ('Ü', 'U'), ('ı', 'i'), ('İ', 'I'), ('ğ', 'g'), ('Ğ', 'G'),
    ('ş', 's'), ('Ş', 'S'), ('ç', 'c'), ('Ç', 'C')]

/-- The printable ASCII characters. -/
def printable (c : Char) : Bool := 0x20 ≤ c.toNat ∧ c.toNat ≤ 0x7e

/-- What becomes of a character: a Turkish letter becomes an ASCII letter, a printable ASCII
character stays, and any other goes. -/
def cleanChar (c : Char) : Option Char :=
  match turkish.lookup c with
  | some letter => some letter
  | none => if printable c then some c else none

/-! ## Replacing letters -/

/-- Replacements in sequence are one replacement when none of them makes a character that is to be
replaced. -/
theorem foldl_replace (table : List (Char × Char))
    (htable : ∀ p ∈ table, ∀ q ∈ table, p.2 ≠ q.1) (s : QString) :
    table.foldl (fun s p ↦ QString.replace s p.1 p.2) s =
      String.ofList (s.toList.map fun c ↦ (table.lookup c).getD c) := by
  induction table generalizing s with
  | nil => rw [List.foldl_nil, ← String.ofList_toList (s := s)]; simp
  | cons p table ih =>
    have htail : ∀ q ∈ table, ∀ r ∈ table, q.2 ≠ r.1 := fun q hq r hr ↦
      htable q (List.mem_cons_of_mem p hq) r (List.mem_cons_of_mem p hr)
    have hvalue : table.lookup p.2 = none := List.lookup_eq_none_iff.mpr fun q hq ↦
      bne_iff_ne.mpr (htable p List.mem_cons_self q (List.mem_cons_of_mem p hq))
    rw [List.foldl_cons, ih htail, QString.replace, String.toList_ofList, List.map_map]
    refine congrArg String.ofList (List.map_congr_left fun c _ ↦ ?_)
    change (table.lookup (if c = p.1 then p.2 else c)).getD (if c = p.1 then p.2 else c) = _
    by_cases hc : c = p.1
    · rw [if_pos hc, hvalue, List.lookup_cons, beq_iff_eq.mpr hc]
      rfl
    · rw [if_neg hc, List.lookup_cons, beq_eq_false_iff_ne.mpr hc]

theorem changeTrCharacters_eq (text : QString) :
    changeTrCharacters text =
      String.ofList (text.toList.map fun c ↦ (turkish.lookup c).getD c) :=
  foldl_replace turkish (by decide +kernel) text

/-! ## Erasing bytes -/

/-- The bytes in front of the index have been looked at and print. -/
theorem removeLoop_eq (done rest : Bytes) :
    removeLoop (done ++ rest) done.length (done ++ rest).length = done ++ rest.filter isprint := by
  induction rest generalizing done with
  | nil => rw [removeLoop, List.append_nil, dif_neg (Nat.lt_irrefl _), List.filter_nil,
      List.append_nil]
  | cons b rest ih =>
    have hlt : done.length < (done ++ b :: rest).length := by
      rw [List.length_append, List.length_cons]
      omega
    have hget : (done ++ b :: rest).getD done.length 0 = b := by
      rw [List.getD_append_right _ _ _ _ le_rfl, Nat.sub_self, List.getD_cons_zero]
    rw [removeLoop, dif_pos hlt, hget]
    cases hb : isprint b with
    | true =>
      have hdone := ih (done ++ [b])
      rw [List.append_assoc, List.singleton_append, List.length_append,
        List.length_singleton] at hdone
      rw [if_pos rfl, hdone, List.filter_cons_of_pos hb, List.append_assoc, List.singleton_append]
    | false =>
      have herase : erase (done ++ b :: rest) done.length 1 = done ++ rest := by
        rw [erase, List.take_left, List.drop_append, List.drop_eq_nil_of_le (Nat.le_succ _),
          List.nil_append, Nat.add_sub_cancel_left]
        rfl
      have hlen : (done ++ b :: rest).length - 1 = (done ++ rest).length := by
        rw [List.length_append, List.length_append, List.length_cons]
        rfl
      rw [if_neg Bool.false_ne_true, herase, hlen, ih, List.filter_cons_of_neg (by rw [hb]; simp)]

/-- All bytes of a printable character print, and none of any other character. -/
theorem filter_utf8EncodeChar (c : Char) :
    (String.utf8EncodeChar c).filter isprint =
      if printable c then String.utf8EncodeChar c else [] := by
  by_cases hascii : c.toNat ≤ 0x7f
  · have hbyte : isprint (.ofNat c.toNat) = printable c := by
      have hnat : (UInt8.ofNat c.toNat).toNat = c.toNat := UInt8.toNat_ofNat_of_lt' (by
        rw [UInt8.size]
        omega)
      rw [isprint, printable, decide_eq_decide, UInt8.le_iff_toNat_le, UInt8.le_iff_toNat_le, hnat]
      exact Iff.rfl
    rw [utf8EncodeChar_of_le hascii, List.filter_cons, hbyte, List.filter_nil]
  · have hnot : printable c = false := by
      rw [printable, decide_eq_false_iff_not]
      omega
    rw [hnot, if_neg Bool.false_ne_true, List.filter_eq_nil_iff]
    intro b hb hprint
    have hle := le_of_mem_utf8EncodeChar (Nat.not_le.mp hascii) hb
    rw [isprint, decide_eq_true_iff, UInt8.le_iff_toNat_le, UInt8.le_iff_toNat_le] at hprint
    exact absurd (hle.trans hprint.2) (by decide)

/-- What prints survives the way through a C string and back. -/
theorem fromUtf8_c_str {bytes : Bytes} (h : ∀ b ∈ bytes, isprint b = true) :
    fromUtf8 (c_str bytes) = String.ofList (decodeUtf8 bytes) := by
  have hnul : c_str bytes = bytes := List.takeWhile_eq_self_iff.mpr fun b hb ↦ by
    rw [decide_eq_true_iff]
    rintro rfl
    exact absurd (h 0 hb) (by decide)
  have hmark : ¬[0xef, 0xbb, 0xbf].isPrefixOf bytes := fun hpre ↦
    absurd (h 0xef ((List.isPrefixOf_iff_prefix.mp hpre).subset List.mem_cons_self)) (by decide)
  rw [hnul, fromUtf8, if_neg hmark]

theorem RemoveSpecials_eq (s : QString) :
    RemoveSpecials s = String.ofList (s.toList.filter printable) := by
  have hfilter : (toStdString s).filter isprint =
      (s.toList.filter printable).flatMap String.utf8EncodeChar := by
    rw [toStdString]
    induction s.toList with
    | nil => rfl
    | cons c chars ih =>
      rw [List.flatMap_cons, List.filter_append, ih, filter_utf8EncodeChar, List.filter_cons]
      cases printable c with
      | true => rw [if_pos rfl, if_pos rfl, List.flatMap_cons]
      | false => rw [if_neg Bool.false_ne_true, if_neg Bool.false_ne_true, List.nil_append]
  have hloop := removeLoop_eq [] (toStdString s)
  rw [List.nil_append, List.nil_append, List.length_nil] at hloop
  rw [RemoveSpecials, hloop, fromUtf8_c_str fun b hb ↦ (List.mem_filter.mp hb).2, hfilter,
    decodeUtf8_flatMap]

/-! ## A name -/

theorem printable_of_lookup {c letter : Char} (h : turkish.lookup c = some letter) :
    printable letter = true := by
  have hletters : ∀ p ∈ turkish, printable p.2 = true := by decide +kernel
  obtain ⟨l₁, l₂, htable, -⟩ := List.lookup_eq_some_iff.mp h
  exact hletters (c, letter) (htable ▸ by simp)

theorem cleanQString_eq_filterMap (s : QString) :
    cleanQString s = String.ofList (s.toList.filterMap cleanChar) := by
  rw [cleanQString, RemoveSpecials_eq, changeTrCharacters_eq, String.toList_ofList,
    ← List.filterMap_eq_filter, List.filterMap_map]
  refine congrArg String.ofList (List.filterMap_congr fun c _ ↦ ?_)
  rw [cleanChar, Function.comp_apply]
  cases hc : turkish.lookup c with
  | none => rfl
  | some letter =>
    rw [Option.getD_some, Option.guard, printable_of_lookup hc]
    rfl

theorem printable_of_cleanChar {c c' : Char} (h : cleanChar c = some c') :
    printable c' = true := by
  rw [cleanChar] at h
  cases hc : turkish.lookup c with
  | none =>
    rw [hc] at h
    obtain ⟨hprint, hc'⟩ := Option.ite_none_right_eq_some.mp h
    rw [Option.some.injEq] at hc'
    exact hc' ▸ hprint
  | some letter =>
    rw [hc, Option.some.injEq] at h
    exact h ▸ printable_of_lookup hc

theorem cleanChar_of_printable {c : Char} (h : printable c = true) : cleanChar c = some c := by
  have hkeys : ∀ p ∈ turkish, printable p.1 = false := by decide +kernel
  have hc : turkish.lookup c = none := List.lookup_eq_none_iff.mpr fun p hp ↦
    bne_iff_ne.mpr fun hcp ↦ by
      rw [hcp, hkeys p hp] at h
      cases h
  rw [cleanChar, hc]
  exact if_pos h

/-- **What cleaning does.** A cleaned name is the name with every character replaced, kept or
dropped by itself. It is printable ASCII, and cleaning it again changes nothing. -/
theorem cleanQString_charwise (s : QString) :
    cleanQString s = String.ofList (s.toList.filterMap cleanChar) ∧
      (∀ c ∈ (cleanQString s).toList, 0x20 ≤ c.toNat ∧ c.toNat ≤ 0x7e) ∧
      cleanQString (cleanQString s) = cleanQString s := by
  have hprint : ∀ c ∈ (cleanQString s).toList, printable c = true := by
    intro c hc
    rw [cleanQString_eq_filterMap, String.toList_ofList, List.mem_filterMap] at hc
    obtain ⟨c', -, hc'⟩ := hc
    exact printable_of_cleanChar hc'
  refine ⟨cleanQString_eq_filterMap s, fun c hc ↦ of_decide_eq_true (hprint c hc), ?_⟩
  rw [cleanQString_eq_filterMap (cleanQString s),
    List.filterMap_congr fun c hc ↦ cleanChar_of_printable (hprint c hc), List.filterMap_some,
    String.ofList_toList]

example : cleanQString "Ağ bağdaştırıcısı – 1" = "Ag bagdastiricisi  1" := by
  rw [cleanQString_eq_filterMap]
  decide +kernel

end NetworkTools

end OtTcpListener
