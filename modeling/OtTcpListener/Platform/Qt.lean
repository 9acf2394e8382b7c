import OtTcpListener.Platform.Host

/-!
# Qt texts and objects

The part of Qt that the decoder writes its results with. A `QString` is a string, a `QStringList` a
list of them, and a `QJsonObject` a finite partial map from keys to texts: the sources store nothing
but strings in theirs.
-/

namespace OtTcpListener

/-- A `QString`. The null string is the empty one: the sources only ever ask `isEmpty`. -/
abbrev QString := String

namespace QString

/-- `QString::number` of an integer. -/
def number (n : ℤ) : QString := n.repr

theorem number_injective : Function.Injective number := fun _ _ h ↦ Int.repr_injective h

/-- `QString::split` at a one-character separator. -/
def split (s : QString) (sep : Char) : List QString := (s.toList.splitOn sep).map String.ofList

/-- `QStringList::join` with a one-character separator. -/
def join (l : List QString) (sep : Char) : QString := (String.singleton sep).intercalate l

/-- `QString::replace` of one character by another. -/
def replace (s : QString) (before after : Char) : QString :=
  String.ofList (s.toList.map fun c ↦ if c = before then after else c)

/-- Splitting undoes joining when no part contains the separator. -/
theorem split_join {l : List QString} {sep : Char} (hl : ∀ s ∈ l, sep ∉ s.toList) (hne : l ≠ []) :
    split (join l sep) sep = l := by
  have hparts : ∀ s ∈ l.map String.toList, sep ∉ s := by simpa using hl
  rw [split, join, String.toList_intercalate, String.toList_singleton,
    List.splitOn_intercalate sep hparts (by simpa using hne), List.map_map]
  exact List.map_id'' (fun s ↦ String.ofList_toList) l

/-- Joining loses nothing when no part contains the separator. -/
theorem join_injective {l l' : List QString} {sep : Char} (hl : ∀ s ∈ l, sep ∉ s.toList)
    (hne : l ≠ []) (hl' : ∀ s ∈ l', sep ∉ s.toList) (hne' : l' ≠ [])
    (h : join l sep = join l' sep) : l = l' := by
  rw [← split_join hl hne, h, split_join hl' hne']

/-- A part that is itself joined may as well have been joined with the others. -/
theorem join_append_join {l m : List QString} {sep : Char} (hl : l ≠ []) (hm : m ≠ []) :
    join (l ++ [join m sep]) sep = join (l ++ m) sep := by
  rw [join, join, join, String.intercalate_append_of_ne_nil hl (List.cons_ne_nil _ _),
    String.intercalate_append_of_ne_nil hl hm, String.intercalate_singleton]

/-- A joined text begins with its first part. -/
theorem exists_join_cons (s : QString) (l : List QString) (sep : Char) :
    ∃ t, join (s :: l) sep = s ++ t := by
  cases l with
  | nil => exact ⟨"", by rw [join, String.intercalate_singleton, String.append_empty]⟩
  | cons s' l =>
    refine ⟨String.singleton sep ++ join (s' :: l) sep, ?_⟩
    rw [join, String.intercalate_cons_of_ne_nil (List.cons_ne_nil _ _), String.append_assoc]
    rfl

/-- Splitting at a separator that is there splits both sides of it. -/
theorem split_append (s t : QString) (sep : Char) :
    split (s ++ String.singleton sep ++ t) sep = split s sep ++ split t sep := by
  rw [split, split, split, String.toList_append, String.toList_append, String.toList_singleton,
    List.append_assoc, List.singleton_append, List.splitOn_append_cons_self, List.map_append]

/-- Splitting what has been joined splits the parts. -/
theorem split_join_eq_flatMap {l : List QString} (hne : l ≠ []) (sep : Char) :
    split (join l sep) sep = l.flatMap (split · sep) := by
  induction l with
  | nil => exact absurd rfl hne
  | cons s l ih =>
    cases l with
    | nil => rw [join, String.intercalate_singleton, List.flatMap_singleton]
    | cons t l =>
      rw [join, String.intercalate_cons_of_ne_nil (List.cons_ne_nil _ _), split_append,
        List.flatMap_cons, ← ih (List.cons_ne_nil _ _), join]

/-- A text joined from groups of parts splits into what the groups split into. -/
theorem split_join_flatten {gs : List (List QString)} (hgs : ∀ g ∈ gs, g ≠ []) (hne : gs ≠ [])
    (sep : Char) :
    split (join gs.flatten sep) sep = (gs.map fun g ↦ split (join g sep) sep).flatten := by
  have hflatten : gs.flatten ≠ [] := fun h ↦ by
    obtain ⟨g, hg⟩ := List.exists_mem_of_ne_nil gs hne
    exact hgs g hg (List.flatten_eq_nil_iff.mp h g hg)
  have hsplit : gs.map (fun g ↦ split (join g sep) sep) = gs.map fun g ↦ g.flatMap (split · sep) :=
    List.map_congr_left fun g hg ↦ split_join_eq_flatMap (hgs g hg) sep
  rw [hsplit, split_join_eq_flatMap hflatten, List.flatMap_def, List.map_flatten,
    List.flatten_flatten, List.map_map]
  rfl

/-- A number is written with decimal digits and a minus sign. -/
theorem notMem_number {c : Char} (hdigit : c.isDigit = false) (hminus : c ≠ '-') (n : ℤ) :
    c ∉ (number n).toList := by
  have hnat : ∀ k : ℕ, c ∉ k.repr.toList := fun k hc ↦ by
    rw [Nat.repr_eq_ofList_toDigits, String.toList_ofList] at hc
    rw [Nat.isDigit_of_mem_toDigits (by decide) (by decide) hc] at hdigit
    cases hdigit
  rw [number, Int.repr_eq_if]
  split
  · exact hnat _
  · rw [String.toList_append, List.mem_append]
    rintro (hc | hc)
    · exact hminus (by simpa using hc)
    · exact hnat _ hc

end QString

/-- Two lower-case hexadecimal digits. -/
def hexByte (b : UInt8) : QString :=
  String.ofList [Nat.digitChar (b.toNat / 16), Nat.digitChar (b.toNat % 16)]

theorem hexByte_injective : Function.Injective hexByte := by
  have hdigit : ∀ i j : Fin 16, Nat.digitChar i = Nat.digitChar j → i = j := by decide +kernel
  intro b c h
  have hb := b.toNat_lt
  have hc := c.toNat_lt
  rw [hexByte, hexByte, String.ofList_inj, List.cons.injEq, List.cons.injEq] at h
  have hhi := hdigit ⟨b.toNat / 16, by omega⟩ ⟨c.toNat / 16, by omega⟩ h.1
  have hlo := hdigit ⟨b.toNat % 16, by omega⟩ ⟨c.toNat % 16, by omega⟩ h.2.1
  rw [Fin.mk.injEq] at hhi hlo
  rw [← UInt8.toNat_inj]
  omega

/-- A byte is written with hexadecimal digits. -/
theorem notMem_hexByte {c : Char} (hdigit : ∀ b : Fin 16, c ≠ Nat.digitChar b) (b : UInt8) :
    c ∉ (hexByte b).toList := by
  intro hc
  have hb := b.toNat_lt
  rw [hexByte, String.toList_ofList, List.mem_cons, List.mem_singleton] at hc
  rcases hc with hc | hc
  · exact hdigit ⟨b.toNat / 16, by omega⟩ hc
  · exact hdigit ⟨b.toNat % 16, by omega⟩ hc

/-- `QByteArray::toHex(':')`. -/
def toHex (bytes : List UInt8) : QString := QString.join (bytes.map hexByte) ':'

/-- Bytes are written with hexadecimal digits and colons. -/
theorem notMem_toHex {c : Char} (hdigit : ∀ b : Fin 16, c ≠ Nat.digitChar b) (hcolon : c ≠ ':')
    (bytes : List UInt8) : c ∉ (toHex bytes).toList := by
  induction bytes with
  | nil => exact List.not_mem_nil
  | cons b bytes ih =>
    have hb := notMem_hexByte hdigit b
    rw [toHex, QString.join] at ih ⊢
    cases bytes with
    | nil => rwa [List.map_singleton, String.intercalate_singleton]
    | cons b' bytes =>
      rw [List.map_cons, String.intercalate_cons_of_ne_nil (by simp), String.toList_append,
        String.toList_append, List.mem_append, List.mem_append, not_or, not_or]
      exact ⟨⟨hb, by simpa using hcolon⟩, ih⟩

/-- No byte is written with no digits. -/
theorem toHex_cons_ne_empty (b : UInt8) (bytes : List UInt8) : toHex (b :: bytes) ≠ "" := by
  obtain ⟨t, ht⟩ := QString.exists_join_cons (hexByte b) (bytes.map hexByte) ':'
  rw [toHex, List.map_cons, ht, hexByte, ne_eq, String.append_eq_empty_iff]
  exact fun h ↦ List.cons_ne_nil _ _ (String.ofList_eq_empty_iff.mp h.1)

theorem toHex_injective : Function.Injective toHex := by
  have hcolon : ∀ bytes : List UInt8, ∀ s ∈ bytes.map hexByte, ':' ∉ s.toList := by
    intro bytes s hs
    obtain ⟨b, -, rfl⟩ := List.mem_map.mp hs
    exact notMem_hexByte (by decide) b
  intro xs ys h
  match xs, ys with
  | [], [] => rfl
  | [], y :: ys => exact absurd h.symm (toHex_cons_ne_empty y ys)
  | x :: xs, [] => exact absurd h (toHex_cons_ne_empty x xs)
  | x :: xs, y :: ys =>
    have hparts := QString.join_injective (hcolon _) (by simp) (hcolon _) (by simp) h
    exact List.map_injective_iff.mpr hexByte_injective hparts

/-- A `QJsonObject` whose values are texts. -/
abbrev QJsonObject := String → Option QString

namespace QJsonObject

/-- The object without keys. -/
def empty : QJsonObject := fun _ ↦ none

/-- `insert`, and assignment through `operator[]`. -/
def insert (o : QJsonObject) (key : String) (value : QString) : QJsonObject :=
  Function.update o key (some value)

/-- `value(key).toString()`: the empty text for an absent key. -/
def value (o : QJsonObject) (key : String) : QString := (o key).getD ""

/-- Inserting every entry of `o'` into `o`, as the loop over its iterators does. -/
def insertAll (o o' : QJsonObject) : QJsonObject := fun key ↦ (o' key).or (o key)

@[simp] theorem insert_self (o : QJsonObject) (key : String) (value : QString) :
    o.insert key value key = some value := Function.update_self ..

@[simp] theorem insert_of_ne (o : QJsonObject) {key key' : String} (value : QString)
    (h : key' ≠ key) : o.insert key value key' = o key' := Function.update_of_ne h ..

/-- An inserted entry hides what was there before. -/
theorem value_insertAll_insert_self (o o' : QJsonObject) (key : String) (value : QString) :
    (o.insertAll (o'.insert key value)).value key = value := by
  change (((o'.insert key value) key).or (o key)).getD "" = value
  rw [insert_self, Option.some_or, Option.getD_some]

end QJsonObject

end OtTcpListener
