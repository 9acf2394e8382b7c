import OtTcpListener.Foundations.Parts
import OtTcpListener.Foundations.Throwing
import OtTcpListener.Platform.StdString

/-!
# Splitting at a character

`split` runs over the matches of a character and slices out what lies between them. It keeps the
place of the last match twice: as the `size_t` from which it searches on, and as the `int` at which
the next slice begins. The two agree below `2 ^ 31`. From there on the `int` is the wrong place: up
to `2 ^ 32` it is negative, which as a `size_t` lies past the end of every string, and `substr`
throws; later it is a place in front of the part, and the slice is too long.

`split_eq` says what comes of every part of every string. For strings shorter than `2 ^ 31` all
slices are the parts themselves, and `split` is the inverse of joining (`split_lossless`).
-/

namespace OtTcpListener

open Bytes Parts Throwing

namespace Tools

/-- The loop of `split`. `i` begins the next slice, and the search for its end begins at `start`. -/
def splitLoop (str : Bytes) (delim : UInt8) (i : ℤ) (start : ℕ) (list : List Bytes) :
    Except StdException (List Bytes) :=
  match _h : find str delim start with
  | none => do
    let last ← substr str (sizeT i) str.length
    return list ++ [last]
  | some pos => do
    let part ← substr str (sizeT i) (sizeTSub pos (sizeT i))
    -- `i = ++pos` narrows a `size_t` to an `int`
    splitLoop str delim (toInt (pos + 1)) (pos + 1) (list ++ [part])
termination_by str.length - start
decreasing_by
  obtain ⟨hle, hlt⟩ := lt_length_of_find _h
  omega

/-- `split`. -/
def split (str : Bytes) (delim : UInt8) : Except StdException (List Bytes) :=
  splitLoop str delim 0 0 []

/-- The slice for the part `x.2` at the offset `x.1`: it begins where the offset is modulo
`2 ^ 32`. -/
def sliced (str : Bytes) (x : ℕ × Bytes) : Bytes :=
  (str.take (x.1 + x.2.length)).drop (x.1 % 2 ^ 32)

/-- What comes of the part `x.2` at the offset `x.1`. -/
def piece (str : Bytes) (x : ℕ × Bytes) : Except StdException Bytes :=
  if x.1 % 2 ^ 32 < 2 ^ 31 then .ok (sliced str x) else .error .out_of_range

/-! ## One slice -/

/-- An offset survives the `int` up to a multiple of `2 ^ 32`, if at all. -/
theorem sizeT_toInt (n : ℕ) :
    sizeT (toInt n) = if n % 2 ^ 32 < 2 ^ 31 then n % 2 ^ 32
      else n % 2 ^ 32 + (2 ^ 64 - 2 ^ 32) := by
  unfold sizeT toInt
  split <;> omega

variable {str : Bytes} {delim : UInt8} {start : ℕ}

/-- The slice up to the end of a part that lies at `start`. -/
theorem substr_eq_piece (hlen : str.length < 2 ^ 63) (stop : ℕ) {n : ℕ} {part : Bytes}
    (hstop : start + part.length = stop) (hle : stop ≤ str.length)
    (hn : sizeT (toInt start) ≤ stop →
      (str.drop (sizeT (toInt start))).take n = (str.take stop).drop (sizeT (toInt start))) :
    substr str (sizeT (toInt start)) n = piece str (start, part) := by
  rw [sizeT_toInt] at hn ⊢
  rw [piece, substr]
  by_cases hfar : start % 2 ^ 32 < 2 ^ 31
  · have hmod := Nat.mod_le start (2 ^ 32)
    rw [if_pos hfar] at hn ⊢
    rw [if_neg (by omega), if_pos hfar, sliced, hn (by omega), hstop]
  · rw [if_neg hfar, if_neg hfar, if_pos (by omega)]

/-- The last slice. -/
theorem substr_last (hlen : str.length < 2 ^ 63) (hle : start ≤ str.length) :
    substr str (sizeT (toInt start)) str.length = piece str (start, str.drop start) := by
  refine substr_eq_piece hlen str.length ?_ le_rfl fun _ ↦ ?_
  · rw [List.length_drop]
    omega
  · rw [List.take_length, List.take_of_length_le (by rw [List.length_drop]; omega)]

/-- The slice in front of a match. -/
theorem substr_part (hlen : str.length < 2 ^ 63) {pos : ℕ} (hle : start ≤ pos)
    (hlt : pos < str.length) :
    substr str (sizeT (toInt start)) (sizeTSub pos (sizeT (toInt start))) =
      piece str (start, (str.drop start).take (pos - start)) := by
  refine substr_eq_piece hlen pos ?_ hlt.le fun hi ↦ ?_
  · rw [List.length_take, List.length_drop]
    omega
  · have hsub : sizeTSub pos (sizeT (toInt start)) = pos - sizeT (toInt start) := by
      unfold sizeTSub
      omega
    rw [hsub, List.take_drop, Nat.add_sub_cancel' hi]

/-! ## The loop -/

theorem splitLoop_of_none {i : ℤ} (h : find str delim start = none) (list : List Bytes) :
    splitLoop str delim i start list =
      (fun last ↦ list ++ [last]) <$> substr str (sizeT i) str.length := by
  rw [splitLoop]
  split
  · rfl
  · rename_i pos hpos
    cases h.symm.trans hpos

theorem splitLoop_of_some {i : ℤ} {pos : ℕ} (h : find str delim start = some pos)
    (list : List Bytes) :
    splitLoop str delim i start list =
      substr str (sizeT i) (sizeTSub pos (sizeT i)) >>= fun part ↦
        splitLoop str delim (toInt (pos + 1)) (pos + 1) (list ++ [part]) := by
  rw [splitLoop]
  split
  · rename_i hnone
    cases h.symm.trans hnone
  · rename_i pos' hpos
    obtain rfl := Option.some.inj (h.symm.trans hpos)
    rfl

/-- From any place on, the loop slices out the parts that begin there. -/
theorem splitLoop_eq (hlen : str.length < 2 ^ 63) (hle : start ≤ str.length)
    (list : List Bytes) :
    splitLoop str delim (toInt start) start list =
      (fun parts ↦ list ++ parts) <$>
        (located start ((str.drop start).splitOn delim)).mapM (piece str) := by
  induction start using find_induction str delim generalizing list with
  | last start hnone =>
    rw [splitLoop_of_none hnone, substr_last hlen hle,
      List.splitOn_eq_singleton (find_eq_none_iff.mp hnone), located, located, List.mapM_cons]
    cases piece str (start, str.drop start) <;> rfl
  | step start pos hsome ih =>
    obtain ⟨hpos, hlt, hfree, hdrop⟩ := drop_of_find_eq_some hsome
    have hend : start + ((str.drop start).take (pos - start)).length + 1 = pos + 1 := by
      rw [List.length_take, List.length_drop]
      omega
    have hparts : (str.drop start).splitOn delim =
        (str.drop start).take (pos - start) :: (str.drop (pos + 1)).splitOn delim :=
      (congrArg (List.splitOn delim) hdrop).trans
        (List.splitOn_append_cons_self_of_not_mem hfree _)
    rw [splitLoop_of_some hsome, substr_part hlen hpos hlt, hparts, located, hend,
      List.mapM_cons]
    cases piece str (start, (str.drop start).take (pos - start)) with
    | error e => rfl
    | ok part =>
      change splitLoop str delim (toInt (pos + 1)) (pos + 1) (list ++ [part]) = _
      rw [ih hlt]
      cases (located (pos + 1) ((str.drop (pos + 1)).splitOn delim)).mapM (piece str) with
      | error e => rfl
      | ok parts => exact congrArg Except.ok (List.append_assoc list [part] parts)

/-- Every string is split into the slices of its parts. -/
theorem split_eq (hlen : str.length < 2 ^ 63) (delim : UInt8) :
    split str delim = (located 0 (str.splitOn delim)).mapM (piece str) := by
  rw [split]
  have hzero : (0 : ℤ) = toInt 0 := rfl
  rw [hzero, splitLoop_eq hlen (Nat.zero_le _), List.drop_zero]
  cases (located 0 (str.splitOn delim)).mapM (piece str) <;> rfl

/-! ## The slices and the parts -/

/-- When `split` returns, and what it returns then. -/
theorem split_eq_ok_iff (hlen : str.length < 2 ^ 63) {list : List Bytes} :
    split str delim = .ok list ↔ (∀ x ∈ located 0 (str.splitOn delim), x.1 % 2 ^ 32 < 2 ^ 31) ∧
      list = (located 0 (str.splitOn delim)).map (sliced str) := by
  rw [split_eq hlen, mapM_eq_ok_iff]
  have hpieces (h : ∀ x ∈ located 0 (str.splitOn delim), x.1 % 2 ^ 32 < 2 ^ 31) :
      (located 0 (str.splitOn delim)).map (piece str) =
        ((located 0 (str.splitOn delim)).map (sliced str)).map Except.ok := by
    rw [List.map_map, List.map_inj_left]
    exact fun x hx ↦ if_pos (h x hx)
  constructor
  · intro h
    have hbelow : ∀ x ∈ located 0 (str.splitOn delim), x.1 % 2 ^ 32 < 2 ^ 31 := by
      intro x hx
      by_contra hfar
      have hmem := List.mem_map_of_mem (f := piece str) hx
      rw [h, piece, if_neg hfar, List.mem_map] at hmem
      obtain ⟨part, -, hpart⟩ := hmem
      cases hpart
    rw [hpieces hbelow] at h
    exact ⟨hbelow, (List.map_injective_iff.mpr (fun _ _ ↦ Except.ok.inj) h).symm⟩
  · rintro ⟨hbelow, rfl⟩
    exact hpieces hbelow

/-- A slice ends in the part. In front of it stands some of what precedes the part when the `int`
has wrapped around. -/
theorem exists_sliced_eq {x : ℕ × Bytes} (hx : x ∈ located 0 (str.splitOn delim)) :
    ∃ front, front.length = x.1 ∧ (front = [] ∨ ∃ before, front = before ++ [delim]) ∧
      sliced str x = front.drop (x.1 % 2 ^ 32) ++ x.2 := by
  obtain ⟨front, back, hstr, hlen, hend⟩ := exists_of_mem_located (d := delim) hx
  rw [List.intercalate_splitOn] at hstr
  rw [Nat.zero_add] at hlen
  refine ⟨front, hlen, hend, ?_⟩
  have hmod := Nat.mod_le front.length (2 ^ 32)
  rw [sliced, hstr, ← hlen, List.take_left' List.length_append, List.drop_append_of_le_length hmod]

/-- A slice is the part exactly if the offset has not wrapped around. -/
theorem sliced_eq_iff {x : ℕ × Bytes} (hx : x ∈ located 0 (str.splitOn delim)) :
    sliced str x = x.2 ↔ x.1 < 2 ^ 32 := by
  obtain ⟨front, hlen, -, hslice⟩ := exists_sliced_eq hx
  rw [hslice]
  constructor
  · intro h
    have hlength := congrArg List.length h
    rw [List.length_append, List.length_drop, hlen] at hlength
    omega
  · intro h
    rw [Nat.mod_eq_of_lt h, ← hlen, List.drop_length, List.nil_append]

/-- A string is split into its parts exactly if every part begins at an offset that is an `int`. -/
theorem split_eq_ok_splitOn_iff (hlen : str.length < 2 ^ 63) :
    split str delim = .ok (str.splitOn delim) ↔
      ∀ x ∈ located 0 (str.splitOn delim), x.1 < 2 ^ 31 := by
  have hparts : str.splitOn delim = (located 0 (str.splitOn delim)).map (sliced str) ↔
      ∀ x ∈ located 0 (str.splitOn delim), x.1 < 2 ^ 32 := by
    conv_lhs => lhs; rw [← map_snd_located 0 (str.splitOn delim)]
    rw [eq_comm, List.map_inj_left]
    exact forall₂_congr fun x hx ↦ sliced_eq_iff hx
  rw [split_eq_ok_iff hlen, hparts, ← forall₂_and]
  exact forall₂_congr fun x _ ↦ by omega

theorem split_of_lt (hlen : str.length < 2 ^ 31) :
    split str delim = .ok (str.splitOn delim) := by
  rw [split_eq_ok_splitOn_iff (hlen.trans (by norm_num))]
  intro x hx
  obtain ⟨front, back, hstr, hoff, -⟩ := exists_of_mem_located (d := delim) hx
  rw [List.intercalate_splitOn] at hstr
  rw [hstr, List.length_append, List.length_append] at hlen
  omega

/-- **Splitting is lossless.** Below `2 ^ 31` bytes a string is split into the only non-empty list
of parts without the delimiter that joins to it, and a joined list is split into its parts. -/
theorem split_lossless (delim : UInt8) :
    (∀ str : Bytes, str.length < 2 ^ 31 → ∃ parts,
      split str delim = .ok parts ∧ parts.length = str.count delim + 1 ∧
        ∀ parts', parts' = parts ↔
          parts' ≠ [] ∧ (∀ p ∈ parts', delim ∉ p) ∧ [delim].intercalate parts' = str) ∧
    ∀ parts : List Bytes, parts ≠ [] → (∀ p ∈ parts, delim ∉ p) →
      ([delim].intercalate parts).length < 2 ^ 31 →
        split ([delim].intercalate parts) delim = .ok parts := by
  constructor
  · intro str hlen
    exact ⟨str.splitOn delim, split_of_lt hlen, length_splitOn str delim, fun _ ↦ eq_splitOn_iff⟩
  · intro parts hne hfree hlen
    rw [split_of_lt hlen, List.splitOn_intercalate delim hfree hne]

theorem split_lossless_dots :
    (∃ parts, split (ascii ".10..1") 46 = .ok parts ∧ parts.length = 4 ∧
      ∀ parts', parts' = parts ↔ parts' ≠ [] ∧ (∀ p ∈ parts', 46 ∉ p) ∧
        [46].intercalate parts' = ascii ".10..1") ∧
    split (ascii ".10..1") 46 = .ok [ascii "", ascii "10", ascii "", ascii "1"] := by
  obtain ⟨hsplit, hjoined⟩ := split_lossless 46
  have hjoin : ascii ".10..1" =
      [46].intercalate [ascii "", ascii "10", ascii "", ascii "1"] := by decide
  refine ⟨hsplit _ (by decide), ?_⟩
  rw [hjoin]
  exact hjoined _ (by decide) (by decide) (by decide)

end Tools

end OtTcpListener
