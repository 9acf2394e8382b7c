import OtTcpListener.Platform.StdString

/-!
# URLs

The constructor of `Request` takes a URL apart by four searches, for `://`, `#`, `/` and `:`. Each
works on what the ones before have left, so the parts are free of certain characters, and a
`Request` carries that with it.

`Request.url` writes a request out again, and the constructor reads it back (`ofUrl_url_ofUrl`).
-/

namespace OtTcpListener

open Bytes

namespace Http

/-! ## Searching for a string -/

/-- `find` of a string. `none` is `npos`. -/
def findStr (pattern : Bytes) : Bytes → Option ℕ
  | [] => if pattern = [] then some 0 else none
  | b :: str =>
    if pattern.isPrefixOf (b :: str) then some 0 else (findStr pattern str).map (· + 1)

variable {pattern str : Bytes} {k : ℕ}

theorem eq_of_findStr (h : findStr pattern str = some k) :
    str = str.take k ++ pattern ++ str.drop (k + pattern.length) := by
  induction str generalizing k with
  | nil =>
    rw [findStr] at h
    split at h
    · next hnil => rw [hnil, List.take_nil, List.drop_nil]; rfl
    · cases h
  | cons b str ih =>
    rw [findStr] at h
    split at h
    · next hbegins =>
      obtain ⟨rest, hrest⟩ := List.isPrefixOf_iff_prefix.mp hbegins
      rw [← Option.some.inj h, List.take_zero, List.nil_append, Nat.zero_add, ← hrest,
        List.drop_left]
    · obtain ⟨j, hj, rfl⟩ := Option.map_eq_some_iff.mp h
      rw [List.take_succ_cons, List.cons_append, List.cons_append, Nat.succ_add,
        List.drop_succ_cons, ← ih hj]

/-- Only what lies before the end of the first match decides where it is. -/
theorem findStr_take_append (h : findStr pattern str = some k) (rest : Bytes) :
    findStr pattern (str.take k ++ pattern ++ rest) = some k := by
  induction str generalizing k with
  | nil =>
    rw [findStr] at h
    split at h
    · next hnil =>
      rw [← Option.some.inj h, hnil, List.take_zero, List.nil_append, List.nil_append]
      cases rest <;> rfl
    · cases h
  | cons b str ih =>
    rw [findStr] at h
    split at h
    · next hbegins =>
      rw [← Option.some.inj h, List.take_zero, List.nil_append]
      cases hcons : pattern ++ rest with
      | nil => rw [findStr, if_pos (List.append_eq_nil_iff.mp hcons).1]
      | cons c tail =>
        rw [findStr, if_pos (List.isPrefixOf_iff_prefix.mpr (hcons ▸ List.prefix_append _ _))]
    · next hbegins =>
      obtain ⟨j, hj, rfl⟩ := Option.map_eq_some_iff.mp h
      rw [List.take_succ_cons, List.cons_append, List.cons_append, findStr, ih hj, if_neg]
      · rfl
      · -- a match that began earlier would lie before the end of this one
        intro hpre
        refine hbegins (List.isPrefixOf_iff_prefix.mpr ?_)
        have hfull := eq_of_findStr hj
        have hle : pattern.length ≤ (b :: (str.take j ++ pattern)).length := by
          rw [List.length_cons, List.length_append]
          omega
        have hboth : b :: (str.take j ++ pattern) <+: b :: str :=
          ⟨str.drop (j + pattern.length), by rw [List.cons_append, ← hfull]⟩
        have hshort : pattern <+: b :: (str.take j ++ pattern) :=
          List.prefix_of_prefix_length_le (List.isPrefixOf_iff_prefix.mp hpre)
            ⟨rest, by rw [List.cons_append]⟩ hle
        exact hshort.trans hboth

/-! ## Cutting at a character -/

/-- What lies before the first `c`, and all from there on if there is one. -/
def cut (c : UInt8) (str : Bytes) : Bytes × Option Bytes :=
  match find str c 0 with
  | none => (str, none)
  | some pos => (str.take pos, some (str.drop pos))

variable {c : UInt8}

/-- What the two sides of a cut are. -/
theorem cut_cases (c : UInt8) (str : Bytes) :
    (c ∉ str ∧ cut c str = (str, none)) ∨
      ∃ front rest, c ∉ front ∧ str = front ++ c :: rest ∧
        cut c str = (front, some (c :: rest)) := by
  rw [cut]
  cases hfind : find str c 0 with
  | none => exact .inl ⟨find_eq_none_iff.mp hfind, rfl⟩
  | some pos =>
    obtain ⟨-, -, hfront, heq⟩ := drop_of_find_eq_some hfind
    rw [List.drop_zero, Nat.sub_zero] at hfront heq
    refine .inr ⟨str.take pos, str.drop (pos + 1), hfront, heq, ?_⟩
    have hdrop : str.drop pos = c :: str.drop (pos + 1) :=
      List.append_cancel_left ((List.take_append_drop pos str).trans heq)
    rw [← hdrop]

theorem cut_append {front : Bytes} (h : c ∉ front) (rest : Bytes) :
    cut c (front ++ c :: rest) = (front, some (c :: rest)) := by
  rw [cut, find_append_cons h]
  dsimp only
  rw [List.take_left, List.drop_left]

theorem cut_of_notMem (h : c ∉ str) : cut c str = (str, none) := by
  rw [cut, find_eq_none_iff.mpr h]

theorem notMem_cut (c : UInt8) (str : Bytes) : c ∉ (cut c str).1 := by
  rcases cut_cases c str with ⟨h, heq⟩ | ⟨front, rest, h, -, heq⟩ <;> rw [heq] <;> exact h

theorem subset_cut (c : UInt8) (str : Bytes) : (cut c str).1 ⊆ str := by
  rcases cut_cases c str with ⟨-, heq⟩ | ⟨front, rest, -, hstr, heq⟩ <;> rw [heq]
  · exact List.Subset.refl str
  · rw [hstr]
    exact List.subset_append_left _ _

theorem subset_of_cut {rest : Bytes} (h : (cut c str).2 = some rest) : rest ⊆ str := by
  rcases cut_cases c str with ⟨-, heq⟩ | ⟨front, tail, -, hstr, heq⟩ <;> rw [heq] at h <;> cases h
  rw [hstr]
  exact List.subset_append_right _ _

theorem head?_of_cut {rest : Bytes} (h : (cut c str).2 = some rest) : rest.head? = some c := by
  rcases cut_cases c str with ⟨-, heq⟩ | ⟨front, tail, -, hstr, heq⟩ <;> rw [heq] at h <;> cases h
  rfl

/-! ## The constructor -/

/-- The members of a `Request`. -/
@[ext]
structure Request where
  scheme : Bytes
  domain : Bytes
  port : Bytes
  path : Bytes
  notMem_domain : 35 ∉ domain ∧ 47 ∉ domain ∧ 58 ∉ domain
  notMem_port : 35 ∉ port ∧ 47 ∉ port
  notMem_path : 35 ∉ path
  head?_path : path.head? = some 47
  deriving DecidableEq

/-- The scheme, and what follows `://`. -/
def schemeOf (url : Bytes) : Bytes × Bytes :=
  match findStr (ascii "://") url with
  | some schemeEndPosition => (url.take schemeEndPosition, url.drop (schemeEndPosition + 3))
  | none => (ascii "http", url)

namespace Request

/-- The constructor: the fragment is removed, and then the path and the port are split off. -/
def ofUrl (url : Bytes) : Request :=
  let path := (cut 35 (schemeOf url).2).1
  let authority := (cut 47 path).1
  have hpath : 35 ∉ path := notMem_cut 35 _
  have hauthority : 35 ∉ authority ∧ 47 ∉ authority :=
    ⟨fun h ↦ hpath (subset_cut 47 path h), notMem_cut 47 path⟩
  { scheme := (schemeOf url).1
    domain := (cut 58 authority).1
    port := ((cut 58 authority).2.map List.tail).getD (ascii "80")
    path := (cut 47 path).2.getD [47]
    notMem_domain := ⟨fun h ↦ hauthority.1 (subset_cut 58 _ h),
      fun h ↦ hauthority.2 (subset_cut 58 _ h), notMem_cut 58 authority⟩
    notMem_port := by
      cases hport : (cut 58 authority).2 with
      | none => decide
      | some port =>
        have hsub {b : UInt8} (h : b ∈ port.tail) : b ∈ authority :=
          subset_of_cut hport (List.mem_of_mem_tail h)
        exact ⟨fun h ↦ hauthority.1 (hsub h), fun h ↦ hauthority.2 (hsub h)⟩
    notMem_path := by
      cases hrest : (cut 47 path).2 with
      | none => decide
      | some rest => exact fun h ↦ hpath (subset_of_cut hrest h)
    head?_path := by
      cases hrest : (cut 47 path).2 with
      | none => rfl
      | some rest => exact head?_of_cut hrest }

/-- A request as a URL with all its parts, and any fragment. -/
def url (r : Request) (fragment : Bytes) : Bytes :=
  r.scheme ++ ascii "://" ++ (r.domain ++ 58 :: r.port ++ r.path ++ 35 :: fragment)

/-- A URL is read back if its scheme ends where `://` is found. -/
theorem ofUrl_url (r : Request)
    (hscheme : findStr (ascii "://") (r.scheme ++ ascii "://") = some r.scheme.length)
    (fragment : Bytes) : ofUrl (r.url fragment) = r := by
  have hfind := findStr_take_append hscheme (r.domain ++ 58 :: r.port ++ r.path ++ 35 :: fragment)
  rw [List.take_left] at hfind
  have hsplit : schemeOf (r.url fragment) =
      (r.scheme, r.domain ++ 58 :: r.port ++ r.path ++ 35 :: fragment) := by
    rw [schemeOf, url, hfind]
    dsimp only
    rw [List.append_assoc, List.take_left, ← List.append_assoc,
      List.drop_left' (by rw [List.length_append]; rfl)]
  have hpath : cut 35 (r.domain ++ 58 :: r.port ++ r.path ++ 35 :: fragment) =
      (r.domain ++ 58 :: r.port ++ r.path, some (35 :: fragment)) := by
    refine cut_append ?_ fragment
    simp only [List.mem_append, List.mem_cons, not_or]
    exact ⟨⟨r.notMem_domain.1, by decide, r.notMem_port.1⟩, r.notMem_path⟩
  obtain ⟨tail, htail⟩ : ∃ tail, r.path = 47 :: tail := by
    have hhead := r.head?_path
    cases hcons : r.path with
    | nil =>
      rw [hcons] at hhead
      cases hhead
    | cons b tail =>
      rw [hcons] at hhead
      exact ⟨tail, by rw [Option.some.inj hhead]⟩
  have hauthority : cut 47 (r.domain ++ 58 :: r.port ++ r.path) =
      (r.domain ++ 58 :: r.port, some r.path) := by
    rw [htail]
    refine cut_append ?_ tail
    simp only [List.mem_append, List.mem_cons, not_or]
    exact ⟨r.notMem_domain.2.1, by decide, r.notMem_port.2⟩
  have hport := cut_append r.notMem_domain.2.2 r.port
  ext1 <;> simp only [ofUrl, hsplit, hpath, hauthority, hport] <;> rfl

/-- **Normal form**: the URL of a request that the constructor has made is read back as that
request, whatever the URL was that it was made from. -/
theorem ofUrl_url_ofUrl (url fragment : Bytes) : ofUrl ((ofUrl url).url fragment) = ofUrl url := by
  refine ofUrl_url _ ?_ fragment
  change findStr (ascii "://") ((schemeOf url).1 ++ ascii "://") = some (schemeOf url).1.length
  rw [schemeOf]
  cases hfind : findStr (ascii "://") url with
  | none =>
    have hhttp : findStr (ascii "://") (ascii "http" ++ ascii "://") = some 4 := by decide +kernel
    exact hhttp
  | some k =>
    have hlength : (url.take k).length = k := by
      have heq := congrArg List.length (eq_of_findStr hfind)
      rw [List.length_append, List.length_append, List.length_take, List.length_drop,
        show (ascii "://").length = 3 from rfl] at heq
      rw [List.length_take]
      omega
    have htake := findStr_take_append hfind []
    rw [List.append_nil] at htake
    dsimp only
    rw [htake, hlength]

end Request

end Http

end OtTcpListener
