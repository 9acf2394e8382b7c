import OtTcpListener.Foundations.Marks
import OtTcpListener.Tools.CleanName

/-!
# Installed software

On Linux, `getInstalledSoftware` runs a script that prints a line `name=...` for each program, takes
the line breaks out of all that it prints, and cuts the rest at `name=`. Each part is cleaned and
kept if it is new, not empty and does not begin with `#`.

`ExecShell` reads the output with `fgets` and appends each piece as a C string, so of a piece with a
NUL in it the rest is lost. Other bytes arrive as they are (`execLoop_eq_iff`).
-/

namespace OtTcpListener

open Bytes

namespace QString

/-- `QString::remove` of a character. -/
def remove (s : QString) (c : Char) : QString := String.ofList (s.toList.filter (· ≠ c))

/-- `QString::split` at a text that is not empty. -/
def splitString (s sep : QString) : List QString :=
  (Marks.cut sep.toList s.toList).map String.ofList

end QString

namespace NetworkTools

/-! ## The code -/

/-- `fgets`, with room for `n` bytes in front of the NUL: the bytes read and what is left. -/
def fgets : ℕ → Bytes → Bytes × Bytes
  | 0, stream => ([], stream)
  | _ + 1, [] => ([], [])
  | n + 1, b :: stream =>
    if b = 10 then ([10], stream)
    else
      let (buffer, rest) := fgets n stream
      (b :: buffer, rest)

/-- What is read is what is no longer left. -/
theorem fgets_append (n : ℕ) (stream : Bytes) :
    (fgets n stream).1 ++ (fgets n stream).2 = stream := by
  induction n generalizing stream with
  | zero => rfl
  | succ n ih =>
    cases stream with
    | nil => rfl
    | cons b stream =>
      rw [fgets]
      split
      · next hb => rw [hb]; rfl
      · exact congrArg (b :: ·) (ih stream)

theorem length_fgets_lt {n : ℕ} {stream : Bytes} (h : stream ≠ []) :
    (fgets (n + 1) stream).2.length < stream.length := by
  obtain ⟨b, stream, rfl⟩ := List.exists_cons_of_ne_nil h
  have hrest := congrArg List.length (fgets_append n stream)
  rw [List.length_append] at hrest
  rw [fgets, List.length_cons]
  split
  · exact Nat.lt_succ_self _
  · dsimp only
    omega

/-- The loop of `NetworkTools::ExecShell`. -/
def execLoop (stream : Bytes) : Bytes :=
  if _h : stream = [] then []
  else
    let read := fgets 127 stream
    c_str read.1 ++ execLoop read.2
termination_by stream.length
decreasing_by exact length_fgets_lt _h

/-- `NetworkTools::ExecShell`, from what the command prints. `none` is a `popen` that has failed,
and the exception thrown then. -/
def ExecShell (output : Option Bytes) : Option Bytes := output.map execLoop

/-- The body of the loop over `sw_list`. -/
def appendSoftware (softwares : List QString) (sw : QString) : List QString :=
  let sw := cleanQString sw
  if sw ≠ "" ∧ sw ∉ softwares ∧ sw.toList.head? ≠ some '#' then softwares ++ [sw] else softwares

/-- `NetworkTools::getInstalledSoftware` on Linux, from what the script prints. -/
def getInstalledSoftware (output : Option Bytes) : Option (List QString) :=
  (ExecShell output).map fun result ↦
    let res := QString.remove (fromUtf8 (c_str result)) '\n'
    let sw_list := QString.splitString res "name="
    sw_list.foldl appendSoftware []

/-! ## Reading the output -/

theorem notMem_c_str (bytes : Bytes) : 0 ∉ c_str bytes := by
  intro h
  have hne : (c_str bytes).all (· ≠ 0) = true := List.all_takeWhile
  exact absurd rfl (of_decide_eq_true (List.all_eq_true.mp hne 0 h))

theorem notMem_execLoop (stream : Bytes) : 0 ∉ execLoop stream := by
  induction hlen : stream.length using Nat.strong_induction_on generalizing stream with
  | _ n ih =>
    rw [execLoop]
    split
    · exact List.not_mem_nil
    · next hne =>
      rw [List.mem_append, not_or]
      exact ⟨notMem_c_str _, ih _ (by rw [← hlen]; exact length_fgets_lt hne) _ rfl⟩

theorem c_str_of_notMem {bytes : Bytes} (h : 0 ∉ bytes) : c_str bytes = bytes :=
  List.takeWhile_eq_self_iff.mpr fun _ hb ↦ decide_eq_true fun hnul ↦ h (hnul ▸ hb)

/-- **Nothing but a NUL is lost**, however long the lines are. -/
theorem execLoop_eq_iff (stream : Bytes) : execLoop stream = stream ↔ 0 ∉ stream := by
  constructor
  · intro h
    rw [← h]
    exact notMem_execLoop stream
  · intro h
    induction hlen : stream.length using Nat.strong_induction_on generalizing stream with
    | _ n ih =>
      rw [execLoop]
      split
      · next hnil => exact hnil.symm
      · next hne =>
        have happend := fgets_append 127 stream
        rw [← happend, List.mem_append, not_or] at h
        dsimp only
        rw [c_str_of_notMem h.1, ih _ (by rw [← hlen]; exact length_fgets_lt hne) _ h.2 rfl,
          happend]

/-! ## The list -/

/-- What may be on the list. -/
def listed (sw : QString) : Bool := sw ≠ "" ∧ sw.toList.head? ≠ some '#'

/-- **The loop**: what may be listed is, where it first occurs. -/
theorem foldl_appendSoftware (sw_list : List QString) :
    sw_list.foldl appendSoftware [] = ((sw_list.map cleanQString).filter listed).eraseDups := by
  induction sw_list using List.reverseRecOn with
  | nil => rfl
  | append_singleton sw_list sw ih =>
    rw [List.foldl_append, ih, List.foldl_cons, List.foldl_nil, appendSoftware, List.map_append,
      List.map_singleton, List.filter_append, List.eraseDups_append]
    cases hlisted : listed (cleanQString sw) with
    | false =>
      rw [if_neg, List.filter_cons_of_neg (by rw [hlisted]; exact Bool.false_ne_true)]
      · exact (List.append_nil _).symm
      · rw [listed, decide_eq_false_iff_not] at hlisted
        exact fun h ↦ hlisted ⟨h.1, h.2.2⟩
    | true =>
      obtain ⟨hne, hhash⟩ := of_decide_eq_true hlisted
      rw [List.filter_cons_of_pos hlisted, List.filter_nil]
      by_cases hold : cleanQString sw ∈ (sw_list.map cleanQString).filter listed
      · have hgone : [cleanQString sw].removeAll ((sw_list.map cleanQString).filter listed) = [] :=
          List.filter_cons_of_neg (by rw [List.elem_eq_mem, decide_eq_true hold]; decide)
        rw [if_neg fun h ↦ h.2.1 (List.mem_eraseDups.mpr hold), hgone]
        exact (List.append_nil _).symm
      · have hnew : [cleanQString sw].removeAll ((sw_list.map cleanQString).filter listed) =
            [cleanQString sw] :=
          List.filter_cons_of_pos (by rw [List.elem_eq_mem, decide_eq_false hold]; rfl)
        rw [if_pos ⟨hne, mt List.mem_eraseDups.mp hold, hhash⟩, hnew]
        rfl

/-- The list, from what has been read. -/
theorem getInstalledSoftware_some (output : Bytes) :
    getInstalledSoftware (some output) = some ((((QString.splitString
      (QString.remove (fromUtf8 (execLoop output)) '\n') "name=").map cleanQString).filter
        listed).eraseDups) := by
  rw [← foldl_appendSoftware, getInstalledSoftware, ExecShell, Option.map_some, Option.map_some,
    c_str_of_notMem (notMem_execLoop output)]

/-- The line that the script prints for a program. -/
def echo (name : QString) : Bytes := toStdString ("name=" ++ name ++ "\n")

theorem zero_notMem_toStdString {s : QString} (h : '\x00' ∉ s.toList) : 0 ∉ toStdString s := by
  rw [toStdString, List.mem_flatMap]
  rintro ⟨c, hc, hzero⟩
  by_cases hascii : c.toNat ≤ 0x7f
  · rw [utf8EncodeChar_of_le hascii, List.mem_singleton] at hzero
    have hnat := congrArg UInt8.toNat hzero
    rw [UInt8.toNat_ofNat_of_lt' (by rw [UInt8.size]; omega)] at hnat
    have hchar : c = '\x00' := Char.toNat_inj.mp hnat.symm
    exact h (hchar ▸ hc)
  · exact absurd (le_of_mem_utf8EncodeChar (Nat.not_le.mp hascii) hzero) (by decide)

/-- The characters of the line. -/
def echoLine (name : QString) : List Char := "name=".toList ++ name.toList ++ ['\n']

theorem flatMap_echo (names : List QString) :
    names.flatMap echo = (names.flatMap echoLine).flatMap String.utf8EncodeChar := by
  rw [List.flatMap_assoc]
  refine List.flatMap_congr fun name _ ↦ ?_
  rw [echo, toStdString, String.toList_append, String.toList_append]
  rfl

theorem zero_notMem_flatMap_echo {names : List QString}
    (h : ∀ name ∈ names, '\x00' ∉ name.toList) : 0 ∉ names.flatMap echo := by
  rw [List.mem_flatMap]
  rintro ⟨name, hname, hzero⟩
  refine zero_notMem_toStdString ?_ hzero
  rw [String.toList_append, String.toList_append, List.mem_append, List.mem_append, not_or, not_or]
  exact ⟨⟨by decide, h name hname⟩, by decide⟩

/-- What `ExecShell` returns of the lines is all of them. -/
theorem fromUtf8_execLoop_echo {names : List QString} (h : ∀ name ∈ names, '\x00' ∉ name.toList) :
    fromUtf8 (execLoop (names.flatMap echo)) = String.ofList (names.flatMap echoLine) := by
  -- the first byte is that of a letter
  have hmark : [0xef, 0xbb, 0xbf].isPrefixOf (names.flatMap echo) = false := by
    rw [flatMap_echo]
    cases names <;> rfl
  rw [(execLoop_eq_iff _).mpr (zero_notMem_flatMap_echo h), fromUtf8, hmark,
    if_neg Bool.false_ne_true, flatMap_echo, decodeUtf8_flatMap]

/-- Without its ends of lines, a line is the mark and the name. -/
theorem filter_echoLine {names : List QString} (h : ∀ name ∈ names, '\n' ∉ name.toList) :
    (names.flatMap echoLine).filter (· ≠ '\n') =
      (names.map String.toList).flatMap ("name=".toList ++ ·) := by
  rw [List.filter_flatMap, List.flatMap_map]
  refine List.flatMap_congr fun name hname ↦ ?_
  have hkeep : name.toList.filter (· ≠ '\n') = name.toList :=
    List.filter_eq_self.mpr fun c hc ↦ decide_eq_true fun hline ↦ h name hname (hline ▸ hc)
  rw [echoLine, List.filter_append, List.filter_append, hkeep]
  exact List.append_nil _

/-- Cutting at the mark gives the names back, behind an empty part. -/
theorem cut_names {names : List QString} (h : ∀ name ∈ names, ¬"name=".toList <:+: name.toList) :
    Marks.cut "name=".toList ((names.map String.toList).flatMap ("name=".toList ++ ·)) =
      [] :: names.map String.toList := by
  rw [← List.nil_append (List.flatMap _ _)]
  refine Marks.cut_flatMap (by decide) (List.forall_mem_cons.mpr ⟨?_, fun part hpart ↦ ?_⟩)
  · rw [List.infix_nil]
    exact List.cons_ne_nil _ _
  · obtain ⟨name, hname, rfl⟩ := List.mem_map.mp hpart
    exact h name hname

/-- **The programs are found again.** -/
theorem getInstalledSoftware_echo {names : List QString}
    (h : ∀ name ∈ names, '\n' ∉ name.toList ∧ '\x00' ∉ name.toList ∧
      ¬"name=".toList <:+: name.toList) :
    getInstalledSoftware (some (names.flatMap echo)) =
      some ((names.map cleanQString).filter listed).eraseDups := by
  have hread := fromUtf8_execLoop_echo fun name hname ↦ (h name hname).2.1
  have htext : (QString.remove (fromUtf8 (execLoop (names.flatMap echo))) '\n').toList =
      (names.map String.toList).flatMap ("name=".toList ++ ·) := by
    rw [hread]
    exact String.toList_ofList.trans ((congrArg (List.filter _) String.toList_ofList).trans
      (filter_echoLine fun name hname ↦ (h name hname).1))
  have hparts : QString.splitString (QString.remove (fromUtf8 (execLoop (names.flatMap echo))) '\n')
      "name=" = "" :: names := by
    rw [QString.splitString, htext, cut_names fun name hname ↦ (h name hname).2.2, List.map_cons,
      List.map_map]
    exact congrArg _ (List.map_id'' (fun s ↦ String.ofList_toList) names)
  -- what stands before the first mark is empty, and left out
  have hempty : listed (cleanQString "") = false := by decide +kernel
  rw [getInstalledSoftware_some, hparts, List.map_cons,
    List.filter_cons_of_neg (by rw [hempty]; exact Bool.false_ne_true)]

/-- The same program twice, one without a name, and one that is left out. -/
theorem getInstalledSoftware_echo_two :
    getInstalledSoftware (some (["Düzenleyici", "", "Düzenleyici", "#1"].flatMap echo)) =
      some ((["Düzenleyici", "", "Düzenleyici", "#1"].map cleanQString).filter listed).eraseDups :=
  getInstalledSoftware_echo (by decide +kernel)

end NetworkTools

end OtTcpListener
