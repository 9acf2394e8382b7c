import OtTcpListener.Service.Control

/-!
# The commands of a controller

A controller is a program of its own. Each of its functions is one call of `sendCmd`: connect to the
control socket, write a command, wait for something to read, and compare it with `true`.

All commands are ASCII texts without an end of a line of their own, so whatever portions the bytes
arrive in, the service has nothing to execute before the last one, and then executes the command
that was meant (`readyLoop_of_append`, `readyLoop_written`, `execute_cmd`).
-/

namespace OtTcpListener

open Bytes Lines

namespace Service

/-! ## Calls of `sendCmd` -/

/-- What is asked for with `sendCmd`: `QtServiceBasePrivate::start` asks whether a service is there,
and a controller sends the other commands in `stop`, `pause`, `resume` and `sendCommand`. Its
`isRunning` only connects, and sends nothing. -/
inductive Order where
  | alive
  | terminate
  | pause
  | resume
  | num (code : {n : ℤ // -2 ^ 31 ≤ n ∧ n < 2 ^ 31})
  deriving DecidableEq

namespace Order

/-- The argument `cmd` of `sendCmd`. -/
def cmd : Order → QString
  | .alive => "alive"
  | .terminate => "terminate"
  | .pause => "pause"
  | .resume => "resume"
  | .num code => "num:" ++ QString.number code

/-- Whether the service accepts the order. -/
def accepted (serviceFlags : ServiceFlags) : Order → Bool
  | .terminate => !serviceFlags.CannotBeStopped
  | .pause | .resume => serviceFlags.CanBeSuspended
  | .alive | .num _ => true

/-- What an accepted order makes the service do. -/
def call : Order → Option Call
  | .alive => none
  | .terminate => some .stop
  | .pause => some .pause
  | .resume => some .resume
  | .num code => some (.processCommand code)

end Order

/-- A character in Latin-1. One that has no place there becomes a question mark for each of its
units of UTF-16. -/
def latin1Char (c : Char) : Bytes :=
  if c.toNat < 256 then [.ofNat c.toNat] else if c.toNat < 65536 then [63] else [63, 63]

/-- `QString::toLatin1`. -/
def toLatin1 (s : QString) : Bytes := s.toList.flatMap latin1Char

/-- Every character of Latin-1 is one byte. -/
theorem toLatin1_eq_map {s : QString} (h : ∀ c ∈ s.toList, c.toNat < 256) :
    toLatin1 s = s.toList.map fun c ↦ .ofNat c.toNat := by
  rw [toLatin1, List.map_eq_flatMap]
  exact List.flatMap_congr fun c hc ↦ if_pos (h c hc)

/-- The bytes that `sendCmd` writes. -/
def written (o : Order) : Bytes := toLatin1 (o.cmd ++ "\r\n")

/-- The bytes of an answer. -/
def retString (retValue : Bool) : Bytes := toLatin1 (if retValue then "true" else "false")

/-! ### What is written is read -/

/-- The characters of ASCII bytes. -/
def chars (bytes : Bytes) : List Char := bytes.map fun b ↦ .ofNat b.toNat

/-- ASCII bytes are read as what they stand for. -/
theorem readAll_eq_chars {bytes : Bytes} (h : ∀ b ∈ bytes, b ≠ 0 ∧ b ≤ 0x7F) :
    SysPrivate.readAll bytes = chars bytes := by
  have hnul : c_str bytes = bytes :=
    List.takeWhile_eq_self_iff.mpr fun b hb ↦ decide_eq_true (h b hb).1
  have hmark : [0xef, 0xbb, 0xbf].isPrefixOf bytes = false := by
    cases bytes with
    | nil => rfl
    | cons b bytes =>
      rw [List.isPrefixOf, Bool.and_eq_false_iff]
      refine .inl (beq_eq_false_iff_ne.mpr ?_)
      rintro rfl
      exact absurd (h _ List.mem_cons_self).2 (by decide)
  have hencode : (chars bytes).flatMap String.utf8EncodeChar = bytes := by
    rw [chars, List.flatMap_map]
    conv_rhs => rw [← List.flatMap_singleton' bytes]
    refine List.flatMap_congr fun b hb ↦ ?_
    have hle : b.toNat ≤ 0x7F := UInt8.le_iff_toNat_le.mp (h b hb).2
    have hvalue : (Char.ofNat b.toNat).toNat = b.toNat := by
      rw [Char.toNat_ofNat, if_pos (.inl (by omega))]
    rw [utf8EncodeChar_of_le (by rw [hvalue]; exact hle), hvalue, UInt8.ofNat_toNat]
  rw [SysPrivate.readAll, hnul, fromUtf8, hmark, if_neg Bool.false_ne_true, String.toList_ofList]
  conv_lhs => rw [← hencode]
  exact decodeUtf8_flatMap _

/-- The characters of a command: none of them ends a line, and all are ASCII characters. -/
theorem mem_cmd (o : Order) : ∀ c ∈ o.cmd.toList, c ≠ '\r' ∧ 0 < c.toNat ∧ c.toNat < 128 := by
  have hfixed : ∀ s ∈ ["alive", "terminate", "pause", "resume", "num:"], ∀ c ∈ s.toList,
      c ≠ '\r' ∧ 0 < c.toNat ∧ c.toNat < 128 := by simp
  cases o with
  | alive | terminate | pause | resume => exact hfixed _ (by simp [Order.cmd])
  | num code =>
    intro c hc
    rw [Order.cmd, String.toList_append, List.mem_append] at hc
    rcases hc with hc | hc
    · exact hfixed "num:" (by simp) c hc
    · by_cases hminus : c = '-'
      · rw [hminus]
        decide
      · have hdigit : c.isDigit = true := by
          by_contra hno
          exact QString.notMem_number (Bool.eq_false_iff.mpr hno) hminus code.1 hc
        obtain ⟨hlow, hhigh⟩ := toNat_of_isDigit hdigit
        refine ⟨?_, by omega, by omega⟩
        rintro rfl
        exact absurd hlow (by decide)

/-- The bytes written are ASCII, and their characters are the command and the end of a line. -/
theorem written_spec (o : Order) :
    (∀ b ∈ written o, b ≠ 0 ∧ b ≤ 0x7F) ∧ chars (written o) = o.cmd.toList ++ ['\r', '\n'] := by
  have hall : ∀ c ∈ o.cmd.toList ++ ['\r', '\n'], 0 < c.toNat ∧ c.toNat < 128 := by
    intro c hc
    rcases List.mem_append.mp hc with hc | hc
    · exact (mem_cmd o c hc).2
    · exact (show ∀ c ∈ ['\r', '\n'], 0 < c.toNat ∧ c.toNat < 128 from by simp) c hc
  have hlist : (o.cmd ++ "\r\n").toList = o.cmd.toList ++ ['\r', '\n'] := by
    rw [String.toList_append]
    rfl
  have hwritten : written o = (o.cmd.toList ++ ['\r', '\n']).map fun c ↦ .ofNat c.toNat := by
    rw [written, toLatin1_eq_map fun c hc ↦ ?_, hlist]
    rw [hlist] at hc
    exact (hall c hc).2.trans (by decide)
  have hbyte {c : Char} (hc : 0 < c.toNat ∧ c.toNat < 128) :
      (UInt8.ofNat c.toNat).toNat = c.toNat :=
    UInt8.toNat_ofNat_of_lt' (by rw [UInt8.size]; omega)
  constructor
  · intro b hb
    rw [hwritten] at hb
    obtain ⟨c, hc, rfl⟩ := List.mem_map.mp hb
    have hvalue := hbyte (hall c hc)
    have hbound := hall c hc
    refine ⟨fun h ↦ ?_, UInt8.le_iff_toNat_le.mpr (hvalue.trans_le (Nat.le_of_lt_succ hbound.2))⟩
    rw [h] at hvalue
    exact hbound.1.ne hvalue
  · rw [chars, hwritten, List.map_map]
    refine (List.map_congr_left fun c hc ↦ ?_).trans (List.map_id _)
    rw [Function.comp_apply, hbyte (hall c hc), Char.ofNat_toNat]
    rfl

/-- The command is executed as it was meant. -/
theorem execute_cmd (serviceFlags : ServiceFlags) (o : Order) :
    execute serviceFlags o.cmd.toList =
      (o.accepted serviceFlags, if o.accepted serviceFlags then o.call else none) := by
  cases o with
  | alive => rfl
  | terminate => obtain ⟨_, _ | _⟩ := serviceFlags <;> rfl
  | pause => obtain ⟨_ | _, _⟩ := serviceFlags <;> rfl
  | resume => obtain ⟨_ | _, _⟩ := serviceFlags <;> rfl
  | num code =>
    have hlist : (Order.cmd (.num code)).toList =
        "num:".toList ++ (QString.number code).toList := String.toList_append
    have htake : (Order.cmd (.num code)).toList.take 4 = "num:".toList := by
      rw [hlist]
      rfl
    have hdrop : (Order.cmd (.num code)).toList.drop 4 = (QString.number code).toList := by
      rw [hlist]
      rfl
    have hlength : 4 < (Order.cmd (.num code)).toList.length := by
      rw [hlist, List.length_append]
      exact Nat.lt_add_of_pos_right (List.length_pos_iff.mpr (QString.number_ne_nil code.1))
    have hother (s : String) (hs : s.toList.take 4 ≠ "num:".toList) :
        (Order.cmd (.num code)).toList ≠ s.toList := fun h ↦ hs (h ▸ htake)
    rw [execute, if_neg (hother _ (by decide)), if_neg (hother _ (by decide)),
      if_neg (hother _ (by decide)), if_neg (hother _ (by decide)), if_pos ⟨hlength, htake⟩, hdrop,
      QString.toInt_number code.2.1 code.2.2]
    rfl

/-! ### Portions of a command -/

theorem readyLoop_of_incomplete {cache : List Char} (h : format.Incomplete cache) :
    readyLoop cache = ([], cache) := by
  rw [readyLoop]
  rcases getCommand_cases cache with ⟨-, hget⟩ | ⟨line, rest, hframe, heq, -⟩
  · rw [dif_neg (by rw [hget]; exact not_not.mpr rfl), hget]
  · have hhead := hframe.headSize_append rest
    rw [← heq] at hhead
    cases h.symm.trans hhead

theorem isFrame_written (o : Order) : format.IsFrame (chars (written o)) := by
  rw [(written_spec o).2]
  exact (isFrame_lines_iff (by decide)).mpr
    ⟨_, unbroken_of_notMem fun h ↦ (mem_cmd o _ h).1 rfl, rfl⟩

/-- A part of a command waits for the rest. -/
theorem readyLoop_of_append {o : Order} {front back : Bytes} (h : front ++ back = written o)
    (hback : back ≠ []) : readyLoop (chars front) = ([], chars front) := by
  have hframe := isFrame_written o
  rw [← h, chars, List.map_append] at hframe
  exact readyLoop_of_incomplete
    (hframe.incomplete_of_append fun hnil ↦ hback (List.map_eq_nil_iff.mp hnil))

/-- A whole command is executed, and leaves nothing. -/
theorem readyLoop_written (o : Order) : readyLoop (chars (written o)) = ([o.cmd.toList], []) := by
  have hne : o.cmd.toList ≠ [] := by
    cases o with
    | alive | terminate | pause | resume => simp [Order.cmd]
    | num code =>
      rw [Order.cmd, String.toList_append]
      exact List.cons_ne_nil _ _
  have hsearch : search '\r' '\n' (o.cmd.toList ++ ['\r', '\n']) = some o.cmd.toList.length :=
    search_append_cons (by decide) (unbroken_of_notMem fun h ↦ (mem_cmd o _ h).1 rfl) []
  have hget : getCommand (o.cmd.toList ++ ['\r', '\n']) = (o.cmd.toList, []) := by
    rw [getCommand, hsearch]
    dsimp only
    rw [List.take_left, List.drop_eq_nil_of_le (by rw [List.length_append]; rfl)]
  rw [(written_spec o).2, readyLoop]
  simp only [hget]
  rw [dif_pos hne, readyLoop_of_incomplete (SelfDelimiting.incomplete_nil _)]

/-- What has been read of a command, and what comes next. -/
theorem chars_append_readAll {o : Order} {front portion : Bytes} (back : Bytes)
    (h : front ++ (portion ++ back) = written o) :
    chars front ++ SysPrivate.readAll portion = chars (front ++ portion) := by
  have hascii : ∀ b ∈ portion, b ≠ 0 ∧ b ≤ 0x7F := fun b hb ↦
    (written_spec o).1 b (h ▸ List.mem_append_right _ (List.mem_append_left _ hb))
  rw [readAll_eq_chars hascii, chars, chars, chars, List.map_append]

theorem mem_retString (retValue : Bool) : ∀ b ∈ retString retValue, b ≠ 0 ∧ b ≤ 0x7F := by
  cases retValue <;> decide +kernel

/-- Only an acceptance is read as `true`, however little of the answer has arrived. -/
theorem readAll_retString {retValue : Bool} {n : ℕ}
    (h : SysPrivate.readAll ((retString retValue).take n) = "true".toList) : retValue = true := by
  rw [readAll_eq_chars fun b hb ↦ mem_retString retValue b (List.mem_of_mem_take hb)] at h
  cases retValue with
  | true => rfl
  | false =>
    cases n with
    | zero => cases h
    | succ n =>
      have hfalse : retString false = 102 :: [97, 108, 115, 101] := rfl
      rw [hfalse, List.take_succ_cons, chars, List.map_cons] at h
      exact absurd (List.cons.inj h).1 (by decide)

/-- A whole answer is read as what it says. -/
theorem readAll_retString_iff (retValue : Bool) :
    SysPrivate.readAll (retString retValue) = "true".toList ↔ retValue = true := by
  constructor
  · intro h
    rw [← (retString retValue).take_length] at h
    exact readAll_retString h
  · rintro rfl
    rw [readAll_eq_chars (mem_retString true)]
    rfl

end Service

end OtTcpListener
