import OtTcpListener.Foundations.History
import OtTcpListener.Foundations.Lines
import OtTcpListener.Platform.StdString

/-!
# The control socket of the service

A running service listens on a local socket for commands, each a line of its own
(`QtServiceSysPrivate`). What arrives on a connection is appended to a text kept for the address of
its `QTcpSocket`, and `slotReady` takes lines off that text, executes them and answers each with
`true` or `false`.

Two things about it are not as one might expect. `getCommand` returns the empty string when there is
no line, so an empty line ends the loop, and lines behind it wait until more arrives. And the text
of an address is never removed, so when a socket is deleted and a later one gets its address, that
one begins with what the earlier one has left behind.

`commands_received` says what is executed all the same: at each address the lines of all that has
ever arrived there, in order, except for the empty ones and for those that still wait.
-/

namespace OtTcpListener

open Bytes Lines

/-! ## Numbers in texts -/

namespace QString

/-- `QChar::isSpace`. -/
def isSpace (c : Char) : Bool :=
  let n := c.toNat
  n = 0x20 ∨ 0x09 ≤ n ∧ n ≤ 0x0D ∨ n = 0x85 ∨ n = 0xA0 ∨ n = 0x1680 ∨ 0x2000 ≤ n ∧ n ≤ 0x200A ∨
    n = 0x2028 ∨ n = 0x2029 ∨ n = 0x202F ∨ n = 0x205F ∨ n = 0x3000

/-- `QString::toInt`. A text that is no `int` gives 0. -/
def toInt (s : List Char) : ℤ :=
  let s := (s.dropWhile isSpace).rdropWhile isSpace
  let digits := if s.head? = some '-' ∨ s.head? = some '+' then s.tail else s
  let n := Nat.ofDigitChars 10 digits 0
  let value : ℤ := if s.head? = some '-' then -n else n
  if digits ≠ [] ∧ digits.all Char.isDigit ∧ -2 ^ 31 ≤ value ∧ value < 2 ^ 31 then value else 0

/-- A number without white space. -/
theorem toInt_of_notSpace {s : List Char} (h : ∀ c ∈ s, isSpace c = false) :
    toInt s =
      let digits := if s.head? = some '-' ∨ s.head? = some '+' then s.tail else s
      let n := Nat.ofDigitChars 10 digits 0
      let value : ℤ := if s.head? = some '-' then -n else n
      if digits ≠ [] ∧ digits.all Char.isDigit ∧ -2 ^ 31 ≤ value ∧ value < 2 ^ 31 then value
      else 0 := by
  have hdrop {s : List Char} (h : ∀ c ∈ s, isSpace c = false) : s.dropWhile isSpace = s := by
    cases s with
    | nil => rfl
    | cons c s => rw [List.dropWhile_cons, h c List.mem_cons_self, if_neg Bool.false_ne_true]
  have hrdrop : s.rdropWhile isSpace = s := by
    rw [List.rdropWhile, hdrop fun c hc ↦ h c (List.mem_reverse.mp hc), List.reverse_reverse]
  rw [toInt, hdrop h, hrdrop]

/-! The digits of a number. -/

theorem repr_ne_nil (n : ℕ) : n.repr.toList ≠ [] := by
  rw [Nat.repr_eq_ofList_toDigits, String.toList_ofList]
  exact Nat.toDigits_ne_nil

theorem isDigit_of_mem_repr (n : ℕ) : ∀ c ∈ n.repr.toList, c.isDigit = true := by
  rw [Nat.repr_eq_ofList_toDigits, String.toList_ofList]
  exact fun c hc ↦ Nat.isDigit_of_mem_toDigits (by decide) (by decide) hc

theorem ofDigitChars_repr (n : ℕ) : Nat.ofDigitChars 10 n.repr.toList 0 = n := by
  rw [Nat.repr_eq_ofList_toDigits, String.toList_ofList, Nat.ofDigitChars_ten_toDigits]

theorem isSpace_of_isDigit {c : Char} (hc : c.isDigit = true) : isSpace c = false := by
  obtain ⟨hlow, hhigh⟩ := toNat_of_isDigit hc
  rw [isSpace, decide_eq_false_iff_not]
  omega

/-- No number that is not negative begins with a sign. -/
theorem head?_repr_ne (n : ℕ) {sign : Char} (hsign : sign.isDigit = false) :
    n.repr.toList.head? ≠ some sign := by
  intro h
  have hdigit := isDigit_of_mem_repr n sign (List.mem_of_head? h)
  cases hsign.symm.trans hdigit

theorem number_ne_nil (n : ℤ) : (number n).toList ≠ [] := by
  rw [number, Int.repr_eq_if]
  split
  · exact repr_ne_nil _
  · rw [String.toList_append]
    exact List.cons_ne_nil _ _

/-- **A number is read back.** -/
theorem toInt_number {n : ℤ} (hlo : -2 ^ 31 ≤ n) (hhi : n < 2 ^ 31) :
    toInt (number n).toList = n := by
  have hall (k : ℕ) : k.repr.toList.all Char.isDigit = true :=
    List.all_eq_true.mpr (isDigit_of_mem_repr k)
  have hspace (k : ℕ) : ∀ c ∈ k.repr.toList, isSpace c = false :=
    fun c hc ↦ isSpace_of_isDigit (isDigit_of_mem_repr k c hc)
  rw [number, Int.repr_eq_if]
  split
  · next hpos =>
    have hminus : n.toNat.repr.toList.head? ≠ some '-' := head?_repr_ne _ rfl
    have hplus : n.toNat.repr.toList.head? ≠ some '+' := head?_repr_ne _ rfl
    rw [toInt_of_notSpace (hspace _)]
    simp only [hminus, hplus, or_self, if_false, ofDigitChars_repr]
    rw [if_pos ⟨repr_ne_nil _, hall _, by omega, by omega⟩]
    exact Int.toNat_of_nonneg hpos
  · next hneg =>
    have hminus : ("-" ++ (-n).toNat.repr).toList = '-' :: (-n).toNat.repr.toList := by
      rw [String.toList_append]
      rfl
    rw [hminus, toInt_of_notSpace (List.forall_mem_cons.mpr ⟨rfl, hspace _⟩)]
    -- the sign is taken off, and the digits are those of the absolute value
    simp only [List.head?_cons, true_or, if_true, List.tail_cons, ofDigitChars_repr]
    rw [if_pos ⟨repr_ne_nil _, hall _, by omega, by omega⟩]
    omega

end QString

namespace Service

/-! ## Commands -/

/-- The `ServiceFlags` that the commands look at. -/
structure ServiceFlags where
  CanBeSuspended : Bool
  CannotBeStopped : Bool
  deriving DecidableEq

/-- A function of the service that a command calls. -/
inductive Call where
  /-- `stop`, and then `quit` of the application. -/
  | stop
  | pause
  | resume
  | processCommand (code : ℤ)
  deriving DecidableEq

/-- The body of the loop in `slotReady`: whether the answer is `true`, and what is called. -/
def execute (serviceFlags : ServiceFlags) (cmd : List Char) : Bool × Option Call :=
  if cmd = "terminate".toList then
    if !serviceFlags.CannotBeStopped then (true, some .stop) else (false, none)
  else if cmd = "pause".toList then
    if serviceFlags.CanBeSuspended then (true, some .pause) else (false, none)
  else if cmd = "resume".toList then
    if serviceFlags.CanBeSuspended then (true, some .resume) else (false, none)
  else if cmd = "alive".toList then (true, none)
  else if 4 < cmd.length ∧ cmd.take 4 = "num:".toList then
    (true, some (.processCommand (QString.toInt (cmd.drop 4))))
  else (false, none)

/-- `QtServiceSysPrivate::getCommand`, with the text that is left. -/
def getCommand (cache : List Char) : List Char × List Char :=
  match search '\r' '\n' cache with
  | some pos => (cache.take pos, cache.drop (pos + 2))
  | none => ([], cache)

/-- A command takes at least its end off the text. -/
theorem length_getCommand_lt {cache : List Char} (h : (getCommand cache).1 ≠ []) :
    (getCommand cache).2.length < cache.length := by
  rw [getCommand] at h ⊢
  split at h
  · next pos hpos =>
    have hle := add_two_le_of_search hpos
    rw [List.length_drop]
    omega
  · exact absurd rfl h

/-- The loop in `slotReady`: the commands that it executes, and the text that it leaves. -/
def readyLoop (cache : List Char) : List (List Char) × List Char :=
  let cmd := getCommand cache
  if _h : cmd.1 ≠ [] then
    let (cmds, rest) := readyLoop cmd.2
    (cmd.1 :: cmds, rest)
  else ([], cmd.2)
termination_by cache.length
decreasing_by exact length_getCommand_lt _h

/-- The address of a `QTcpSocket`. -/
abbrev Address := ℕ

/-- `QtServiceSysPrivate`: its `cache`, and the commands it has executed so far. -/
structure SysPrivate where
  cache : Address → List Char
  log : List (Address × List Char)

namespace SysPrivate

/-- The constructor. -/
def empty : SysPrivate := ⟨fun _ ↦ [], []⟩

/-- The text that `QString` makes of what `readAll` returns. -/
def readAll (bytes : Bytes) : List Char := (fromUtf8 (c_str bytes)).toList

/-- `slotReady`, for the socket at an address. -/
def slotReady (sys : SysPrivate) (s : Address) (bytes : Bytes) : SysPrivate :=
  let (cmds, rest) := readyLoop (sys.cache s ++ readAll bytes)
  ⟨Function.update sys.cache s rest, sys.log ++ cmds.map (s, ·)⟩

end SysPrivate

/-! ## Lines -/

/-- The format of the commands. -/
abbrev format : SelfDelimiting Char := lines '\r' '\n'

/-- The line of a frame. -/
def lineOf (frame : List Char) : List Char := frame.take (frame.length - 2)

theorem lineOf_append (line : List Char) : lineOf (line ++ ['\r', '\n']) = line := by
  rw [lineOf, List.length_append]
  exact List.take_left

/-- The lines that are commands. -/
def commandsOf (frames : List (List Char)) : List (List Char) :=
  (frames.map lineOf).filter (· ≠ [])

/-- The commands in a text. -/
def commands (text : List Char) : List (List Char) := commandsOf (format.pieces text).1

theorem commandsOf_append (frames frames' : List (List Char)) :
    commandsOf (frames ++ frames') = commandsOf frames ++ commandsOf frames' := by
  rw [commandsOf, List.map_append, List.filter_append]
  rfl

theorem pieces_append {frames : List (List Char)} (h : ∀ x ∈ frames, format.IsFrame x)
    (text : List Char) : (format.pieces (frames.flatten ++ text)).1 =
      frames ++ (format.pieces text).1 := by
  induction frames with
  | nil => rfl
  | cons x frames ih =>
    rw [List.forall_mem_cons] at h
    rw [List.flatten_cons, List.append_assoc, h.1.pieces_append, ih h.2, List.cons_append]

theorem commands_flatten_append {frames : List (List Char)} (h : ∀ x ∈ frames, format.IsFrame x)
    (text : List Char) :
    commands (frames.flatten ++ text) = commandsOf frames ++ commands text := by
  rw [commands, pieces_append h, commandsOf_append, commands]

/-- What `getCommand` does. -/
theorem getCommand_cases (cache : List Char) :
    (format.Incomplete cache ∧ getCommand cache = ([], cache)) ∨
      ∃ line rest, format.IsFrame (line ++ ['\r', '\n']) ∧
        cache = line ++ ['\r', '\n'] ++ rest ∧ getCommand cache = (line, rest) := by
  rw [getCommand]
  cases hsearch : search '\r' '\n' cache with
  | none => exact .inl ⟨incomplete_lines_iff.mpr hsearch, rfl⟩
  | some pos =>
    obtain ⟨hline, heq⟩ := search_eq_some hsearch
    refine .inr ⟨_, _, (isFrame_lines_iff (by decide)).mpr ⟨_, hline, rfl⟩, ?_, rfl⟩
    rw [List.append_assoc]
    exact heq

/-- **The loop in `slotReady`**: it takes frames off the text and executes those that are not empty.
If none is, it stops only at an incomplete line. -/
theorem readyLoop_spec (cache : List Char) :
    ∃ frames, (∀ x ∈ frames, format.IsFrame x) ∧ cache = frames.flatten ++ (readyLoop cache).2 ∧
      commandsOf frames = (readyLoop cache).1 ∧
        ((∀ x ∈ frames, lineOf x ≠ []) → format.Incomplete (readyLoop cache).2) := by
  induction hlen : cache.length using Nat.strong_induction_on generalizing cache with
  | _ n ih =>
    rw [readyLoop]
    rcases getCommand_cases cache with ⟨hincomplete, hget⟩ | ⟨line, rest, hframe, heq, hget⟩
    · refine ⟨[], List.forall_mem_nil _, ?_⟩
      rw [dif_neg (by rw [hget]; exact not_not.mpr rfl), hget]
      exact ⟨rfl, rfl, fun _ ↦ hincomplete⟩
    · by_cases hline : line = []
      · -- an empty line is taken off, and ends the loop
        refine ⟨[line ++ ['\r', '\n']], List.forall_mem_singleton.mpr hframe, ?_⟩
        rw [dif_neg (by rw [hget]; exact not_not.mpr hline), hget]
        refine ⟨by rwa [List.flatten_singleton], ?_, fun h ↦ absurd ?_ (h _ List.mem_cons_self)⟩
        · rw [hline]
          rfl
        · rw [lineOf_append, hline]
      · obtain ⟨frames, hframes, hrest, hcommands, hstop⟩ := ih rest.length
          (by rw [← hlen, heq, List.length_append, List.length_append]; simp) rest rfl
        refine ⟨(line ++ ['\r', '\n']) :: frames, List.forall_mem_cons.mpr ⟨hframe, hframes⟩, ?_⟩
        rw [dif_pos (by rwa [hget]), hget]
        refine ⟨?_, ?_, fun h ↦ hstop (List.forall_mem_cons.mp h).2⟩
        · rw [List.flatten_cons, List.append_assoc, ← hrest]
          exact heq
        · rw [commandsOf, List.map_cons, lineOf_append,
            List.filter_cons_of_pos (by simpa using hline), ← commandsOf, hcommands]

/-! ## Runs -/

namespace SysPrivate

/-- A call of `slotReady`. -/
abbrev Ready := Address × Bytes

/-- Calls of `slotReady`, for any sockets in any order. -/
def run (events : List Ready) : SysPrivate := events.foldl (fun sys e ↦ sys.slotReady e.1 e.2) empty

/-- All the text that has arrived at an address. -/
def received (s : Address) (events : List Ready) : List Char :=
  (events.filter (·.1 = s)).flatMap fun e ↦ readAll e.2

/-- The commands that have been executed for an address. -/
def executed (sys : SysPrivate) (s : Address) : List (List Char) :=
  (sys.log.filter (·.1 = s)).map Prod.snd

/-- What holds at an address: frames have been taken off the text received there, and what they
hold has been executed. -/
def Kept (s : Address) (events : List Ready) (sys : SysPrivate) : Prop :=
  ∃ frames, (∀ x ∈ frames, format.IsFrame x) ∧ received s events = frames.flatten ++ sys.cache s ∧
    commandsOf frames = sys.executed s ∧
      ((∀ x ∈ frames, lineOf x ≠ []) → format.Incomplete (sys.cache s))

/-- At the address itself, the loop goes on with what it has kept. -/
theorem Kept.slotReady_self {s : Address} {events : List Ready} {sys : SysPrivate}
    (h : Kept s events sys) (bytes : Bytes) :
    Kept s (events ++ [(s, bytes)]) (sys.slotReady s bytes) := by
  obtain ⟨frames, hframes, hreceived, hexecuted, -⟩ := h
  obtain ⟨frames', hframes', hcache, hcommands, hstop⟩ :=
    readyLoop_spec (sys.cache s ++ readAll bytes)
  have hafter : (sys.slotReady s bytes).cache s = (readyLoop (sys.cache s ++ readAll bytes)).2 :=
    Function.update_self ..
  have hlog : (sys.slotReady s bytes).executed s =
      sys.executed s ++ (readyLoop (sys.cache s ++ readAll bytes)).1 := by
    rw [executed, executed, SysPrivate.slotReady, List.filter_append, List.map_append]
    congr 1
    rw [List.filter_eq_self.mpr (by simp), List.map_map]
    exact List.map_id _
  have htext : received s (events ++ [(s, bytes)]) = received s events ++ readAll bytes := by
    rw [received, List.filter_append, List.flatMap_append, List.filter_cons_of_pos (by simp)]
    exact congrArg _ (List.append_nil _)
  refine ⟨frames ++ frames', List.forall_mem_append.mpr ⟨hframes, hframes'⟩, ?_, ?_, fun h ↦ ?_⟩
  · rw [htext, hreceived, hafter, List.append_assoc, List.flatten_append, List.append_assoc,
      ← hcache]
  · rw [hlog, commandsOf_append, hexecuted, hcommands]
  · rw [hafter]
    exact hstop (List.forall_mem_append.mp h).2

/-- At any other address nothing changes. -/
theorem Kept.slotReady_of_ne {s : Address} {events : List Ready} {sys : SysPrivate}
    (h : Kept s events sys) {e : Ready} (hs : e.1 ≠ s) :
    Kept s (events ++ [e]) (sys.slotReady e.1 e.2) := by
  have hcache : (sys.slotReady e.1 e.2).cache s = sys.cache s := Function.update_of_ne hs.symm ..
  have hlog : (sys.slotReady e.1 e.2).executed s = sys.executed s := by
    have hnone : ((readyLoop (sys.cache e.1 ++ readAll e.2)).1.map (e.1, ·)).filter (·.1 = s) =
        [] := by
      rw [List.filter_eq_nil_iff]
      intro x hx
      obtain ⟨cmd, -, rfl⟩ := List.mem_map.mp hx
      simpa using hs
    rw [executed, executed, SysPrivate.slotReady, List.filter_append, hnone, List.append_nil]
  have htext : received s (events ++ [e]) = received s events := by
    rw [received, List.filter_append, List.filter_cons_of_neg (by simpa using hs),
      List.filter_nil, List.append_nil]
    rfl
  obtain ⟨frames, hframes, hreceived, hexecuted, hstop⟩ := h
  exact ⟨frames, hframes, by rw [htext, hcache, hreceived], by rw [hlog, hexecuted],
    by rwa [hcache]⟩

theorem Kept.slotReady {s : Address} {events : List Ready} {sys : SysPrivate}
    (h : Kept s events sys) (e : Ready) : Kept s (events ++ [e]) (sys.slotReady e.1 e.2) := by
  by_cases hs : e.1 = s
  · obtain ⟨s', bytes⟩ := e
    obtain rfl : s' = s := hs
    exact h.slotReady_self bytes
  · exact h.slotReady_of_ne hs

theorem kept_run (s : Address) (events : List Ready) : Kept s events (run events) :=
  History.foldl_invariant
    ⟨[], List.forall_mem_nil _, rfl, rfl, fun _ ↦ SelfDelimiting.incomplete_nil _⟩
    (fun _ _ e h ↦ h.slotReady e) events

/-- **Every command once, and in order**: at each address the commands in all the text that has ever
arrived there, on whatever connections and in whatever portions, have been executed up to some that
wait. Without an empty line in that text none waits. -/
theorem commands_received (s : Address) (events : List Ready) :
    ∃ waiting, commands (received s events) = (run events).executed s ++ waiting ∧
      ((∀ frame ∈ (format.pieces (received s events)).1, lineOf frame ≠ []) → waiting = []) := by
  obtain ⟨frames, hframes, hreceived, hexecuted, hstop⟩ := kept_run s events
  refine ⟨commands ((run events).cache s), ?_, fun h ↦ ?_⟩
  · rw [hreceived, commands_flatten_append hframes, hexecuted]
  · have hsub : ∀ x ∈ frames, lineOf x ≠ [] := by
      intro x hx
      refine h x ?_
      rw [hreceived, pieces_append hframes]
      exact List.mem_append_left _ hx
    rw [commands, (hstop hsub).pieces_eq]
    rfl

end SysPrivate

end Service

end OtTcpListener
