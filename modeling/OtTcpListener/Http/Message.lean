import OtTcpListener.Http.Receive

/-!
# Well-formed responses

What a server sends: a line with the status, lines of the header, an empty line, and the body in
one of three framings. `Message` is such a response, and `Message.bytes` are its bytes. A header may
say many things, but only one line of it may be about the framing, and it stands anywhere.

`receive_message` takes the message back out, however the bytes are cut into portions, up to what
follows it and is taken for body in excess of Content-Length. With chunks that holds if and only if
every chunk is shorter than `2 ^ 31` bytes: the size of a longer one is compared as an `int`, and
the loop then either leaves the vector or does not end.
-/

namespace OtTcpListener

open Bytes Lines

namespace Http

/-! ## Messages -/

/-- A line of the header that says nothing about the body. -/
structure Field where
  line : Bytes
  nonempty : line ≠ []
  unbroken : Unbroken 13 10 line
  plain : ∀ value, headerField line ≠ some (ascii "Content-Length", value) ∧
    headerField line ≠ some (ascii "Transfer-Encoding", value)

/-- Blanks and tabs. -/
abbrev Padding := {blanks : Bytes // ∀ b ∈ blanks, b = 32 ∨ b = 9}

/-- A chunk, with what its first line has behind the size. -/
structure Chunk where
  data : Bytes
  extension : Bytes
  nonempty : data ≠ []
  length_lt : data.length < 2 ^ 64
  separate : ∀ b, extension.head? = some b → digit 16 b = none ∧ b ≠ 120 ∧ b ≠ 88
  unbroken : Unbroken 13 10 (toBase 16 data.length ++ extension)

/-- How the end of the body is told. -/
inductive Framing where
  | counted (front back : Padding) (body : {body : Bytes // body.length < 2 ^ 63})
  | chunked (front back : Padding) (chunks : List Chunk)
  | untilClosed (body : Bytes)

/-- A response. -/
structure Message where
  version : Bytes
  status : {n : ℕ // n < 2 ^ 31}
  reason : Bytes
  version_ne_nil : version ≠ []
  notMem_version : 32 ∉ version
  unbroken : Unbroken 13 10 (version ++ 32 :: (to_string status ++ 32 :: reason))
  before : List Field
  framing : Framing
  after : List Field

/-- A line with its end. -/
def endLine (line : Bytes) : Bytes := line ++ [13, 10]

def Chunk.bytes (chunk : Chunk) : Bytes :=
  endLine (toBase 16 chunk.data.length ++ chunk.extension) ++ endLine chunk.data

namespace Framing

/-- The line of the header that announces the body. -/
def line : Framing → Option Bytes
  | .counted front back body =>
    some (ascii "Content-Length:" ++ (front.1 ++ to_string body.1.length ++ back.1))
  | .chunked front back _ =>
    some (ascii "Transfer-Encoding:" ++ (front.1 ++ ascii "chunked" ++ back.1))
  | .untilClosed _ => none

/-- The body as it is sent. -/
def bytes : Framing → Bytes
  | .counted _ _ body => body.1
  | .chunked _ _ chunks => chunks.flatMap Chunk.bytes ++ endLine [48] ++ endLine []
  | .untilClosed body => body

/-- The body as it is meant. -/
def body : Framing → Bytes
  | .counted _ _ body => body.1
  | .chunked _ _ chunks => chunks.flatMap Chunk.data
  | .untilClosed body => body

/-- No chunk has a size that is no `int`. -/
def Fits : Framing → Prop
  | .chunked _ _ chunks => ∀ chunk ∈ chunks, chunk.data.length < 2 ^ 31
  | _ => True

/-- There is room for the body that is announced. -/
def Room (memory : ℕ → Bool) : Framing → Prop
  | .counted _ _ body => memory body.1.length = true
  | _ => True

end Framing

namespace Message

def statusLine (m : Message) : Bytes := m.version ++ 32 :: (to_string m.status ++ 32 :: m.reason)

/-- The lines of the header. -/
def headers (m : Message) : List Bytes :=
  m.before.map Field.line ++ m.framing.line.toList ++ m.after.map Field.line

def bytes (m : Message) : Bytes :=
  endLine m.statusLine ++ m.headers.flatMap endLine ++ endLine [] ++ m.framing.bytes

/-- What is to be received. -/
def response (m : Message) : Response := ⟨m.status.1, m.headers, m.framing.body⟩

end Message

/-! ## The status -/

theorem find_append_length (front str : Bytes) (c : UInt8) :
    find (front ++ str) c front.length = (find str c 0).map (front.length + ·) := by
  rw [find, find, List.drop_left, List.drop_zero, Option.map_map]
  congr 1
  funext k
  exact congrArg _ (Nat.zero_add k).symm

/-- A part of the first line. -/
theorem tokenLoop_part {part : Bytes} (hne : part ≠ []) (hpart : 32 ∉ part) (front rest : Bytes)
    (parts : List Bytes) :
    tokenLoop (front ++ (part ++ 32 :: rest)) front.length parts =
      tokenLoop (front ++ (part ++ 32 :: rest)) (front.length + part.length + 1)
        (parts ++ [part]) := by
  have hlength := List.length_pos_iff.mpr hne
  rw [tokenLoop, dif_pos (by rw [List.length_append]; omega)]
  simp only [find_append_length, find_append_cons hpart, Option.map_some, Option.getD_some]
  rw [if_pos (by omega), List.drop_left, Nat.add_sub_cancel_left, List.take_left]

/-- What is found is not lost. -/
theorem prefix_tokenLoop (line : Bytes) (lastPos : ℕ) (parts : List Bytes) :
    parts <+: tokenLoop line lastPos parts := by
  induction lastPos, parts using tokenLoop.induct line with
  | case1 lastPos parts hlt pos ih =>
    rw [tokenLoop, dif_pos hlt]
    refine List.IsPrefix.trans ?_ ih
    split
    · exact List.prefix_append _ _
    · exact List.prefix_rfl
  | case2 lastPos parts hge =>
    rw [tokenLoop, dif_neg hge]

variable {memory : ℕ → Bool}

theorem statusLine_message (m : Message) (h : Head) :
    Http.statusLine h m.statusLine = .ok { h with firstLine := false, status := m.status.1 } := by
  obtain ⟨parts, hparts⟩ := prefix_tokenLoop m.statusLine
    ((m.version ++ [32]).length + (to_string m.status).length + 1)
    ([] ++ [m.version] ++ [to_string m.status])
  have hfirst := tokenLoop_part m.version_ne_nil m.notMem_version []
    (to_string m.status ++ 32 :: m.reason) []
  have hassoc : m.version ++ 32 :: (to_string m.status ++ 32 :: m.reason) =
      m.version ++ [32] ++ (to_string m.status ++ 32 :: m.reason) := by
    rw [List.append_assoc, List.singleton_append]
  have hsecond := tokenLoop_part (to_string_ne_nil m.status)
    (notMem_to_string (by decide) m.status.1)
    (m.version ++ [32]) m.reason ([] ++ [m.version])
  have htokens : tokenLoop m.statusLine 0 [] =
      m.version :: to_string m.status :: parts := by
    rw [← hassoc] at hsecond
    rw [List.nil_append, List.length_nil, Nat.zero_add] at hfirst
    rw [List.length_append, List.length_singleton] at hsecond hparts
    rw [Message.statusLine] at hparts ⊢
    rw [hfirst, hsecond, ← hparts]
    rfl
  rw [Http.statusLine, htokens]
  simp only [stoi_to_string m.status.2]

/-! ## The lines of the header -/

theorem headerLine_field (h : Head) (field : Field) :
    headerLine memory h field.line = .ok { h with headers := h.headers ++ [field.line] } := by
  rw [headerLine]
  cases hfield : headerField field.line with
  | none => rfl
  | some pair =>
    obtain ⟨name, value⟩ := pair
    have hplain := field.plain value
    rw [hfield] at hplain
    have hlength : name ≠ ascii "Content-Length" := fun h ↦ hplain.1 (by rw [h])
    have hencoding : name ≠ ascii "Transfer-Encoding" := fun h ↦ hplain.2 (by rw [h])
    dsimp only
    rw [if_neg hlength, if_neg hencoding]

/-- White space around a value that neither begins nor ends with it. -/
theorem trim_padding (front back : Padding) {value : Bytes} (hne : value ≠ [])
    (hvalue : ∀ b ∈ value, isspace b = false) : trim (front.1 ++ value ++ back.1) = value := by
  have hspace (blanks : Padding) : ∀ b ∈ blanks.1, isspace b = true := by
    intro b hb
    rcases blanks.2 b hb with rfl | rfl <;> decide
  obtain ⟨b, tail, rfl⟩ := List.exists_cons_of_ne_nil hne
  have hfront : (front.1 ++ (b :: tail) ++ back.1).dropWhile isspace = b :: tail ++ back.1 := by
    rw [List.append_assoc, List.dropWhile_append_of_pos (hspace front), List.cons_append,
      List.dropWhile_cons, hvalue b List.mem_cons_self, if_neg Bool.false_ne_true]
  have hback : (b :: tail ++ back.1).reverse.dropWhile isspace = (b :: tail).reverse := by
    rw [List.reverse_append, List.dropWhile_append_of_pos fun c hc ↦
      hspace back c (List.mem_reverse.mp hc)]
    cases hlast : (b :: tail).reverse with
    | nil => rfl
    | cons c rest =>
      have hc : c ∈ b :: tail := List.mem_reverse.mp (hlast ▸ List.mem_cons_self)
      rw [List.dropWhile_cons, hvalue c hc, if_neg Bool.false_ne_true]
  rw [trim, hfront, List.rdropWhile, hback, List.reverse_reverse]

theorem headerField_of_name {name : Bytes} (hname : 58 ∉ name) (value : Bytes) :
    headerField (name ++ 58 :: value) = some (name, trim value) := by
  rw [headerField, find_append_cons hname, Option.map_some, List.take_left]
  congr
  rw [List.drop_append, List.drop_eq_nil_of_le (Nat.le_succ _), List.nil_append,
    Nat.add_sub_cancel_left]
  rfl

/-- What the line about the framing sets. -/
def Head.framed (h : Head) (framing : Framing) : Head :=
  match framing with
  | .counted _ _ body => { h with
      headers := h.headers ++ framing.line.toList
      contentLengthReceived := true
      contentLength := body.1.length }
  | .chunked _ _ _ => { h with
      headers := h.headers ++ framing.line.toList
      chunkedResponse := true }
  | .untilClosed _ => h

theorem headerLine_framing {framing : Framing} {line : Bytes} (hroom : framing.Room memory)
    (hline : framing.line = some line) (h : Head) :
    headerLine memory h line = .ok (h.framed framing) := by
  cases framing with
  | counted front back body =>
    obtain rfl := Option.some.inj hline
    have hname : ascii "Content-Length:" ++ (front.1 ++ to_string body.1.length ++ back.1) =
        ascii "Content-Length" ++ 58 :: (front.1 ++ to_string body.1.length ++ back.1) := rfl
    have hdigits : ∀ b ∈ to_string body.1.length, isspace b = false := fun b hb ↦
      (show ∀ b, isdigit b = true → isspace b = false from forall_byte (by decide +kernel)) b
        (isdigit_of_mem_to_string hb)
    rw [headerLine, hname, headerField_of_name (by decide),
      trim_padding front back (to_string_ne_nil _) hdigits]
    have hlt := body.2
    simp only [if_true, stoul_to_string (show body.1.length < 2 ^ 64 by omega)]
    rw [if_pos ⟨hlt, hroom⟩]
    rfl
  | chunked front back chunks =>
    obtain rfl := Option.some.inj hline
    have hname : ascii "Transfer-Encoding:" ++ (front.1 ++ ascii "chunked" ++ back.1) =
        ascii "Transfer-Encoding" ++ 58 :: (front.1 ++ ascii "chunked" ++ back.1) := rfl
    rw [headerLine, hname, headerField_of_name (by decide),
      trim_padding front back (by decide) (by decide +kernel)]
    have hnot : ascii "Transfer-Encoding" ≠ ascii "Content-Length" := by decide +kernel
    simp only [if_neg hnot, if_true]
    rfl
  | untilClosed body => cases hline

/-- The line about the framing is a line. -/
theorem unbroken_framing {framing : Framing} {line : Bytes} (hline : framing.line = some line) :
    line ≠ [] ∧ Unbroken 13 10 line := by
  have hpadding (blanks : Padding) : (13 : UInt8) ∉ blanks.1 := by
    intro hmem
    rcases blanks.2 13 hmem with h | h <;> cases h
  cases framing with
  | counted front back body =>
    obtain rfl := Option.some.inj hline
    refine ⟨List.cons_ne_nil _ _, unbroken_of_notMem ?_⟩
    simp only [List.mem_append, not_or]
    exact ⟨by decide, ⟨hpadding front, notMem_to_string (by decide) _⟩, hpadding back⟩
  | chunked front back chunks =>
    obtain rfl := Option.some.inj hline
    refine ⟨List.cons_ne_nil _ _, unbroken_of_notMem ?_⟩
    simp only [List.mem_append, not_or]
    exact ⟨by decide, ⟨hpadding front, by decide⟩, hpadding back⟩
  | untilClosed body => cases hline

theorem drain_line {h h' : Head} {line rest : Bytes} (hne : line ≠ [])
    (hunbroken : Unbroken 13 10 line) (hline : headLine memory h line = .ok h') :
    (reader memory).drain (.head h) (endLine line ++ rest) =
      (reader memory).drain (.head h') rest := by
  rw [endLine, List.append_assoc]
  refine (drain_head hunbroken).trans ?_
  rw [Phase.afterLine, if_neg hne, hline]
  rfl

/-- Lines that say nothing about the body. -/
theorem drain_fields (fields : List Field) {h : Head} (hfirst : h.firstLine = false)
    (rest : Bytes) :
    (reader memory).drain (.head h) ((fields.map Field.line).flatMap endLine ++ rest) =
      (reader memory).drain
        (.head { h with headers := h.headers ++ fields.map Field.line }) rest := by
  induction fields generalizing h with
  | nil =>
    rw [List.map_nil, List.flatMap_nil, List.nil_append, List.append_nil]
  | cons field fields ih =>
    have hline : headLine memory h field.line =
        .ok { h with headers := h.headers ++ [field.line] } := by
      rw [headLine, if_neg (by rw [hfirst]; exact Bool.false_ne_true)]
      exact headerLine_field h field
    rw [List.map_cons, List.flatMap_cons, List.append_assoc,
      drain_line field.nonempty field.unbroken hline,
      ih (h := { h with headers := h.headers ++ [field.line] }) hfirst, List.append_assoc,
      List.singleton_append]

/-- The line about the framing, if there is one. -/
theorem drain_framing {framing : Framing} (hroom : framing.Room memory) {h : Head}
    (hfirst : h.firstLine = false) (rest : Bytes) :
    (reader memory).drain (.head h) (framing.line.toList.flatMap endLine ++ rest) =
      (reader memory).drain (.head (h.framed framing)) rest := by
  cases hline : framing.line with
  | none =>
    cases framing with
    | untilClosed body => rfl
    | counted | chunked => cases hline
  | some line =>
    obtain ⟨hne, hunbroken⟩ := unbroken_framing hline
    have hset : headLine memory h line = .ok (h.framed framing) := by
      rw [headLine, if_neg (by rw [hfirst]; exact Bool.false_ne_true)]
      exact headerLine_framing hroom hline h
    rw [Option.toList_some, List.flatMap_singleton, drain_line hne hunbroken hset]

/-- The locals behind the header of a message. -/
def Message.head (m : Message) : Head :=
  let h := { ({} : Head) with
    firstLine := false, status := m.status.1, headers := m.before.map Field.line }.framed m.framing
  { h with headers := h.headers ++ m.after.map Field.line }

theorem Message.head_eq (m : Message) : m.head =
    { status := m.status.1
      headers := m.headers
      firstLine := false
      contentLengthReceived := m.framing matches .counted ..
      contentLength := match m.framing with
        | .counted _ _ body => body.1.length
        | _ => 0
      chunkedResponse := m.framing matches .chunked .. } := by
  rw [head, headers]
  cases m.framing with
  | counted | chunked => rfl
  | untilClosed body => simp only [Head.framed, Framing.line, Option.toList_none, List.append_nil]

/-- The header of a message. -/
theorem drain_message (m : Message) (hroom : m.framing.Room memory) (rest : Bytes) :
    parse memory (m.bytes ++ rest) =
      ((reader memory).drain (Phase.afterLine memory m.head []) (m.framing.bytes ++ rest)).1 := by
  have hfirst : headLine memory {} m.statusLine =
      .ok { ({} : Head) with firstLine := false, status := m.status.1 } := by
    rw [headLine, if_pos rfl, statusLine_message]
  have hne : m.statusLine ≠ [] := fun h ↦ m.version_ne_nil (List.append_eq_nil_iff.mp h).1
  have hempty (xs : Bytes) : endLine [] ++ xs = [] ++ 13 :: 10 :: xs := rfl
  rw [parse, Message.bytes, Message.headers, List.flatMap_append, List.flatMap_append]
  simp only [List.append_assoc]
  rw [drain_line hne m.unbroken hfirst, drain_fields _ rfl, drain_framing hroom rfl, drain_fields,
    hempty, drain_head (show Unbroken 13 10 [] by decide)]
  · rfl
  · cases m.framing <;> rfl

/-! ## The body -/

variable {hc : {h : Head // h.chunkedResponse = true}} {body : Bytes}

theorem afterSize_chunk (chunk : Chunk) (hlow : 0 ≤ toInt chunk.data.length) :
    Phase.afterSize hc body (toBase 16 chunk.data.length ++ chunk.extension) =
      .data hc body ⟨chunk.data.length, List.length_pos_iff.mpr chunk.nonempty, hlow⟩ := by
  rw [Phase.afterSize, stoul_toBase (by decide) (by decide) chunk.length_lt chunk.separate]
  exact dif_pos _

theorem drain_chunk {chunk : Chunk} (hlt : chunk.data.length < 2 ^ 31) (rest : Bytes) :
    (reader memory).drain (.size hc body) (chunk.bytes ++ rest) =
      (reader memory).drain (.size hc (body ++ chunk.data)) rest := by
  have hint := toInt_of_lt hlt
  have hassoc : chunk.bytes ++ rest = toBase 16 chunk.data.length ++ chunk.extension ++
      13 :: 10 :: (chunk.data ++ 13 :: 10 :: rest) := by
    simp only [Chunk.bytes, endLine, List.append_assoc, List.cons_append, List.nil_append]
  have hstep : (reader memory).step (.skip hc (body ++ chunk.data)) (13 :: 10 :: rest) =
      some (.size hc (body ++ chunk.data), 2) := rfl
  have hnone : ¬(0 < chunk.data.length - chunk.data.length ∧
      0 ≤ toInt (chunk.data.length - chunk.data.length)) := by omega
  rw [hassoc, drain_size chunk.unbroken, afterSize_chunk chunk (by omega),
    drain_data (k := chunk.data.length) (by rw [List.length_append]; omega) (by rw [hint]),
    List.take_left, List.drop_left, Phase.afterBytes, dif_neg hnone,
    Incremental.drain_of_step hstep]
  rfl

/-- The size of a chunk from `2 ^ 31` bytes on. -/
theorem drain_long_chunk {chunk : Chunk} (hge : 2 ^ 31 ≤ chunk.data.length) (rest : Bytes) :
    ∃ f, ((reader memory).drain (.size hc body) (chunk.bytes ++ rest)).1 = .failed f := by
  have hassoc : chunk.bytes ++ rest = toBase 16 chunk.data.length ++ chunk.extension ++
      13 :: 10 :: (chunk.data ++ 13 :: 10 :: rest) := by
    simp only [Chunk.bytes, endLine, List.append_assoc, List.cons_append, List.nil_append]
  have hfailed (f : Fault) (xs : Bytes) : (reader memory).drain (.failed f) xs = (.failed f, xs) :=
    Incremental.Stuck.drain_eq rfl
  rw [hassoc, drain_size chunk.unbroken]
  by_cases hlow : 0 ≤ toInt chunk.data.length
  · -- the part of the size that an `int` holds is read, and then the loop does not go on
    obtain ⟨k, hk⟩ := Int.eq_ofNat_of_zero_le hlow
    have hlt : k < chunk.data.length := by
      unfold toInt at hk
      split at hk <;> omega
    have hzero : toInt (chunk.data.length - k) = 0 := by rw [toInt_sub hk.ge, hk]; omega
    obtain ⟨b, tail, htail⟩ := List.exists_cons_of_ne_nil
      (List.ne_nil_of_length_pos (l := (chunk.data ++ 13 :: 10 :: rest).drop k)
        (by rw [List.length_drop, List.length_append]; omega))
    rw [afterSize_chunk chunk hlow, drain_data (k := k) (by rw [List.length_append]; omega) hk.ge,
      Phase.afterBytes, dif_pos ⟨Nat.sub_pos_of_lt hlt, hzero.ge⟩, htail]
    have hstep : (reader memory).step (.data hc (body ++ (chunk.data ++ 13 :: 10 :: rest).take k)
        ⟨chunk.data.length - k, Nat.sub_pos_of_lt hlt, hzero.ge⟩) (b :: tail) =
        some (.failed .endless, 1) := congrArg (fun p ↦ some (p, 1)) (dif_pos hzero)
    rw [Incremental.drain_of_step hstep, hfailed]
    exact ⟨_, rfl⟩
  · rw [Phase.afterSize, stoul_toBase (by decide) (by decide) chunk.length_lt chunk.separate]
    simp only [hlow, and_false, dif_neg, not_false_iff]
    rw [if_neg (by omega), hfailed]
    exact ⟨_, rfl⟩

theorem drain_last_chunk (rest : Bytes) :
    ((reader memory).drain (.size hc body) (endLine [48] ++ rest)).1 = .done hc body := by
  refine (congrArg Prod.fst (drain_size (show Unbroken 13 10 [48] by decide))).trans ?_
  have hzero : Phase.afterSize hc body [48] = .done hc body := by
    rw [Phase.afterSize, show stoul 16 [48] = .ok 0 from by decide +kernel]
    rfl
  have hstuck : (reader memory).Stuck (.done hc body) rest := rfl
  rw [hzero]
  exact congrArg Prod.fst hstuck.drain_eq

/-- **A body in chunks** comes through if no chunk is too long, and else the reader fails. -/
theorem drain_chunked (memory : ℕ → Bool) (hc : {h : Head // h.chunkedResponse = true})
    (body : Bytes) (chunks : List Chunk) (rest : Bytes) :
    ((∀ chunk ∈ chunks, chunk.data.length < 2 ^ 31) ∧
      ((reader memory).drain (.size hc body)
        (chunks.flatMap Chunk.bytes ++ endLine [48] ++ endLine [] ++ rest)).1 =
          .done hc (body ++ chunks.flatMap Chunk.data)) ∨
      (¬∀ chunk ∈ chunks, chunk.data.length < 2 ^ 31) ∧
        ∃ f, ((reader memory).drain (.size hc body)
          (chunks.flatMap Chunk.bytes ++ endLine [48] ++ endLine [] ++ rest)).1 = .failed f := by
  induction chunks generalizing body with
  | nil =>
    refine .inl ⟨List.forall_mem_nil _, ?_⟩
    rw [List.flatMap_nil, List.flatMap_nil, List.nil_append, List.append_nil, List.append_assoc]
    exact drain_last_chunk _
  | cons chunk chunks ih =>
    rw [List.forall_mem_cons, List.flatMap_cons, List.flatMap_cons]
    simp only [List.append_assoc] at ih ⊢
    by_cases hlt : chunk.data.length < 2 ^ 31
    · rw [drain_chunk hlt]
      rcases ih (body ++ chunk.data) with ⟨hfits, hdone⟩ | ⟨hfits, hfailed⟩
      · exact .inl ⟨⟨hlt, hfits⟩, by rw [hdone, List.append_assoc]⟩
      · exact .inr ⟨fun h ↦ hfits h.2, hfailed⟩
    · exact .inr ⟨fun h ↦ hlt h.1, drain_long_chunk (Nat.not_lt.mp hlt) _⟩

/-! ## The message as a whole -/

/-- Whether the end of the body can be told before the connection is closed. -/
def Framing.Delimited : Framing → Prop
  | .untilClosed _ => False
  | _ => True

/-- **What the reader makes of a message** and of what follows it. -/
theorem parse_message (m : Message) (hroom : m.framing.Room memory) {rest : Bytes}
    (hrest : m.framing.Delimited ∨ rest = []) :
    (m.framing.Fits ∧ (parse memory (m.bytes ++ rest)).trimmed = .ok m.response ∧
      (m.framing.Delimited → (parse memory (m.bytes ++ rest)).settled = true) ∧
        (rest = [] → (parse memory (m.bytes ++ rest)).response = .ok m.response)) ∨
      ¬m.framing.Fits ∧ ∃ f, parse memory (m.bytes ++ rest) = .failed f := by
  have hhead := m.head_eq
  have hstatus : m.head.status = m.status.1 := by rw [hhead]
  have hheaders : m.head.headers = m.headers := by rw [hhead]
  rw [drain_message m hroom, Phase.afterLine, if_pos rfl]
  cases hframing : m.framing with
  | counted front back body =>
    refine .inl ⟨trivial, ?_⟩
    have hi : m.head.chunkedResponse = false := by rw [hhead, hframing]
    have hreceived : m.head.contentLengthReceived = true := by rw [hhead, hframing]
    have hlength : m.head.contentLength = body.1.length := by rw [hhead, hframing]
    rw [dif_neg (Bool.eq_false_iff.mp hi), drain_identity, List.nil_append, Phase.trimmed,
      Phase.settled, Message.response, hframing]
    dsimp only [Framing.bytes, Framing.body]
    rw [hstatus, hheaders, hreceived, hlength, if_pos rfl, List.take_left]
    refine ⟨rfl, fun _ ↦ decide_eq_true ?_, ?_⟩
    · exact List.length_append ▸ Nat.le_add_right _ _
    · rintro rfl
      rw [List.append_nil, ← hstatus, ← hheaders]
      rfl
  | chunked front back chunks =>
    have hc : m.head.chunkedResponse = true := by rw [hhead, hframing]
    rw [dif_pos hc]
    rcases drain_chunked memory ⟨m.head, hc⟩ [] chunks rest with
      ⟨hfits, hdone⟩ | ⟨hfits, hfailed⟩
    · refine .inl ⟨hfits, ?_⟩
      rw [Framing.bytes, hdone]
      rw [Message.response, hframing, ← hstatus, ← hheaders]
      exact ⟨rfl, fun _ ↦ rfl, fun _ ↦ rfl⟩
    · exact .inr ⟨hfits, hfailed⟩
  | untilClosed body =>
    -- whatever follows would belong to the body
    obtain rfl : rest = [] := by
      rw [hframing] at hrest
      exact hrest.resolve_left id
    refine .inl ⟨trivial, ?_⟩
    have hi : m.head.chunkedResponse = false := by rw [hhead, hframing]
    have hreceived : m.head.contentLengthReceived = false := by rw [hhead, hframing]
    rw [dif_neg (Bool.eq_false_iff.mp hi), drain_identity, List.nil_append, Phase.trimmed,
      Message.response, hframing, List.append_nil]
    dsimp only [Framing.bytes, Framing.body]
    rw [hreceived, if_neg Bool.false_ne_true, ← hstatus, ← hheaders]
    exact ⟨rfl, False.elim, fun _ ↦ rfl⟩

/-- When nothing follows the message, nothing is in excess. -/
theorem receive_message_alone (m : Message) (hroom : m.framing.Room memory)
    (hfits : m.framing.Fits) (recvs : List Recv) (ending : Ending)
    (hstream : stream recvs = m.bytes)
    (hend : m.framing.Delimited ∨ ending = .closed) :
    receive memory recvs ending = .ok m.response := by
  have hnone : m.framing.Delimited ∨ ([] : Bytes) = [] := .inr rfl
  rcases parse_message m hroom hnone with ⟨-, htrim, hsettled, halone⟩ | ⟨hnot, -⟩
  · rw [List.append_nil, ← hstream] at htrim hsettled halone
    have hmap := (receive_trimmed memory recvs ending (hend.imp_left hsettled)).trans htrim
    cases hok : receive memory recvs ending with
    | error f =>
      rw [hok] at hmap
      cases hmap
    | ok r =>
      rw [hok] at hmap
      have htrim : r.trim = m.response := Except.ok.inj hmap
      -- trimming can only shorten the body, and it is no longer than the one that was sent
      have hle := (body_prefix_of_receive hok (halone rfl)).length_le
      have hkeep : r.trim.status = r.status ∧ r.trim.headers = r.headers ∧
          r.trim.body <+: r.body := by
        rw [Response.trim]
        split
        · exact ⟨rfl, rfl, List.prefix_rfl⟩
        · exact ⟨rfl, rfl, List.take_prefix _ _⟩
      rw [← htrim] at hle ⊢
      have hbody := hkeep.2.2.eq_of_length_le hle
      exact congrArg Except.ok (Response.ext hkeep.1.symm hkeep.2.1.symm hbody.symm)
  · exact absurd hfits hnot

end Http

end OtTcpListener
