import OtTcpListener.Foundations.Lines
import OtTcpListener.Platform.Host
import OtTcpListener.Platform.Stoul

/-!
# Receiving a response

The second half of `Request::send`: a loop that calls `recv`, collects what arrives, and takes a
response out of it. `headerLoop` takes complete lines off the front until it meets an empty one.
What follows is the body: either a row of chunks, each announced by a line with its size
(`chunkLoop`), or simply all that arrives. The loop ends when the last chunk has been announced,
when as many bytes have arrived as the header promised, or when the peer closes the connection.

`tempBuffer` has 4096 bytes, so that is what a single `recv` can return at most (`Recv`).

A line may hold a number that makes the library throw. Two other things can happen with the size of
a chunk, which is compared as an `int`: from `2 ^ 31` on it may be negative, and the iterators then
point before the beginning of a vector; or it may be 0, and then the loop does not end.
-/

namespace OtTcpListener

open Bytes Lines

namespace Http

/-! ## What the code works on -/

/-- `Response`. -/
@[ext]
structure Response where
  status : ℤ := 0
  headers : List Bytes := []
  body : Bytes := []
  deriving DecidableEq

/-- What can come of `Request::send` instead of a response. -/
inductive Fault where
  /-- An exception of the standard library's conversions. -/
  | thrown (e : StdException)
  /-- `std::length_error` or `std::bad_alloc` from `reserve`. -/
  | reserve
  /-- A `RequestError`. -/
  | request_error
  /-- A `ResponseError`. -/
  | response_error
  /-- A `std::system_error`. -/
  | system_error
  /-- An iterator before the beginning of its vector. -/
  | undefined
  /-- A loop that does not end. -/
  | endless
  deriving DecidableEq

/-- The bytes a call of `recv` returns. -/
abbrev Recv := {bytes : Bytes // bytes ≠ [] ∧ bytes.length ≤ 4096}

/-- What the calls of `recv` return in the end. -/
inductive Ending where
  /-- 0: the peer has closed the connection. -/
  | closed
  /-- -1. -/
  | failed
  deriving DecidableEq

/-- The locals that the lines of the header set. -/
structure Head where
  status : ℤ := 0
  headers : List Bytes := []
  firstLine : Bool := true
  contentLengthReceived : Bool := false
  contentLength : ℕ := 0
  chunkedResponse : Bool := false
  deriving DecidableEq

/-- The locals that the body sets. -/
structure Body where
  body : Bytes := []
  expectedChunkSize : ℕ := 0
  removeCrlfAfterChunk : Bool := false
  deriving DecidableEq

/-- All locals of the receiving loop. -/
structure Reader where
  responseData : Bytes := []
  parsedHeaders : Bool := false
  head : Head := {}
  body : Body := {}
  deriving DecidableEq

/-- The member `response` of these locals. -/
def Reader.response (r : Reader) : Response := ⟨r.head.status, r.head.headers, r.body.body⟩

/-- `std::search` for `crlf`. -/
def searchCrlf (data : Bytes) : Option ℕ := search 13 10 data

/-! ## Lines of the header -/

/-- The loop that takes the first line apart. -/
def tokenLoop (line : Bytes) (lastPos : ℕ) (parts : List Bytes) : List Bytes :=
  if _h : lastPos < line.length + 1 then
    let pos := (find line 32 lastPos).getD line.length
    tokenLoop line (pos + 1)
      (if pos ≠ lastPos then parts ++ [(line.drop lastPos).take (pos - lastPos)] else parts)
  else parts
termination_by line.length + 1 - lastPos
decreasing_by
  have hle : lastPos ≤ (find line 32 lastPos).getD line.length := by
    cases hfind : find line 32 lastPos with
    | none => exact Nat.le_of_lt_succ _h
    | some k => exact (lt_length_of_find hfind).1
  omega

/-- What the first line sets. -/
def statusLine (h : Head) (line : Bytes) : Except Fault Head :=
  match tokenLoop line 0 [] with
  | _ :: part :: _ =>
    match stoi part with
    | .ok status => .ok { h with firstLine := false, status := status }
    | .error e => .error (.thrown e)
  | _ => .ok { h with firstLine := false }

/-- The two calls of `erase` with `std::find_if`: no white space in front and behind. -/
def trim (value : Bytes) : Bytes := (value.dropWhile isspace).rdropWhile isspace

/-- The name and the value of a line with a colon. -/
def headerField (line : Bytes) : Option (Bytes × Bytes) :=
  (find line 58 0).map fun pos ↦ (line.take pos, trim (line.drop (pos + 1)))

variable (memory : ℕ → Bool)

/-- What any other line sets. `memory` says how many bytes a vector can be given room for. -/
def headerLine (h : Head) (line : Bytes) : Except Fault Head :=
  let h := { h with headers := h.headers ++ [line] }
  match headerField line with
  | none => .ok h
  | some (headerName, headerValue) =>
    if headerName = ascii "Content-Length" then
      match stoul 10 headerValue with
      | .error e => .error (.thrown e)
      | .ok contentLength =>
        if contentLength < 2 ^ 63 ∧ memory contentLength then
          .ok { h with contentLengthReceived := true, contentLength := contentLength }
        else .error .reserve
    else if headerName = ascii "Transfer-Encoding" then
      if headerValue = ascii "chunked" then .ok { h with chunkedResponse := true }
      else .error .response_error
    else .ok h

/-- A line that is not empty. -/
def headLine (h : Head) (line : Bytes) : Except Fault Head :=
  if h.firstLine then statusLine h line else headerLine memory h line

/-- The loop over the lines of the header. The flag says whether the empty line has been met. -/
def headerLoop (responseData : Bytes) (h : Head) : Except Fault (Bytes × Head × Bool) :=
  match _h : searchCrlf responseData with
  | none => .ok (responseData, h, false)
  | some i =>
    let line := responseData.take i
    if line = [] then .ok (responseData.drop (i + 2), h, true)
    else
      match headLine memory h line with
      | .error e => .error e
      | .ok h => headerLoop (responseData.drop (i + 2)) h
termination_by responseData.length
decreasing_by
  have hle := add_two_le_of_search _h
  rw [List.length_drop]
  omega

/-! ## The body -/

/-- What is left of the bytes when the two behind a chunk have been erased, if they are due. -/
def skipCrlf (b : Body) (responseData : Bytes) : Bytes :=
  if b.removeCrlfAfterChunk then responseData.drop 2 else responseData

theorem length_skipCrlf_le (b : Body) (responseData : Bytes) :
    (skipCrlf b responseData).length ≤ responseData.length := by
  rw [skipCrlf]
  split
  · rw [List.length_drop]
    omega
  · exact le_rfl

/-- The loop over the chunks. The flag is `dataReceived`. -/
def chunkLoop (responseData : Bytes) (b : Body) : Except Fault (Bytes × Body × Bool) :=
  if 0 < b.expectedChunkSize then
    let toWrite := min (toInt b.expectedChunkSize) (toInt responseData.length)
    if toWrite < 0 then .error .undefined
    else
      let written := b.body ++ responseData.take toWrite.toNat
      let expectedChunkSize := b.expectedChunkSize - toWrite.toNat
      let removeCrlfAfterChunk := expectedChunkSize = 0 || b.removeCrlfAfterChunk
      let rest := responseData.drop toWrite.toNat
      if rest = [] then .ok (rest, ⟨written, expectedChunkSize, removeCrlfAfterChunk⟩, false)
      -- nothing has been used up, and nothing has changed
      else if _h : toWrite.toNat = 0 then .error .endless
      else chunkLoop rest ⟨written, expectedChunkSize, removeCrlfAfterChunk⟩
  else if b.removeCrlfAfterChunk ∧ responseData.length < 2 then .ok (responseData, b, false)
  else
    let rest := skipCrlf b responseData
    match _h : searchCrlf rest with
    | none => .ok (rest, ⟨b.body, 0, false⟩, false)
    | some i =>
      match stoul 16 (rest.take i) with
      | .error e => .error (.thrown e)
      | .ok size =>
        if size = 0 then .ok (rest.drop (i + 2), ⟨b.body, size, false⟩, true)
        else chunkLoop (rest.drop (i + 2)) ⟨b.body, size, false⟩
termination_by responseData.length
decreasing_by
  · rename_i hrest
    rw [List.drop_eq_nil_iff] at hrest
    rw [List.length_drop]
    omega
  · have hle : i + 2 ≤ (skipCrlf b responseData).length := add_two_le_of_search _h
    have hskip := length_skipCrlf_le b responseData
    rw [List.length_drop]
    omega

/-- One round of the receiving loop, after `recv` has returned some bytes. The flag says whether the
loop ends here. -/
def round (r : Reader) (tempBuffer : Bytes) : Except Fault (Reader × Bool) := do
  let data := r.responseData ++ tempBuffer
  let (data, head, parsedHeaders) ←
    if r.parsedHeaders then pure (data, r.head, true) else headerLoop memory data r.head
  if parsedHeaders then
    if head.chunkedResponse then
      let (data, body, dataReceived) ← chunkLoop data r.body
      return (⟨data, true, head, body⟩, dataReceived)
    else
      let body := { r.body with body := r.body.body ++ data }
      return (⟨[], true, head, body⟩,
        head.contentLengthReceived && head.contentLength ≤ body.body.length)
  else
    return (⟨data, false, head, r.body⟩, false)

/-- The receiving loop, from its locals on. -/
def receiveFrom (ending : Ending) : Reader → List Recv → Except Fault Response
  | r, [] =>
    match ending with
    | .closed => .ok r.response
    | .failed => .error .system_error
  | r, tempBuffer :: recvs =>
    match round memory r tempBuffer.1 with
    | .error e => .error e
    | .ok (r, true) => .ok r.response
    | .ok (r, false) => receiveFrom ending r recvs

/-- The receiving loop. -/
def receive (recvs : List Recv) (ending : Ending) : Except Fault Response :=
  receiveFrom memory ending {} recvs

end Http

end OtTcpListener
