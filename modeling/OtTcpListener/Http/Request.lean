import OtTcpListener.Foundations.Parts
import OtTcpListener.Http.Message
import OtTcpListener.Http.Url

/-!
# Sending a request

The first half of `Request::send` puts the lines of the request together and hands them to `send`
until all of it is taken. A call of `send` may take less than it is given, and the loop goes on with
what is left.

Neither the method nor the path, the domain or the lines that the caller adds are looked at. The
server is a reader of its own (`readRequest`): it takes lines up to an empty one. It finds the
request that was meant if and only if none of these parts brings a line break or a blank of its own
with it (`readRequest_requestData`).
-/

namespace OtTcpListener

open Bytes Lines

namespace Http

/-! ## The bytes of a request -/

namespace Request

variable (r : Request) (method body : Bytes) (headers : List Bytes)

/-- The lines that follow those of the caller. -/
def ownHeaders : List Bytes :=
  [ascii "Host: " ++ r.domain, ascii "Content-Length: " ++ to_string body.length]

/-- `headerData`. -/
def headerData : Bytes :=
  endLine (method ++ 32 :: (r.path ++ ascii " HTTP/1.1")) ++ headers.flatMap endLine ++
    ((r.ownHeaders body).flatMap endLine ++ endLine [])

/-- `requestData`. -/
def requestData : Bytes := r.headerData method body headers ++ body

end Request

/-! ## The calls of the system -/

/-- What the system does. An interrupted call is repeated with the same arguments, so only what the
last repetition returns is listed. -/
structure Net where
  /-- Whether a domain and a port have an address. -/
  getaddrinfo : Bytes → Bytes → Bool
  socket : Bool
  connect : Bool
  /-- How many bytes the calls of `send` take at most, or -1. -/
  sends : List (Option ℕ)
  recvs : List Recv
  ending : Ending

/-- The loop that sends the request, and the bytes that have been taken. `none` is a call that has
not returned. -/
def sendLoop : List (Option ℕ) → Bytes → Option (Except Fault Unit) × Bytes
  | _, [] => (some (.ok ()), [])
  | [], _ => (none, [])
  | none :: _, _ => (some (.error .system_error), [])
  | some n :: sends, sendData =>
    let (result, wire) := sendLoop sends (sendData.drop n)
    (result, sendData.take n ++ wire)

/-- `Request::send`, and the bytes that have been taken. -/
def Request.send (memory : ℕ → Bool) (net : Net) (r : Request) (method body : Bytes)
    (headers : List Bytes) : Option (Except Fault Response) × Bytes :=
  if r.scheme ≠ ascii "http" then (some (.error .request_error), [])
  else if net.getaddrinfo (c_str r.domain) (c_str r.port) ∧ net.socket ∧ net.connect then
    match sendLoop net.sends (r.requestData method body headers) with
    | (some (.ok ()), wire) => (some (receive memory net.recvs net.ending), wire)
    | (some (.error e), wire) => (some (.error e), wire)
    | (none, wire) => (none, wire)
  else (some (.error .system_error), [])

/-! ## What is on the wire -/

/-- **No byte is lost, doubled or moved**, whatever the calls of `send` take. -/
theorem sendLoop_spec (sends : List (Option ℕ)) (data : Bytes) :
    (sendLoop sends data).2 <+: data ∧
      ((sendLoop sends data).1 = some (.ok ()) → (sendLoop sends data).2 = data) := by
  induction sends generalizing data with
  | nil =>
    cases data with
    | nil => exact ⟨List.prefix_rfl, fun _ ↦ rfl⟩
    | cons b data => exact ⟨List.nil_prefix, fun h ↦ by cases h⟩
  | cons call sends ih =>
    cases data with
    | nil => cases call <;> exact ⟨List.prefix_rfl, fun _ ↦ rfl⟩
    | cons b data =>
      cases call with
      | none => exact ⟨List.nil_prefix, fun h ↦ by cases h⟩
      | some n =>
        obtain ⟨hbegins, hall⟩ := ih ((b :: data).drop n)
        refine ⟨?_, fun h ↦ ?_⟩
        · obtain ⟨rest, hrest⟩ := hbegins
          refine ⟨rest, ?_⟩
          change (b :: data).take n ++ (sendLoop sends ((b :: data).drop n)).2 ++ rest = _
          rw [List.append_assoc, hrest, List.take_append_drop]
        · change (b :: data).take n ++ (sendLoop sends ((b :: data).drop n)).2 = _
          rw [hall h, List.take_append_drop]

variable {memory : ℕ → Bool}

/-- What is taken is a beginning of the request, and all of it if a response comes back. -/
theorem send_wire (memory : ℕ → Bool) (net : Net) (r : Request) (method body : Bytes)
    (headers : List Bytes) :
    (r.send memory net method body headers).2 <+: r.requestData method body headers ∧
      ∀ response, (r.send memory net method body headers).1 = some (.ok response) →
        (r.send memory net method body headers).2 = r.requestData method body headers ∧
          receive memory net.recvs net.ending = .ok response := by
  obtain ⟨hbegins, hall⟩ := sendLoop_spec net.sends (r.requestData method body headers)
  rw [Request.send]
  split
  · exact ⟨List.nil_prefix, fun response h ↦ by cases h⟩
  · split
    · split
      · next wire hloop =>
        rw [hloop] at hbegins hall
        exact ⟨hbegins, fun response h ↦ ⟨hall rfl, Option.some.inj h⟩⟩
      · next e wire hloop =>
        rw [hloop] at hbegins
        exact ⟨hbegins, fun response h ↦ by cases h⟩
      · next wire hloop =>
        rw [hloop] at hbegins
        exact ⟨hbegins, fun response h ↦ by cases h⟩
    · exact ⟨List.nil_prefix, fun response h ↦ by cases h⟩

/-! ## The server -/

/-- The lines up to the first empty one, and what follows it. -/
def readHeader (stream : Bytes) : Option (List Bytes × Bytes) :=
  match _h : searchCrlf stream with
  | none => none
  | some i =>
    if i = 0 then some ([], stream.drop 2)
    else (readHeader (stream.drop (i + 2))).map fun r ↦ (stream.take i :: r.1, r.2)
termination_by stream.length
decreasing_by
  have hle := add_two_le_of_search _h
  rw [List.length_drop]
  omega

/-- A request as a server understands it. -/
structure Received where
  method : Bytes
  path : Bytes
  headers : List Bytes
  body : Bytes
  deriving DecidableEq

/-- What a server makes of a stream. -/
def readRequest (stream : Bytes) : Option Received :=
  match readHeader stream with
  | some (line :: headers, body) =>
    match line.splitOn 32 with
    | [method, path, version] =>
      if version = ascii "HTTP/1.1" then some ⟨method, path, headers, body⟩ else none
    | _ => none
  | _ => none

theorem readHeader_of_search {stream : Bytes} {i : ℕ} (h : searchCrlf stream = some i) :
    readHeader stream =
      if i = 0 then some ([], stream.drop 2)
      else (readHeader (stream.drop (i + 2))).map fun r ↦ (stream.take i :: r.1, r.2) := by
  rw [readHeader]
  split
  · next hnone => cases h.symm.trans hnone
  · next j hsome =>
    obtain rfl := Option.some.inj (h.symm.trans hsome)
    rfl

theorem eq_of_readHeader {stream rest : Bytes} {lines : List Bytes}
    (h : readHeader stream = some (lines, rest)) :
    (∀ line ∈ lines, line ≠ [] ∧ Unbroken 13 10 line) ∧
      stream = lines.flatMap endLine ++ endLine [] ++ rest := by
  induction hlen : stream.length using Nat.strong_induction_on generalizing stream lines with
  | _ n ih =>
    cases hsearch : searchCrlf stream with
    | none =>
      rw [readHeader] at h
      split at h
      · cases h
      · next hsome => cases hsearch.symm.trans hsome
    | some i =>
      obtain ⟨hline, heq⟩ := search_eq_some hsearch
      rw [readHeader_of_search hsearch] at h
      split at h
      · next hzero =>
        obtain ⟨rfl, rfl⟩ := Prod.mk.inj (Option.some.inj h)
        rw [hzero] at heq
        exact ⟨List.forall_mem_nil _, heq⟩
      · next hpos =>
        obtain ⟨⟨lines', rest'⟩, hrest, hcons⟩ := Option.map_eq_some_iff.mp h
        obtain ⟨rfl, rfl⟩ := Prod.mk.inj hcons
        have hle := add_two_le_of_search hsearch
        obtain ⟨hlines, htail⟩ := ih _ (by rw [List.length_drop]; omega) hrest rfl
        refine ⟨List.forall_mem_cons.mpr ⟨⟨fun hnil ↦ ?_, hline⟩, hlines⟩, ?_⟩
        · have hlength := congrArg List.length hnil
          rw [List.length_take, List.length_nil] at hlength
          omega
        · rw [List.flatMap_cons, List.append_assoc, List.append_assoc, ← List.append_assoc
            (lines'.flatMap endLine), ← htail, endLine, List.append_assoc]
          exact heq

theorem readHeader_lines {lines : List Bytes}
    (hlines : ∀ line ∈ lines, line ≠ [] ∧ Unbroken 13 10 line) (rest : Bytes) :
    readHeader (lines.flatMap endLine ++ endLine [] ++ rest) = some (lines, rest) := by
  induction lines with
  | nil =>
    rw [readHeader_of_search (i := 0) rfl, if_pos rfl]
    rfl
  | cons line lines ih =>
    rw [List.forall_mem_cons] at hlines
    obtain ⟨⟨hne, hline⟩, hlines⟩ := hlines
    have hassoc : (line :: lines).flatMap endLine ++ endLine [] ++ rest =
        line ++ 13 :: 10 :: (lines.flatMap endLine ++ endLine [] ++ rest) := by
      simp only [List.flatMap_cons, endLine, List.append_assoc, List.cons_append, List.nil_append]
    have hdrop : (line ++ 13 :: 10 :: (lines.flatMap endLine ++ endLine [] ++ rest)).drop
        (line.length + 2) = lines.flatMap endLine ++ endLine [] ++ rest := by
      rw [List.drop_append, List.drop_eq_nil_of_le (by omega), Nat.add_sub_cancel_left]
      rfl
    rw [hassoc, readHeader_of_search (search_append_cons (by decide) hline _),
      if_neg (List.length_pos_iff.mpr hne).ne', hdrop, ih hlines, List.take_left]
    rfl

/-- **What the lines are**: a server finds those, and only those, that can be told apart. -/
theorem readHeader_eq_some_iff {stream rest : Bytes} {lines : List Bytes} :
    readHeader stream = some (lines, rest) ↔
      (∀ line ∈ lines, line ≠ [] ∧ Unbroken 13 10 line) ∧
        stream = lines.flatMap endLine ++ endLine [] ++ rest := by
  refine ⟨eq_of_readHeader, ?_⟩
  rintro ⟨hlines, rfl⟩
  exact readHeader_lines hlines rest

/-- The first line of a request. -/
def requestLine (method path : Bytes) : Bytes := method ++ 32 :: (path ++ 32 :: ascii "HTTP/1.1")

theorem splitOn_eq_iff {line method path : Bytes} :
    line.splitOn 32 = [method, path, ascii "HTTP/1.1"] ↔
      (32 ∉ method ∧ 32 ∉ path) ∧ line = requestLine method path := by
  have hjoin : [(32 : UInt8)].intercalate [method, path, ascii "HTTP/1.1"] =
      requestLine method path := by
    simp only [List.intercalate, List.intersperse, List.flatten_cons, List.flatten_nil,
      List.append_nil, requestLine, List.singleton_append]
  have hversion : (32 : UInt8) ∉ ascii "HTTP/1.1" := by decide
  rw [eq_comm, Parts.eq_splitOn_iff, hjoin, List.forall_mem_cons, List.forall_mem_cons,
    List.forall_mem_singleton]
  constructor
  · rintro ⟨-, ⟨hmethod, hpath, -⟩, heq⟩
    exact ⟨⟨hmethod, hpath⟩, heq.symm⟩
  · rintro ⟨⟨hmethod, hpath⟩, heq⟩
    exact ⟨List.cons_ne_nil _ _, ⟨hmethod, hpath, hversion⟩, heq.symm⟩

/-- **What a server understands**, and what it has been sent then. -/
theorem readRequest_eq_some_iff {stream method path body : Bytes} {headers : List Bytes} :
    readRequest stream = some ⟨method, path, headers, body⟩ ↔
      (32 ∉ method ∧ 32 ∉ path) ∧
        (∀ line ∈ requestLine method path :: headers, line ≠ [] ∧ Unbroken 13 10 line) ∧
          stream = (requestLine method path :: headers).flatMap endLine ++ endLine [] ++ body := by
  rw [← readHeader_eq_some_iff]
  constructor
  · intro h
    rw [readRequest] at h
    split at h
    · next line hs rest hread =>
      split at h
      · next method' path' version hsplit =>
        split at h
        · next hversion =>
          simp only [Option.some.injEq, Received.mk.injEq] at h
          obtain ⟨rfl, rfl, rfl, rfl⟩ := h
          rw [hversion, splitOn_eq_iff] at hsplit
          exact ⟨hsplit.1, hsplit.2 ▸ hread⟩
        · cases h
      · cases h
    · cases h
  · rintro ⟨hblanks, hread⟩
    rw [readRequest, hread]
    dsimp only
    rw [splitOn_eq_iff.mpr ⟨hblanks, rfl⟩]
    exact if_pos rfl

namespace Request

variable (r : Request) (method body : Bytes) (headers : List Bytes)

theorem requestData_eq : r.requestData method body headers =
    (requestLine method r.path :: (headers ++ r.ownHeaders body)).flatMap endLine ++ endLine [] ++
      body := by
  rw [requestData, headerData, List.flatMap_cons, List.flatMap_append]
  simp only [List.append_assoc]
  rfl

/-- No part of the request has a line break of its own, no line of the caller is empty, and neither
the method nor the path has a blank. -/
structure Plain : Prop where
  blanks : 32 ∉ method ∧ 32 ∉ r.path
  method : Unbroken 13 10 method
  path : Unbroken 13 10 r.path
  domain : Unbroken 13 10 r.domain
  headers : ∀ header ∈ headers, header ≠ [] ∧ Unbroken 13 10 header

end Request

theorem unbroken_requestLine_iff {method path : Bytes} :
    Unbroken 13 10 (requestLine method path) ↔ Unbroken 13 10 method ∧ Unbroken 13 10 path := by
  rw [requestLine, unbroken_append_cons (by decide) (by decide),
    unbroken_append_cons (by decide) (by decide)]
  exact and_congr_right fun _ ↦ and_iff_left (by decide)

/-- **What a server understands** is the request that was meant, if and only if no part of that can
be taken for something else. -/
theorem readRequest_requestData (r : Request) (method body : Bytes) (headers : List Bytes) :
    readRequest (r.requestData method body headers) =
        some ⟨method, r.path, headers ++ r.ownHeaders body, body⟩ ↔ r.Plain method headers := by
  have hfirst : requestLine method r.path ≠ [] := fun hnil ↦ by
    cases (List.append_eq_nil_iff.mp hnil).2
  have hhost : Unbroken 13 10 (ascii "Host: " ++ r.domain) ↔ Unbroken 13 10 r.domain := by
    have hsplit : ascii "Host: " ++ r.domain = ascii "Host:" ++ 32 :: r.domain := rfl
    rw [hsplit, unbroken_append_cons (by decide) (by decide)]
    exact and_iff_right (by decide)
  have hlength : Unbroken 13 10 (ascii "Content-Length: " ++ to_string body.length) := by
    refine unbroken_of_notMem ?_
    rw [List.mem_append, not_or]
    exact ⟨by decide, notMem_to_string (by decide) _⟩
  rw [readRequest_eq_some_iff, List.forall_mem_cons, unbroken_requestLine_iff,
    List.forall_mem_append, Request.ownHeaders, List.forall_mem_cons, List.forall_mem_singleton,
    hhost]
  constructor
  · rintro ⟨hblanks, ⟨⟨-, hmethod, hpath⟩, hheaders, ⟨-, hdomain⟩, -⟩, -⟩
    exact ⟨hblanks, hmethod, hpath, hdomain, hheaders⟩
  · rintro ⟨hblanks, hmethod, hpath, hdomain, hheaders⟩
    exact ⟨hblanks, ⟨⟨hfirst, hmethod, hpath⟩, hheaders, ⟨List.cons_ne_nil _ _, hdomain⟩,
      List.cons_ne_nil _ _, hlength⟩, r.requestData_eq method body headers⟩

end Http

end OtTcpListener
