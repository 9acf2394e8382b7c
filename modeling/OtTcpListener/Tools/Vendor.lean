import OtTcpListener.Http.Request

/-!
# The vendor of a network card

`NetworkTools::getVendor` asks a server for the vendor of an address, with the address appended to a
URL as it is. Whatever exception `Request::send` throws, the call returns `false` and leaves the
vendor alone. Whatever status comes back, it returns `true`, and the body is the vendor: a page that
says that the vendor is unknown is one too.
-/

namespace OtTcpListener

open Bytes Lines Http

namespace NetworkTools

variable (memory : ℕ → Bool) (net : Net) (mac vendor : Bytes)

/-- The URL. -/
def query : Bytes := ascii "http://api.macvendors.com/" ++ mac

/-- What the caller gets of a call of `Request::send`: the result and the vendor, and still an error
where nothing is thrown. -/
def vendorOf : Except Http.Fault Response → Except Http.Fault (Bool × Bytes)
  | .ok response => .ok (true, response.body)
  | .error .undefined => .error .undefined
  | .error .endless => .error .endless
  | .error _ => .ok (false, vendor)

/-- `NetworkTools::getVendor`, and the bytes that have been sent. -/
def getVendor : Option (Except Http.Fault (Bool × Bytes)) × Bytes :=
  let (result, wire) := (Request.ofUrl (query mac)).send memory net (ascii "GET") [] []
  (result.map (vendorOf vendor), wire)

/-! ## The request -/

/-- The URL is taken apart as intended, up to a fragment. -/
theorem ofUrl_query :
    (Request.ofUrl (query mac)).scheme = ascii "http" ∧
      (Request.ofUrl (query mac)).domain = ascii "api.macvendors.com" ∧
        (Request.ofUrl (query mac)).port = ascii "80" ∧
          (Request.ofUrl (query mac)).path = 47 :: (cut 35 mac).1 := by
  have hfind : findStr (ascii "://") (query mac) = some 4 :=
    have hhttp : findStr (ascii "://") (ascii "http://") = some 4 := by decide +kernel
    findStr_take_append hhttp (ascii "api.macvendors.com/" ++ mac)
  have hscheme :
      schemeOf (query mac) = (ascii "http", ascii "api.macvendors.com" ++ 47 :: mac) := by
    rw [schemeOf, hfind]
    rfl
  have hfragment : (cut 35 (ascii "api.macvendors.com" ++ 47 :: mac)).1 =
      ascii "api.macvendors.com" ++ 47 :: (cut 35 mac).1 := by
    have hfree : (35 : UInt8) ∉ ascii "api.macvendors.com" := by decide +kernel
    rcases cut_cases 35 mac with ⟨hmac, heq⟩ | ⟨front, rest, hfront, rfl, heq⟩
    · rw [heq, cut_of_notMem]
      rw [List.mem_append, List.mem_cons, not_or, not_or]
      exact ⟨hfree, by decide, hmac⟩
    · have hassoc : ascii "api.macvendors.com" ++ 47 :: (front ++ 35 :: rest) =
          ascii "api.macvendors.com" ++ 47 :: front ++ 35 :: rest := by
        rw [List.append_assoc, List.cons_append]
      rw [heq, hassoc, cut_append]
      rw [List.mem_append, List.mem_cons, not_or, not_or]
      exact ⟨hfree, by decide, hfront⟩
  have hpath : cut 47 (ascii "api.macvendors.com" ++ 47 :: (cut 35 mac).1) =
      (ascii "api.macvendors.com", some (47 :: (cut 35 mac).1)) :=
    cut_append (by decide +kernel) _
  have hport : cut 58 (ascii "api.macvendors.com") = (ascii "api.macvendors.com", none) :=
    cut_of_notMem (by decide +kernel)
  refine ⟨?_, ?_, ?_, ?_⟩ <;> simp only [Request.ofUrl, hscheme, hfragment, hpath, hport] <;> rfl

/-- **What the server is asked for**: the address as it is, if and only if that has neither a
fragment nor a line break or a blank. -/
theorem readRequest_query_iff :
    (∃ headers, readRequest ((Request.ofUrl (query mac)).requestData (ascii "GET") [] []) =
      some ⟨ascii "GET", 47 :: mac, headers, []⟩) ↔
        35 ∉ mac ∧ 32 ∉ mac ∧ Unbroken 13 10 mac := by
  obtain ⟨-, hdomain, -, hpath⟩ := ofUrl_query mac
  have hrooted {path : Bytes} : Unbroken 13 10 (47 :: path) ↔ Unbroken 13 10 path := by
    rw [unbroken_cons_iff]
    exact and_iff_right fun h ↦ by cases h.1
  constructor
  · rintro ⟨headers, h⟩
    obtain ⟨⟨-, hblank⟩, hlines, hstream⟩ := readRequest_eq_some_iff.mp h
    have hline := (hlines _ List.mem_cons_self).2
    rw [unbroken_requestLine_iff, hrooted] at hline
    refine ⟨?_, fun hmem ↦ hblank (List.mem_cons_of_mem _ hmem), hline.2⟩
    -- behind the part before a fragment the request has a blank
    rcases cut_cases 35 mac with ⟨hmac, -⟩ | ⟨front, rest, -, rfl, hcut⟩
    · exact hmac
    · rw [Request.requestData_eq, hpath, hcut] at hstream
      simp only [requestLine, List.flatMap_cons, endLine, List.append_assoc, List.cons_append,
        List.append_cancel_left_eq, List.cons.injEq, true_and] at hstream
      cases hstream.1
  · rintro ⟨hmac, hblank, hbroken⟩
    have hwhole : (Request.ofUrl (query mac)).path = 47 :: mac := by
      rw [hpath, cut_of_notMem hmac]
    have hread := (readRequest_requestData (Request.ofUrl (query mac)) (ascii "GET") [] []).mpr
      { blanks := ⟨by decide, by rw [hwhole, List.mem_cons, not_or]; exact ⟨by decide, hblank⟩⟩
        method := by decide
        path := by rw [hwhole]; exact hrooted.mpr hbroken
        domain := by rw [hdomain]; decide +kernel
        headers := List.forall_mem_nil _ }
    rw [hwhole] at hread
    exact ⟨_, hread⟩

/-! ## The call -/

/-- **A vendor end to end.** When the server can be reached, takes the request and answers with a
message, the body of that is the vendor, whatever its status. The server has been asked for the
address if and only if that has neither a fragment nor a line break or a blank. -/
theorem getVendor_message (m : Message)
    (hreach : net.getaddrinfo (ascii "api.macvendors.com") (ascii "80") = true ∧
      net.socket = true ∧ net.connect = true)
    (hsent : (sendLoop net.sends
      ((Request.ofUrl (query mac)).requestData (ascii "GET") [] [])).1 = some (.ok ()))
    (hstream : stream net.recvs = m.bytes) (hend : m.framing.Delimited ∨ net.ending = .closed)
    (hroom : m.framing.Room memory) (hfits : m.framing.Fits) :
    (getVendor memory net mac vendor).1 = some (.ok (true, m.framing.body)) ∧
      ((∃ headers, readRequest (getVendor memory net mac vendor).2 =
        some ⟨ascii "GET", 47 :: mac, headers, []⟩) ↔
          35 ∉ mac ∧ 32 ∉ mac ∧ Unbroken 13 10 mac) := by
  obtain ⟨hscheme, hdomain, hport, -⟩ := ofUrl_query mac
  have hreceive := receive_message_alone m hroom hfits net.recvs net.ending hstream hend
  have hresult : ((Request.ofUrl (query mac)).send memory net (ascii "GET") [] []).1 =
      some (.ok m.response) := by
    have hnul : c_str (ascii "api.macvendors.com") = ascii "api.macvendors.com" ∧
        c_str (ascii "80") = ascii "80" := by decide +kernel
    rw [Request.send, hscheme, hdomain, hport, hnul.1, hnul.2, if_neg (fun h ↦ h rfl),
      if_pos hreach]
    cases hloop : sendLoop net.sends
      ((Request.ofUrl (query mac)).requestData (ascii "GET") [] []) with
    | mk result wire =>
      rw [hloop] at hsent
      obtain rfl : result = some (.ok ()) := hsent
      exact congrArg some hreceive
  have hwire := ((send_wire memory net _ _ _ _).2 _ hresult).1
  refine ⟨?_, ?_⟩
  · rw [getVendor]
    exact congrArg (Option.map (vendorOf vendor)) hresult
  · rw [← readRequest_query_iff mac, ← hwire]
    rfl

/-- An answer that says that the vendor is unknown. -/
theorem getVendor_message_unknown :
    (getVendor (fun _ ↦ true) ⟨fun _ _ ↦ true, true, true, [some 20, some 4096],
      [⟨ascii "HTTP/1.1 404 Not Found\r\n\r\nNot ", by decide +kernel⟩,
        ⟨ascii "Found", by decide +kernel⟩], .closed⟩ (ascii "00-00-00") []).1 =
      some (.ok (true, ascii "Not Found")) := by
  let m : Message :=
    { version := ascii "HTTP/1.1"
      status := ⟨404, by decide⟩
      reason := ascii "Not Found"
      version_ne_nil := by decide +kernel
      notMem_version := by decide +kernel
      unbroken := unbroken_of_notMem (by decide +kernel)
      before := []
      framing := .untilClosed (ascii "Not Found")
      after := [] }
  exact (getVendor_message _ _ _ _ m ⟨rfl, rfl, rfl⟩ (by decide +kernel) (by decide +kernel)
    (.inr rfl) trivial trivial).1

end NetworkTools

end OtTcpListener
