import Mathlib
import InferenceGateway.Core.HeaderCase
import InferenceGateway.Core.Survival

/-! # The responses of the inference core

`send_response` writes a status line, three header fields and the payload in one text. The payload may
contain anything, line breaks included; it stands behind the first empty line, and its length is announced
in the spelling that `read_http_request` looks for. So the reader of the core could read the responses of
the core: whole, however they are cut into segments, and without waiting for the connection to be closed.
-/

namespace InferenceGateway.Core

open Common

/-- The digits of a length. -/
def lengthDigits (n : ℕ) : StdString := utf8 (Nat.toDigits 10 n)

theorem decimal_natCast (n : ℕ) : decimal n = lengthDigits n :=
  if_neg (Int.not_lt.mpr (Int.natCast_nonneg n))

theorem isdigit_lengthDigits (n : ℕ) : ∀ b ∈ lengthDigits n, isdigit b = true := by
  intro b hb
  have hscan : b ∈ (scanDecimal (lengthDigits n)).2 := by
    rw [lengthDigits, scanDecimal_digits (isDigit_toDigits n)]
    exact hb
  exact isdigit_of_mem_scanDecimal hscan

theorem spellsLength_lengthDigits (n : ℕ) : SpellsLength (bytes " " ++ lengthDigits n) n := by
  refine ⟨bytes " ", lengthDigits n, [], (List.append_nil _).symm, by decide +kernel, by decide +kernel, ?_,
    isdigit_lengthDigits n, ?_⟩
  · rw [lengthDigits, Ne, utf8_eq_nil_iff]
    exact (Numeral.ofNat n).text_ne_nil
  · rw [lengthDigits, decimalValue_digits (isDigit_toDigits n)]
    exact Nat.ofDigitChars_ten_toDigits

theorem contentType_free : 13 ∉ bytes "Content-Type" ∧ colon ∉ bytes "Content-Type" := by decide +kernel

theorem contentLength_free : 13 ∉ bytes "Content-Length" ∧ colon ∉ bytes "Content-Length" := by decide +kernel

theorem connection_free : 13 ∉ bytes "Connection" ∧ colon ∉ bytes "Connection" := by decide +kernel

theorem applicationJson_free : 13 ∉ bytes " application/json" := by decide +kernel

theorem close_free : 13 ∉ bytes " close" := by decide +kernel

theorem length_free (n : ℕ) : 13 ∉ bytes " " ++ lengthDigits n := by
  rw [List.mem_append]
  rintro (h | h)
  · exact absurd h (by decide +kernel)
  · exact absurd (isdigit_lengthDigits n 13 h) (by decide)

/-- The header fields that `send_response` writes. -/
def responseFields (length : ℕ) : List Field :=
  [{ name := bytes "Content-Type"
     value := bytes " application/json"
     name_free := contentType_free
     value_free := applicationJson_free },
   { name := bytes "Content-Length"
     value := bytes " " ++ lengthDigits length
     name_free := contentLength_free
     value_free := length_free length },
   { name := bytes "Connection"
     value := bytes " close"
     name_free := connection_free
     value_free := close_free }]

/-- A response is a status line, the fields, and the payload behind an empty line. -/
theorem response_eq (statusLine payload : StdString) :
    response (statusLine ++ crlf) payload =
      statusLine ++ fieldLines (responseFields payload.length) ++ headerEnd ++ payload := by
  have htype : bytes "Content-Type: application/json\r\n" =
      bytes "Content-Type" ++ colon :: bytes " application/json" ++ crlf := by decide +kernel
  have hlength : bytes "Content-Length: " = bytes "Content-Length" ++ colon :: bytes " " := by decide +kernel
  have hclose : bytes "Connection: close\r\n\r\n" =
      bytes "Connection" ++ colon :: bytes " close" ++ headerEnd := by decide +kernel
  rw [response, decimal_natCast, htype, hlength, hclose]
  simp only [responseFields, fieldLines, Field.line, List.flatMap_cons, List.flatMap_nil, List.append_assoc,
    List.cons_append, List.append_nil]
  rfl

/-- The three status lines of the core. -/
inductive StatusLine : StdString → Prop
  | ok : StatusLine (bytes "HTTP/1.1 200 OK")
  | badRequest : StatusLine (bytes "HTTP/1.1 400 Bad Request")
  | notFound : StatusLine (bytes "HTTP/1.1 404 Not Found")

theorem StatusLine.not_mem {statusLine : StdString} (h : StatusLine statusLine) : 13 ∉ statusLine := by
  cases h <;> decide +kernel

theorem StatusLine.length_le {statusLine : StdString} (h : StatusLine statusLine) : statusLine.length ≤ 24 := by
  cases h <;> decide +kernel

theorem StatusLine.indexOf_eq_none {statusLine : StdString} (h : StatusLine statusLine) :
    indexOf (bytes "Content-Length:") statusLine = none := by
  cases h <;> decide +kernel

theorem length_lengthDigits_le {n : ℕ} (h : n < 2 ^ 62) : (lengthDigits n).length ≤ 19 := by
  rw [lengthDigits, utf8_digits (isDigit_toDigits n), List.length_map]
  exact Nat.toDigits_length 10 n 19 (by decide) (h.trans (by decide))

theorem length_fieldLines_responseFields (n : ℕ) :
    (fieldLines (responseFields n)).length = 69 + (lengthDigits n).length := by
  have hlines : fieldLines (responseFields n) =
      (crlf ++ bytes "Content-Type: application/json" ++ crlf ++ bytes "Content-Length: ") ++
        (lengthDigits n ++ (crlf ++ bytes "Connection: close")) := by
    have htype : bytes "Content-Type: application/json" =
        bytes "Content-Type" ++ colon :: bytes " application/json" := by decide +kernel
    have hlength : bytes "Content-Length: " = bytes "Content-Length" ++ colon :: bytes " " := by decide +kernel
    have hclose : bytes "Connection: close" = bytes "Connection" ++ colon :: bytes " close" := by
      decide +kernel
    rw [htype, hlength, hclose]
    simp only [responseFields, fieldLines, Field.line, List.flatMap_cons, List.flatMap_nil,
      List.append_assoc, List.cons_append, List.append_nil]
  have hleft : (crlf ++ bytes "Content-Type: application/json" ++ crlf ++
      bytes "Content-Length: ").length = 50 := by decide +kernel
  have hright : (crlf ++ bytes "Connection: close").length = 19 := by decide +kernel
  have hlength (l r : StdString) :
      (l ++ (lengthDigits n ++ r)).length = l.length + ((lengthDigits n).length + r.length) := by
    rw [List.length_append, List.length_append]
  rw [hlines, hlength, hleft, hright]
  omega

/-- The response of a status line and a payload, as a framed message. -/
def responseMessage {statusLine : StdString} (hstatus : StatusLine statusLine) (payload : StdString)
    (hsize : payload.length < 2 ^ 62) : HttpRequest where
  requestLine := statusLine
  fields := responseFields payload.length
  body := payload
  free := hstatus.not_mem
  cap := by
    have hstatus := hstatus.length_le
    have hdigits := length_lengthDigits_le hsize
    rw [List.length_append, length_fieldLines_responseFields, show headerEnd.length = 4 from rfl]
    omega
  size := by
    have hstatus := hstatus.length_le
    have hdigits := length_lengthDigits_le hsize
    rw [List.length_append, length_fieldLines_responseFields, show headerEnd.length = 4 from rfl]
    omega

variable {statusLine : StdString} (hstatus : StatusLine statusLine) {payload : StdString}
  (hsize : payload.length < 2 ^ 62)

theorem stream_responseMessage :
    (responseMessage hstatus payload hsize).framed.stream = response (statusLine ++ crlf) payload :=
  (response_eq statusLine payload).symm

/-- `Content-Length:` occurs in the fields as the name of a field only. -/
theorem indexOf_line_responseFields {n : ℕ} {f : Field} (hf : f ∈ responseFields n) :
    indexOf (bytes "Content-Length:") (f.line.drop 1) = none := by
  simp only [responseFields, List.mem_cons, List.not_mem_nil, or_false] at hf
  rcases hf with rfl | rfl | rfl
  · decide +kernel
  · -- Behind its first letter there is no other capital C.
    have hpat : bytes "Content-Length:" = 67 :: bytes "ontent-Length:" := by decide +kernel
    have hline : (bytes "Content-Length" ++ colon :: (bytes " " ++ lengthDigits n)).drop 1 =
        bytes "ontent-Length: " ++ lengthDigits n := rfl
    refine indexOf_eq_none (by decide +kernel) ?_
    rw [hpat]
    refine noStart_of_head_not_mem ?_
    show 67 ∉ (bytes "Content-Length" ++ colon :: (bytes " " ++ lengthDigits n)).drop 1
    rw [hline, List.mem_append]
    rintro (h | h)
    · exact absurd h (by decide +kernel)
    · exact absurd (isdigit_lengthDigits n 67 h) (by decide)
  · decide +kernel

/-- The length that a response announces is that of its payload. -/
theorem announcedLength_responseMessage :
    announcedLength (responseMessage hstatus payload hsize).framed.block = .ok payload.length := by
  have hcorrect : (responseMessage hstatus payload hsize).LengthCorrect := by
    intro f hf hname
    simp only [responseMessage, responseFields, List.mem_cons, List.not_mem_nil, or_false] at hf
    rcases hf with rfl | rfl | rfl
    · exact absurd hname (by decide +kernel)
    · exact spellsLength_lengthDigits _
    · exact absurd hname (by decide +kernel)
  have hspelled : (responseMessage hstatus payload hsize).SpelledExactly :=
    ⟨_, List.mem_cons_of_mem _ List.mem_cons_self, show bytes "Content-Length" = contentLengthName by
      decide +kernel⟩
  refine (HttpRequest.announcedLength_block ⟨hstatus.indexOf_eq_none, fun f hf => ?_⟩ hcorrect).trans
    (congrArg Except.ok (if_pos hspelled))
  exact indexOf_line_responseFields hf

/-- What a reader finds behind the first empty line of a response. -/
theorem after_headerEnd_response {statusLine : StdString} (hfree : 13 ∉ statusLine) (payload : StdString) :
    after headerEnd (response (statusLine ++ crlf) payload) = some payload := by
  have hstart (rest : StdString) :
      NoStart headerEnd (statusLine ++ fieldLines (responseFields payload.length)) rest := by
    rw [noStart_append]
    refine ⟨?_, noStart_fieldLines _ _⟩
    rw [headerEnd_eq]
    exact noStart_of_head_not_mem hfree
  rw [response_eq, List.append_assoc]
  exact after_of_noStart (hstart _)

/-- A response is read back whole, however it is cut into segments and whatever comes behind it. -/
theorem readHttpRequest_response (hstatus : StatusLine statusLine) (hsize : payload.length < 2 ^ 62)
    {segments : List Segment} (h : received segments = response (statusLine ++ crlf) payload)
    (later : List Segment) (ending : Option PeerEnd) :
    readHttpRequest ⟨segments ++ later, ending⟩ = .ok (response (statusLine ++ crlf) payload) := by
  have hstream := stream_responseMessage hstatus hsize
  have hsegments := h.trans hstream.symm
  have hread := (responseMessage hstatus payload hsize).framed.readHttpRequest_of_announced
    (announcedLength_responseMessage hstatus hsize) le_rfl hsegments later ending
  have hall : (responseMessage hstatus payload hsize).framed.body.length ≤ max payload.length
      ((responseMessage hstatus payload hsize).framed.arrived segments) := le_max_left _ _
  rw [hread, ← hstream, FramedRequest.upTo, List.take_of_length_le hall]
  rfl

/-- What `handle_client_connection` sends has one of the three status lines. -/
theorem route_sends {lib : StdFloat} {nowMs : ℤ} {request : StdString} {ops : List SocketOp}
    (h : route lib nowMs request = .ok ops) :
    ∃ statusLine payload, StatusLine statusLine ∧ ops = reply (statusLine ++ crlf) payload := by
  have hok : bytes "HTTP/1.1 200 OK\r\n" = bytes "HTTP/1.1 200 OK" ++ crlf := by decide +kernel
  have hbad : bytes "HTTP/1.1 400 Bad Request\r\n" = bytes "HTTP/1.1 400 Bad Request" ++ crlf := by
    decide +kernel
  have hnot : bytes "HTTP/1.1 404 Not Found\r\n" = bytes "HTTP/1.1 404 Not Found" ++ crlf := by
    decide +kernel
  rw [route_eq, hok, hbad, hnot] at h
  split_ifs at h
  · cases h
    exact ⟨_, _, .badRequest, rfl⟩
  · cases h
    exact ⟨_, _, .ok, rfl⟩
  · cases hbody : after headerEnd request with
    | none =>
      rw [hbody] at h
      cases h
      exact ⟨_, _, .badRequest, rfl⟩
    | some body =>
      rw [hbody] at h
      dsimp only at h
      cases hparse : parseRequestBody lib body with
      | error e =>
        rw [hparse] at h
        cases h
      | ok details =>
        rw [hparse] at h
        cases h
        exact ⟨_, _, .ok, rfl⟩
  · cases h
    exact ⟨_, _, .notFound, rfl⟩

/-- What the core sends on a connection is a framed message: the payload stands behind the first empty line,
and whoever reads as the core does gets the message whole, from however many segments, without waiting for
the end of the connection and without taking anything of what comes behind. -/
theorem sent_response_framed {lib : StdFloat} {nowMs : ℤ} {peer : Peer} {ops : List SocketOp}
    (hops : handleClientConnection lib nowMs peer = .ok ops) :
    ∃ sent payload, ops = [.send sent, .close] ∧ after headerEnd sent = some payload ∧
      (payload.length < 2 ^ 62 → ∀ segments later ending, received segments = sent →
        readHttpRequest ⟨segments ++ later, ending⟩ = .ok sent) := by
  obtain ⟨request, -, hroute, -⟩ := handleClientConnection_eq_ok.mp hops
  obtain ⟨statusLine, payload, hstatus, rfl⟩ := route_sends hroute
  refine ⟨response (statusLine ++ crlf) payload, payload, rfl,
    after_headerEnd_response hstatus.not_mem payload, fun hsize segments later ending hsegments => ?_⟩
  exact readHttpRequest_response hstatus hsize hsegments later ending

/-- The answer to a peer that sends nothing. -/
theorem sent_response_framed_empty :
    ∃ ops, handleClientConnection noFloat 0 ⟨[], some .closed⟩ = .ok ops ∧
      ∃ sent payload, ops = [.send sent, .close] ∧ after headerEnd sent = some payload ∧
        (payload.length < 2 ^ 62 → ∀ segments later ending, received segments = sent →
          readHttpRequest ⟨segments ++ later, ending⟩ = .ok sent) := by
  have hok : (handleClientConnection noFloat 0 ⟨[], some .closed⟩).isOk = true := by decide +kernel
  cases hops : handleClientConnection noFloat 0 ⟨[], some .closed⟩ with
  | error e =>
    rw [hops] at hok
    cases hok
  | ok ops => exact ⟨ops, rfl, sent_response_framed hops⟩

end InferenceGateway.Core
