import InferenceGateway.Core.Survival

/-! # A request that is cut short

Reference: `read_http_request` and `handle_client_connection` in `inference_core.cpp`.

A peer announces more body bytes than it delivers and then closes the connection or fails.
`read_available_data` notices, `read_http_request` drops what it says and returns the part of the body that
came with the header block, and the handler computes on that part. The only errors that such a peer is told
of are those of a reader that never saw the end of the header block, because its cap of 64 KiB stopped it.
-/

namespace InferenceGateway.Core

open Common

/-! ## The cap of the reader -/

/-- What has been received when the reader's cap is exceeded. -/
def pastCap : StdString → List Segment → Option StdString
  | _, [] => none
  | request, segment :: segments =>
    if (request ++ segment.data).length > 64 * 1024 then some (request ++ segment.data)
    else pastCap (request ++ segment.data) segments

theorem length_le_of_pastCap {request cut : StdString} {segments : List Segment}
    (h : pastCap request segments = some cut) : request.length ≤ cut.length := by
  induction segments generalizing request with
  | nil => cases h
  | cons segment segments ih =>
    rw [pastCap] at h
    split at h
    · cases h
      rw [List.length_append]
      omega
    · have := ih h
      rw [List.length_append] at this
      omega

theorem cap_lt_of_pastCap {request cut : StdString} {segments : List Segment}
    (h : pastCap request segments = some cut) : 64 * 1024 < cut.length := by
  induction segments generalizing request with
  | nil => cases h
  | cons segment segments ih =>
    rw [pastCap] at h
    split at h
    · cases h
      assumption
    · exact ih h

theorem pastCap_prefix {request cut : StdString} {segments : List Segment}
    (h : pastCap request segments = some cut) : cut <+: request ++ received segments := by
  induction segments generalizing request with
  | nil => cases h
  | cons segment segments ih =>
    have hreceived : received (segment :: segments) = segment.data ++ received segments := rfl
    rw [pastCap] at h
    rw [hreceived, ← List.append_assoc]
    split at h
    · cases h
      exact List.prefix_append _ _
    · exact ih h

/-- The cap stops the reader before the header block of the given length is complete. -/
def CapStops (headLength : ℕ) (request : StdString) (segments : List Segment) : Prop :=
  ∃ cut, pastCap request segments = some cut ∧ cut.length < headLength

/-- The first loop is left with a request that reaches into the body, unless the cap stops it. -/
theorem readHeader_cases (request : StdString) {block body : StdString} {segments : List Segment}
    (hends : indexOf headerEnd (block ++ headerEnd) = some block.length)
    (h : request ++ received segments = block ++ headerEnd ++ body)
    (hshort : request.length < (block ++ headerEnd).length) :
    (∃ cut rest, pastCap request segments = some cut ∧ cut.length < (block ++ headerEnd).length ∧
      readHeader request segments = (cut, rest, true)) ∨
    (¬ CapStops (block ++ headerEnd).length request segments ∧
      ∃ k rest, k ≤ body.length ∧ received rest = body.drop k ∧
        readHeader request segments = (block ++ headerEnd ++ body.take k, rest, true)) := by
  induction segments generalizing request with
  | nil =>
    have hlen := congrArg List.length h
    simp only [received, List.flatMap_nil, List.append_nil, List.length_append] at hlen hshort
    omega
  | cons segment segments ih =>
    have hreceived : received (segment :: segments) = segment.data ++ received segments := rfl
    rw [hreceived, ← List.append_assoc] at h
    unfold CapStops
    rw [readHeader, find_zero, pastCap]
    by_cases hcomplete : (block ++ headerEnd).length ≤ (request ++ segment.data).length
    · -- The header block is complete with this segment, and every later cut is longer.
      right
      obtain ⟨hrequest, hrest⟩ := received_eq_of_long h hcomplete
      constructor
      · rintro ⟨cut, hcut, hlt⟩
        split at hcut
        · cases hcut
          omega
        · have := length_le_of_pastCap hcut
          omega
      · refine ⟨(request ++ segment.data).length - (block ++ headerEnd).length, segments, ?_, hrest, ?_⟩
        · have hlen := congrArg List.length h
          simp only [List.length_append] at hlen ⊢
          omega
        · have hfound : (indexOf headerEnd (request ++ segment.data)).isSome = true := by
            rw [hrequest, indexOf_headerEnd_block hends]
            rfl
          rw [if_pos hfound, ← hrequest]
    · rw [Nat.not_le] at hcomplete
      rw [indexOf_headerEnd_of_short hends h hcomplete, Option.isSome_none, if_neg Bool.false_ne_true]
      by_cases hcap : (request ++ segment.data).length > 64 * 1024
      · rw [if_pos hcap]
        exact .inl ⟨_, segments, rfl, hcomplete, if_pos hcap⟩
      · rw [if_neg hcap, if_neg hcap]
        exact ih _ h hcomplete

/-! ## The request line -/

theorem prefix_before (pat s : StdString) : before pat s <+: s := by
  unfold before
  split
  · exact List.prefix_refl s
  · exact List.take_prefix _ s

theorem before_append {pat s : StdString} {i : ℕ} (h : indexOf pat s = some i) (t : StdString) :
    before pat (s ++ t) = before pat s := by
  have hle := add_length_le_of_indexOf_eq_some h
  rw [before, before, h, indexOf_append_of_eq_some h t]
  exact List.take_append_of_le_length (by omega)

/-- The request line is within the header block. -/
theorem isInfer_append {head : StdString} (hcrlf : (indexOf crlf head).isSome) (rest : StdString) :
    IsInfer (head ++ rest) ↔ IsInfer head := by
  obtain ⟨i, hi⟩ := Option.isSome_iff_exists.mp hcrlf
  unfold IsInfer
  rw [before_append hi]

/-- The first byte that is no space is that of every longer text. -/
theorem head?_dropWhile_of_prefix {p : UInt8 → Bool} {s t : StdString} (hpre : s <+: t)
    (hs : s.dropWhile p ≠ []) : (t.dropWhile p).head? = (s.dropWhile p).head? := by
  obtain ⟨rest, rfl⟩ := hpre
  rw [List.dropWhile_append, if_neg (by rwa [List.isEmpty_iff])]
  exact List.head?_append_of_ne_nil _ hs

/-- A word begins with the first byte of the text that is no space. -/
theorem head?_of_extractWord {s : StdString} (b : UInt8) (word : StdString) (h : (extractWord s).1 = b :: word) :
    s.dropWhile isspace ≠ [] ∧ (s.dropWhile isspace).head? = some b := by
  have hword : (s.dropWhile isspace).takeWhile (fun c => !isspace c) = b :: word := h
  have hsplit := List.takeWhile_append_dropWhile (p := fun c => !isspace c) (l := s.dropWhile isspace)
  rw [hword] at hsplit
  rw [← hsplit]
  exact ⟨List.cons_ne_nil _ _, rfl⟩

/-- What has been received of `POST /infer` does not ask for `GET /health`. -/
theorem not_isHealth_of_cut {cut head : StdString} (hpre : cut <+: head) (hinfer : IsInfer head) :
    ¬ IsHealth cut := by
  intro hhealth
  obtain ⟨hne, hget⟩ := head?_of_extractWord 71 (bytes "ET") hhealth.1
  obtain ⟨hne', hpost⟩ := head?_of_extractWord 80 (bytes "OST") hinfer.1
  have hcut := head?_dropWhile_of_prefix ((prefix_before crlf cut).trans hpre) hne
  have hhead := head?_dropWhile_of_prefix (prefix_before crlf head) hne'
  rw [hcut, hget, hpost] at hhead
  exact absurd hhead (by decide)

/-! ## Truncated requests -/

/-- A `POST /infer` whose header block has a line `Content-Length: n`, with fewer than `n` bytes behind the
header block. -/
structure TruncatedRequest where
  block : StdString
  body : StdString
  ends : indexOf headerEnd (block ++ headerEnd) = some block.length
  infer : IsInfer (block ++ headerEnd)
  announced : ℕ
  carries : ∃ lines value rest, block = lines ++ crlf ++ bytes "Content-Length:" ++ value ++ rest ∧
    (rest = [] ∨ crlf <+: rest) ∧ SpellsLength value announced
  short : body.length < announced

/-- The header block with its `CRLFCRLF`. -/
def TruncatedRequest.head (r : TruncatedRequest) : StdString := r.block ++ headerEnd

/-- All that the peer delivers. -/
def TruncatedRequest.stream (r : TruncatedRequest) : StdString := r.head ++ r.body

/-- The response has an error status. -/
def IsErrorResponse (response : StdString) : Prop :=
  bytes "HTTP/1.1 4" <+: response ∨ bytes "HTTP/1.1 5" <+: response

/-- The peer is told of an error. -/
def ReportsError (lib : StdFloat) (nowMs : ℤ) (peer : Peer) : Prop :=
  ∃ response, handleClientConnection lib nowMs peer = .ok [.send response, .close] ∧
    IsErrorResponse response

theorem isErrorResponse_badRequest (payload : StdString) :
    IsErrorResponse (response (bytes "HTTP/1.1 400 Bad Request\r\n") payload) := by
  left
  have hline : bytes "HTTP/1.1 4" <+: bytes "HTTP/1.1 400 Bad Request\r\n" := by decide +kernel
  unfold response
  simp only [List.append_assoc]
  exact hline.trans (List.prefix_append _ _)

theorem isErrorResponse_notFound (payload : StdString) :
    IsErrorResponse (response (bytes "HTTP/1.1 404 Not Found\r\n") payload) := by
  left
  have hline : bytes "HTTP/1.1 4" <+: bytes "HTTP/1.1 404 Not Found\r\n" := by decide +kernel
  unfold response
  simp only [List.append_assoc]
  exact hline.trans (List.prefix_append _ _)

theorem not_isErrorResponse_ok (payload : StdString) :
    ¬ IsErrorResponse (response (bytes "HTTP/1.1 200 OK\r\n") payload) := by
  have hline : bytes "HTTP/1.1 2" <+: response (bytes "HTTP/1.1 200 OK\r\n") payload := by
    have hline : bytes "HTTP/1.1 2" <+: bytes "HTTP/1.1 200 OK\r\n" := by decide +kernel
    unfold response
    simp only [List.append_assoc]
    exact hline.trans (List.prefix_append _ _)
  rintro (h | h)
  · have := List.prefix_of_prefix_length_le h hline (by decide +kernel)
    exact absurd this (by decide +kernel)
  · have := List.prefix_of_prefix_length_le h hline (by decide +kernel)
    exact absurd this (by decide +kernel)

section Truncated

variable {lib : StdFloat} {nowMs : ℤ} {peer : Peer}

/-- A request line with nothing that ends a header block behind it is answered with an error. -/
theorem route_of_cut (lib : StdFloat) (nowMs : ℤ) {cut head : StdString} (hpre : cut <+: head)
    (hinfer : IsInfer head) (hend : after headerEnd cut = none) :
    ∃ response, route lib nowMs cut = .ok [.send response, .close] ∧ IsErrorResponse response := by
  rw [route_eq]
  split_ifs with hempty hhealth hroute
  · exact ⟨_, rfl, isErrorResponse_badRequest _⟩
  · exact absurd hhealth (not_isHealth_of_cut hpre hinfer)
  · rw [hend]
    exact ⟨_, rfl, isErrorResponse_badRequest _⟩
  · exact ⟨_, rfl, isErrorResponse_notFound _⟩

/-- A request line with a body behind it is answered with a result, if at all. -/
theorem route_of_body (lib : StdFloat) (nowMs : ℤ) {request body : StdString} (hinfer : IsInfer request)
    (hbody : after headerEnd request = some body) :
    route lib nowMs request = (parseRequestBody lib body).map fun requestDetails =>
      reply (bytes "HTTP/1.1 200 OK\r\n") (buildInferenceJson lib nowMs requestDetails) := by
  have hempty : request ≠ [] := by
    rintro rfl
    exact absurd hinfer (by decide)
  have hhealth : ¬ IsHealth request := fun hhealth =>
    absurd (hhealth.1.symm.trans hinfer.1) (by decide)
  rw [route_eq, if_neg hempty, if_neg hhealth, if_pos hinfer, hbody]

/-- A reader that its cap stops returns what it has left, unless the text behind a `Content-Length:` in it
throws. It has not met the end of the stream, so that does not matter. -/
theorem readHttpRequest_of_cut {segments rest : List Segment} {cut : StdString}
    (hread : readHeader [] segments = (cut, rest, true)) (hend : after headerEnd cut = none)
    (e : Option PeerEnd) :
    readHttpRequest ⟨segments, e⟩ = .ok cut ∧ (∀ text, contentLengthText cut = some text → IsULong text) ∨
      ∃ err text, readHttpRequest ⟨segments, e⟩ = .error (.exception err) ∧
        contentLengthText cut = some text ∧ ¬ IsULong text := by
  cases htext : contentLengthText cut with
  | none =>
    have hok : readHttpRequest ⟨segments, e⟩ = .ok cut := by
      rw [readHttpRequest, hread]
      dsimp only
      rw [readBody_eq_completeBody, htext]
    refine .inl ⟨hok, fun text h => ?_⟩
    cases h
  | some text =>
    have hrequest : readHttpRequest ⟨segments, e⟩ = (uncaught (stoul text)).map fun _ => cut := by
      rw [readHttpRequest, hread]
      dsimp only
      rw [readBody_eq_completeBody, htext]
      dsimp only
      unfold completeBody
      rw [hend]
      cases stoul text <;> rfl
    cases hn : stoul text with
    | error err =>
      rw [hn] at hrequest
      refine .inr ⟨err, text, hrequest, rfl, fun hlong => ?_⟩
      obtain ⟨n, hok⟩ := stoul_returns_iff.mpr hlong
      cases hn.symm.trans hok
    | ok n =>
      rw [hn] at hrequest
      refine .inl ⟨hrequest, fun text' h => ?_⟩
      cases h
      exact stoul_returns_iff.mp ⟨n, hn⟩

theorem withBody_prefix {head request : StdString} (hpre : head <+: request) (contentLength : ℕ)
    (segments : List Segment) : head <+: withBody request contentLength segments := by
  unfold withBody
  split
  · exact hpre
  · split
    · split
      · exact hpre.trans (List.prefix_append _ _)
      · exact hpre
    · exact hpre

/-- Behind a complete header block, whatever is read of the body is taken for the body. -/
theorem readHttpRequest_of_complete {block body : StdString} {segments rest : List Segment} {k : ℕ}
    (hread : readHeader [] segments = (block ++ headerEnd ++ body.take k, rest, true)) (e : PeerEnd)
    {request : StdString} (h : readHttpRequest ⟨segments, some e⟩ = .ok request) :
    block ++ headerEnd <+: request := by
  rw [readHttpRequest, hread] at h
  dsimp only at h
  rw [readBody_eq rfl] at h
  split at h
  · cases h
    exact List.prefix_append _ _
  · rename_i text _
    cases hn : stoul text with
    | error err =>
      rw [hn] at h
      cases h
    | ok n =>
      rw [hn] at h
      cases h
      exact withBody_prefix (List.prefix_append _ _) n rest

/-- A handler that gets past the header block tells of no error. -/
theorem not_reportsError_of_complete {block : StdString} {segments : List Segment} {e : PeerEnd}
    (hends : indexOf headerEnd (block ++ headerEnd) = some block.length)
    (hinfer : IsInfer (block ++ headerEnd))
    (hread : ∀ request, readHttpRequest ⟨segments, some e⟩ = .ok request →
      block ++ headerEnd <+: request) : ¬ ReportsError lib nowMs ⟨segments, some e⟩ := by
  rintro ⟨sent, hsent, herror⟩
  obtain ⟨request, hrequest, hsent, -⟩ := handleClientConnection_eq_ok.mp hsent
  obtain ⟨rest, rfl⟩ := hread request hrequest
  have hcrlf : (indexOf crlf (block ++ headerEnd)).isSome = true := by
    by_contra hnone
    rw [Bool.not_eq_true, Option.isSome_eq_false_iff, Option.isNone_iff_eq_none] at hnone
    -- The end of the header block begins with a line break.
    have := indexOf_eq_none_of_append hnone
    exact absurd this (by decide +kernel)
  rw [route_of_body lib nowMs ((isInfer_append hcrlf rest).mpr hinfer) (after_headerEnd_block hends rest)] at hsent
  cases hparse : parseRequestBody lib rest with
  | error err =>
    rw [hparse] at hsent
    cases hsent
  | ok details =>
    rw [hparse] at hsent
    cases hsent
    exact not_isErrorResponse_ok _ herror

/-- Behind what such a reader returns, only a peer that is gone does not take a response. -/
theorem takesResponse_of_cut {segments rest : List Segment} {cut : StdString}
    (hread : readHeader [] segments = (cut, rest, true)) (hend : after headerEnd cut = none)
    (htext : ∀ text, contentLengthText cut = some text → IsULong text) (e : PeerEnd) :
    TakesResponse segments e ↔ e ≠ .gone := by
  cases e with
  | closed => exact ⟨fun _ => PeerEnd.noConfusion, fun _ => trivial⟩
  | gone => exact ⟨False.elim, fun h => absurd rfl h⟩
  | failed =>
    refine ⟨fun _ => PeerEnd.noConfusion, fun _ => ?_⟩
    rcases readHttpRequest_of_cut hread hend none with ⟨hok, -⟩ | ⟨-, text, -, hsome, hnot⟩
    · exact ⟨cut, hok⟩
    · exact absurd (htext text hsome) hnot

/-- A handler whose reader is stopped by its cap tells of an error unless the text behind a
`Content-Length:` throws or nobody is there to be told. -/
theorem reportsError_of_cut_iff {head cut : StdString} {segments rest : List Segment}
    (hread : readHeader [] segments = (cut, rest, true)) (hpre : cut <+: head) (hinfer : IsInfer head)
    (hend : after headerEnd cut = none) (e : PeerEnd) :
    ReportsError lib nowMs ⟨segments, some e⟩ ↔
      e ≠ .gone ∧ ∀ text, contentLengthText cut = some text → IsULong text := by
  obtain ⟨sent, hroute, herror⟩ := route_of_cut lib nowMs hpre hinfer hend
  rcases readHttpRequest_of_cut hread hend (some e) with ⟨hok, htext⟩ | ⟨err, text, herr, hsome, hnot⟩
  · rw [← takesResponse_of_cut hread hend htext e, ← brokenPipe_eq_false_iff hok]
    constructor
    · rintro ⟨_, hsent, -⟩
      obtain ⟨-, -, -, hpipe⟩ := handleClientConnection_eq_ok.mp hsent
      exact ⟨hpipe, htext⟩
    · rintro ⟨hpipe, -⟩
      exact ⟨sent, handleClientConnection_eq_ok.mpr ⟨cut, hok, hroute, hpipe⟩, herror⟩
  · constructor
    · rintro ⟨_, hsent, -⟩
      obtain ⟨request, hrequest, -⟩ := handleClientConnection_eq_ok.mp hsent
      rw [herr] at hrequest
      cases hrequest
    · exact fun h => absurd (h.2 text hsome) hnot

/-- A peer that delivers less of a body than it has announced is told of an error exactly if the cap of the
reader, exceeded before the end of the header block has arrived, stops the reader there, the text behind
a `Content-Length:` in what has arrived until then begins with a number, and the peer is there to be told; in
particular never with a header block of up to 64 KiB. -/
theorem truncated_reportsError_iff (lib : StdFloat) (nowMs : ℤ) (r : TruncatedRequest)
    (segments : List Segment) (h : received segments = r.stream) (e : PeerEnd) :
    (ReportsError lib nowMs ⟨segments, some e⟩ ↔
      e ≠ .gone ∧ ∃ cut, pastCap [] segments = some cut ∧ cut.length < r.head.length ∧
        ∀ text, contentLengthText cut = some text → IsULong text) ∧
    (r.head.length ≤ 64 * 1024 → ¬ ReportsError lib nowMs ⟨segments, some e⟩) := by
  have hiff : ReportsError lib nowMs ⟨segments, some e⟩ ↔
      e ≠ .gone ∧ ∃ cut, pastCap [] segments = some cut ∧ cut.length < r.head.length ∧
        ∀ text, contentLengthText cut = some text → IsULong text := by
    have hpos : ([] : StdString).length < (r.block ++ headerEnd).length := by
      rw [List.length_append, List.length_nil]
      exact Nat.lt_add_left _ (by decide)
    rcases readHeader_cases [] r.ends h hpos with
      ⟨cut, rest, hcut, hlt, hread⟩ | ⟨hnot, k, rest, -, -, hread⟩
    · have hstream : cut <+: r.head ++ r.body := by
        have := pastCap_prefix hcut
        rwa [List.nil_append, h] at this
      have hpre : cut <+: r.head :=
        List.prefix_of_prefix_length_le hstream (List.prefix_append _ _) hlt.le
      obtain ⟨more, hmore⟩ := hstream
      have hend : after headerEnd cut = none := by
        rw [after, indexOf_headerEnd_of_short r.ends hmore hlt, Option.map_none]
      rw [reportsError_of_cut_iff hread hpre r.infer hend]
      refine and_congr_right fun _ => ?_
      constructor
      · intro htext
        exact ⟨cut, hcut, hlt, htext⟩
      · rintro ⟨cut', hcut', -, htext⟩
        rw [hcut] at hcut'
        cases hcut'
        exact htext
    · constructor
      · intro herror
        exact absurd herror (not_reportsError_of_complete r.ends r.infer
          fun request hrequest => readHttpRequest_of_complete hread e hrequest)
      · rintro ⟨-, cut, hcut, hlt, -⟩
        exact absurd ⟨cut, hcut, hlt⟩ hnot
  refine ⟨hiff, fun hsmall herror => ?_⟩
  obtain ⟨-, cut, hcut, hlt, -⟩ := hiff.mp herror
  have := cap_lt_of_pastCap hcut
  omega

end Truncated

/-- A peer that announces twenty bytes of a body and sends the first two. -/
def halfRequest : TruncatedRequest where
  block := bytes "POST /infer HTTP/1.1\r\nContent-Length: 20"
  body := bytes "\x7b\""
  ends := by decide +kernel
  infer := by decide +kernel
  announced := 20
  carries := ⟨bytes "POST /infer HTTP/1.1", bytes " 20", [], by decide +kernel, .inl rfl,
    bytes " ", bytes "20", [], by decide +kernel, by decide +kernel, by decide +kernel,
    by decide +kernel, by decide +kernel, by decide +kernel⟩
  short := by decide +kernel

@[inherit_doc halfRequest]
def halfSegments : List Segment :=
  [⟨bytes "POST /infer HTTP/1.1\r\nContent-Length: 20\r\n\r\n\x7b\"", by decide +kernel,
    by decide +kernel⟩]

theorem truncated_reportsError_iff_half :
    received halfSegments = halfRequest.stream ∧
      ¬ ReportsError noFloat 0 ⟨halfSegments, some .closed⟩ := by
  have h : received halfSegments = halfRequest.stream := by decide +kernel
  exact ⟨h, (truncated_reportsError_iff noFloat 0 halfRequest halfSegments h .closed).2
    (by decide +kernel)⟩

/-- The answer to two bytes of twenty: a result computed on the defaults. -/
theorem truncated_answered :
    received halfSegments = halfRequest.stream ∧ halfRequest.body.length < halfRequest.announced ∧
      handleClientConnection noFloat 0 ⟨halfSegments, some .closed⟩ =
        .ok (reply (bytes "HTTP/1.1 200 OK\r\n") (buildInferenceJson noFloat 0 {})) := by
  decide +kernel

end InferenceGateway.Core
