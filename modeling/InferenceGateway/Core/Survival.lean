import InferenceGateway.Core.Framing

/-! # What a connection can do to the core

A connection handler runs in a detached thread, so an exception that leaves it ends the process. The
positions handed to `substr` are always in range; what remains are the numeric conversions. A `SIGPIPE` ends
the process as well. The handler returns exactly when each conversion that is reached gets a text it accepts
and the connection is still there to take the response.
-/

namespace InferenceGateway.Core

open Common

/-! ## Routing -/

/-- The request line asks for `POST /infer`. -/
def IsInfer (request : StdString) : Prop :=
  let (method, rest) := extractWord (before crlf request)
  method = bytes "POST" ∧ (extractWord rest).1 = bytes "/infer"

/-- If the request is an inference request with a body, the numeric texts of the body are
acceptable. -/
def BodyAccepted (lib : StdFloat) (request : StdString) : Prop :=
  IsInfer request → ∀ body, after headerEnd request = some body → NumbersAccepted lib body

instance (request : StdString) : Decidable (IsInfer request) :=
  inferInstanceAs (Decidable (_ ∧ _))

/-- The request line asks for `GET /health`. -/
def IsHealth (request : StdString) : Prop :=
  let (method, rest) := extractWord (before crlf request)
  method = bytes "GET" ∧ (extractWord rest).1 = bytes "/health"

instance (request : StdString) : Decidable (IsHealth request) :=
  inferInstanceAs (Decidable (_ ∧ _))

/-- Behind the reading, only an inference request with a body calls anything that may throw. -/
theorem route_eq (lib : StdFloat) (nowMs : ℤ) (request : StdString) :
    route lib nowMs request =
      if request = [] then
        .ok (reply (bytes "HTTP/1.1 400 Bad Request\r\n")
          (buildErrorJson (bytes "empty request") 400))
      else if IsHealth request then
        .ok (reply (bytes "HTTP/1.1 200 OK\r\n")
          (bytes "\x7b\"status\":\"healthy\",\"engine\":\"c++-cuda-ready\"\x7d"))
      else if IsInfer request then
        match after headerEnd request with
        | none =>
          .ok (reply (bytes "HTTP/1.1 400 Bad Request\r\n")
            (buildErrorJson (bytes "missing body") 400))
        | some body =>
          (parseRequestBody lib body).map fun requestDetails =>
            reply (bytes "HTTP/1.1 200 OK\r\n") (buildInferenceJson lib nowMs requestDetails)
      else
        .ok (reply (bytes "HTTP/1.1 404 Not Found\r\n")
          (buildErrorJson (bytes "route not found") 404)) := by
  simp only [route, substr_before, List.isEmpty_iff]
  by_cases hempty : request = []
  · simp only [hempty, if_true]; rfl
  simp only [hempty, if_false]
  by_cases hhealth : IsHealth request
  · rw [if_pos hhealth]
    exact if_pos hhealth
  rw [if_neg hhealth]
  refine (if_neg hhealth).trans ?_
  by_cases hinfer : IsInfer request
  · rw [if_pos hinfer]
    refine (if_pos hinfer).trans ?_
    cases hbody : find request headerEnd 0 with
    | none =>
      rw [find_zero] at hbody
      rw [after, hbody]
      rfl
    | some i =>
      obtain ⟨body, hafter, hsub⟩ := substr_after hbody
      rw [hafter]
      dsimp only
      rw [show i + 4 = i + headerEnd.length from rfl, hsub]
      cases hparse : parseRequestBody lib body with
      | error e => simp only [bind, Except.bind, hparse]; rfl
      | ok details => simp only [bind, Except.bind, hparse]; rfl
  · rw [if_neg hinfer]
    exact if_neg hinfer

theorem route_returns_iff {lib : StdFloat} {nowMs : ℤ} {request : StdString} :
    (∃ response, route lib nowMs request = .ok [.send response, .close]) ↔
      BodyAccepted lib request := by
  rw [route_eq, BodyAccepted]
  by_cases hempty : request = []
  · subst hempty
    exact ⟨fun _ h => absurd h (by decide), fun _ => ⟨_, rfl⟩⟩
  rw [if_neg hempty]
  by_cases hhealth : IsHealth request
  · -- A request line has one method.
    rw [if_pos hhealth]
    refine ⟨fun _ hinfer => ?_, fun _ => ⟨_, rfl⟩⟩
    exact absurd (hhealth.1.symm.trans hinfer.1) (by decide)
  rw [if_neg hhealth]
  by_cases hinfer : IsInfer request
  · rw [if_pos hinfer]
    cases hbody : after headerEnd request with
    | none => exact ⟨fun _ _ => nofun, fun _ => ⟨_, rfl⟩⟩
    | some body =>
      dsimp only
      constructor
      · rintro ⟨response, h⟩ - body' hbody'
        cases hbody'
        refine parseRequestBody_returns_iff.mp ?_
        cases hparse : parseRequestBody lib body with
        | error e => rw [hparse] at h; cases h
        | ok details => exact ⟨details, rfl⟩
      · intro h
        obtain ⟨details, hparse⟩ := parseRequestBody_returns_iff.mpr (h hinfer body rfl)
        exact ⟨_, by rw [hparse]; rfl⟩
  · rw [if_neg hinfer]
    exact ⟨fun _ h => absurd h hinfer, fun _ => ⟨_, rfl⟩⟩

/-! ## When the handler returns -/

/-- The numeric texts that a stream brings to a conversion are numbers in range. -/
@[irreducible] def Harmless (lib : StdFloat) (segments : List Segment) : Prop :=
  match readHeader [] segments with
  | (request, _, false) => BodyAccepted lib request
  | (request, rest, true) =>
    match contentLengthText request with
    | none => BodyAccepted lib request
    | some text => IsULong text ∧
        ∀ contentLength, stoul text = .ok contentLength →
          BodyAccepted lib (withBody request contentLength rest)

/-- The connection takes the response: its peer closes in order, or it fails only behind a request that is
read whole. -/
def TakesResponse (segments : List Segment) : PeerEnd → Prop
  | .closed => True
  | .gone => False
  | .failed => ∃ request, readHttpRequest ⟨segments, none⟩ = .ok request

theorem uncaught_eq_ok {α : Type} {x : Throws α} {a : α} : uncaught x = .ok a ↔ x = .ok a := by
  cases x with
  | error e =>
    constructor
    · intro h
      cases h
    · intro h
      cases h
  | ok b =>
    constructor
    · intro h
      cases h
      rfl
    · intro h
      cases h
      rfl

/-- Behind the reading, the handler ends in one of three ways. -/
theorem handleClientConnection_of_read {lib : StdFloat} {nowMs : ℤ} {peer : Peer} {request : StdString}
    (hread : readHttpRequest peer = .ok request) :
    handleClientConnection lib nowMs peer =
      match route lib nowMs request with
      | .error e => .error (.exception e)
      | .ok ops => if peer.brokenPipe = true then .error .sigpipe else .ok ops := by
  unfold handleClientConnection
  rw [hread]
  show (uncaught (route lib nowMs request) >>= fun ops => _) = _
  cases route lib nowMs request <;> rfl

/-- The handler returns if the reader does, the routing does, and `send` raises no signal. -/
theorem handleClientConnection_eq_ok {lib : StdFloat} {nowMs : ℤ} {peer : Peer} {ops : List SocketOp} :
    handleClientConnection lib nowMs peer = .ok ops ↔
      ∃ request, readHttpRequest peer = .ok request ∧ route lib nowMs request = .ok ops ∧
        peer.brokenPipe = false := by
  constructor
  · intro h
    obtain ⟨request, hread, -⟩ := bind_eq_ok.mp h
    rw [handleClientConnection_of_read hread] at h
    refine ⟨request, hread, ?_⟩
    cases hroute : route lib nowMs request with
    | error e =>
      rw [hroute] at h
      cases h
    | ok sends =>
      rw [hroute] at h
      dsimp only at h
      split at h
      · cases h
      · cases h
        exact ⟨rfl, Bool.eq_false_iff.mpr ‹_›⟩
  · rintro ⟨request, hread, hroute, hpipe⟩
    rw [handleClientConnection_of_read hread, hroute, hpipe]
    rfl

private theorem bind_blocked_or_eq {α β : Type} (x : Except Halt α) {f g : α → Except Halt β}
    (h : ∀ a, f a = .error .blocked ∨ f a = g a) : x >>= f = .error .blocked ∨ x >>= f = x >>= g := by
  cases x with
  | error e => exact .inr rfl
  | ok a => exact h a

private theorem readBody_open (segments : List Segment) (e : PeerEnd) (request : StdString)
    (rest : List Segment) :
    readBody ⟨segments, none⟩ request rest = .error .blocked ∨
      readBody ⟨segments, none⟩ request rest = readBody ⟨segments, some e⟩ request rest := by
  simp only [readBody_eq_completeBody]
  cases contentLengthText request with
  | none => exact .inr rfl
  | some text =>
    refine bind_blocked_or_eq _ fun contentLength => ?_
    unfold completeBody
    cases after headerEnd request with
    | none => exact .inr rfl
    | some existingBody =>
      dsimp only
      split
      · cases readAvailableData (contentLength - existingBody.length) [] rest with
        | none => exact .inl rfl
        | some output => exact .inr rfl
      · exact .inr rfl

/-- From a peer that keeps the connection open, the reader gets what it gets from one that ends it, or it
waits. -/
theorem readHttpRequest_open (segments : List Segment) (e : PeerEnd) :
    readHttpRequest ⟨segments, none⟩ = .error .blocked ∨
      readHttpRequest ⟨segments, none⟩ = readHttpRequest ⟨segments, some e⟩ := by
  rw [readHttpRequest, readHttpRequest]
  rcases readHeader [] segments with ⟨request, rest, complete⟩
  cases complete with
  | false => exact .inl rfl
  | true => exact readBody_open segments e request rest

/-- From a stream that ends, the reader and the routing come through if and only if the stream is
harmless. -/
theorem answered_iff {lib : StdFloat} {nowMs : ℤ} {segments : List Segment} {e : PeerEnd} :
    (∃ request response, readHttpRequest ⟨segments, some e⟩ = .ok request ∧
      route lib nowMs request = .ok [.send response, .close]) ↔ Harmless lib segments := by
  have hanswers {request : StdString} :
      (∃ request' response, (.ok request : Except Halt StdString) = .ok request' ∧
        route lib nowMs request' = .ok [.send response, .close]) ↔ BodyAccepted lib request := by
    rw [← @route_returns_iff lib nowMs request]
    constructor
    · rintro ⟨_, response, h, hroute⟩
      cases h
      exact ⟨response, hroute⟩
    · rintro ⟨response, hroute⟩
      exact ⟨request, response, rfl, hroute⟩
  rw [readHttpRequest, Harmless]
  rcases hread : readHeader [] segments with ⟨request, rest, complete⟩
  cases complete with
  | false => exact hanswers
  | true =>
    dsimp only
    rw [readBody_eq rfl]
    cases contentLengthText request with
    | none => exact hanswers
    | some text =>
      dsimp only
      rw [← stoul_returns_iff]
      cases stoul text with
      | error err =>
        constructor
        · rintro ⟨_, _, h, -⟩
          cases h
        · rintro ⟨⟨_, h⟩, -⟩
          cases h
      | ok n =>
        refine hanswers.trans ⟨fun h => ⟨⟨n, rfl⟩, fun m hm => ?_⟩, fun h => h.2 n rfl⟩
        cases hm
        exact h

theorem harmless_of_read {lib : StdFloat} {segments : List Segment} {e : PeerEnd} {request : StdString}
    (hread : readHttpRequest ⟨segments, some e⟩ = .ok request) (haccepted : BodyAccepted lib request) :
    Harmless lib segments := by
  obtain ⟨response, hroute⟩ := (@route_returns_iff lib 0 request).mpr haccepted
  exact answered_iff.mp ⟨request, response, hread, hroute⟩

/-- Behind a request that was read, `send` raises no signal exactly if the connection takes the response. -/
theorem brokenPipe_eq_false_iff {segments : List Segment} {e : PeerEnd} {request : StdString}
    (hread : readHttpRequest ⟨segments, some e⟩ = .ok request) :
    Peer.brokenPipe ⟨segments, some e⟩ = false ↔ TakesResponse segments e := by
  cases e with
  | closed => exact ⟨fun _ => trivial, fun _ => rfl⟩
  | gone => exact ⟨Bool.noConfusion, False.elim⟩
  | failed =>
    have hpipe : Peer.brokenPipe ⟨segments, some .failed⟩ = false ↔
        readHttpRequest ⟨segments, none⟩ ≠ .error .blocked := decide_eq_false_iff_not
    rw [hpipe]
    constructor
    · intro hcomplete
      exact ⟨request, ((readHttpRequest_open segments .failed).resolve_left hcomplete).trans hread⟩
    · rintro ⟨request', hopen⟩ hblocked
      rw [hopen] at hblocked
      cases hblocked

/-- The handler of a finite stream returns after exactly one response if and only if the text of the
`Content-Length` header and the numeric texts of the body, as far as they are reached, are numbers in
range, and the connection takes the response. -/
theorem handleClientConnection_returns_iff (lib : StdFloat) (nowMs : ℤ) (segments : List Segment)
    (e : PeerEnd) :
    (∃ response, handleClientConnection lib nowMs ⟨segments, some e⟩ =
      .ok [.send response, .close]) ↔ Harmless lib segments ∧ TakesResponse segments e := by
  rw [← @answered_iff lib nowMs segments e]
  constructor
  · rintro ⟨response, h⟩
    obtain ⟨request, hread, hroute, hpipe⟩ := handleClientConnection_eq_ok.mp h
    exact ⟨⟨request, response, hread, hroute⟩, (brokenPipe_eq_false_iff hread).mp hpipe⟩
  · rintro ⟨⟨request, response, hread, hroute⟩, htakes⟩
    exact ⟨response, handleClientConnection_eq_ok.mpr
      ⟨request, hread, hroute, (brokenPipe_eq_false_iff hread).mpr htakes⟩⟩

/-- A library whose `stof` accepts nothing. -/
def noFloat : StdFloat where
  stof _ := .error (.invalidArgument "stof")
  print _ := []

/-- The body that the gateway sends for a `max_tokens`. -/
def tokensBody (maxTokens : String) : StdString :=
  bytes "\x7b\"model\":\"llama-7b\",\"input\":\"hi\",\"options\":\x7b\"max_tokens\":" ++ bytes maxTokens
    ++ bytes ",\"temperature\":null,\"top_p\":null\x7d,\"request_id\":\"r-1\"\x7d"

/-- A request with the largest `max_tokens` that fits an `int`, in one segment. -/
def largestSegment : Segment where
  data :=
    bytes "POST /infer HTTP/1.1\r\nhost: core\r\ncontent-length: 120\r\n\r\n" ++ tokensBody "2147483647"
  pos := by decide +kernel
  le := by decide +kernel

theorem harmless_largest : Harmless noFloat [largestSegment] := by
  have hread : readHttpRequest ⟨[largestSegment], some .closed⟩ = .ok largestSegment.data := by decide +kernel
  have hbody : after headerEnd largestSegment.data = some (tokensBody "2147483647") := by decide +kernel
  have haccepted : BodyAccepted noFloat largestSegment.data := by
    rintro - body h
    rw [hbody] at h
    cases h
    exact ⟨.inr (by decide +kernel), .inl (by decide +kernel), .inl (by decide +kernel),
      .inl (by decide +kernel)⟩
  exact harmless_of_read hread haccepted

/-- It is answered. -/
theorem handleClientConnection_returns_iff_largest :
    ∃ response, handleClientConnection noFloat 0 ⟨[largestSegment], some .closed⟩ =
      .ok [.send response, .close] :=
  (handleClientConnection_returns_iff noFloat 0 [largestSegment] .closed).mpr ⟨harmless_largest, trivial⟩

/-- The request with a `max_tokens` one larger, in one segment. -/
def overflowingSegment : Segment where
  data :=
    bytes "POST /infer HTTP/1.1\r\nhost: core\r\ncontent-length: 120\r\n\r\n" ++ tokensBody "2147483648"
  pos := by decide +kernel
  le := by decide +kernel

/-- `std::stoi` throws on `2147483648`, and nothing on the way catches it. -/
theorem max_tokens_overflow_escapes :
    handleClientConnection noFloat 0 ⟨[overflowingSegment], some .closed⟩ =
      .error (.exception (.outOfRange "stoi")) := by
  decide +kernel

/-- A peer that keeps the connection open leaves the handler waiting or gets what a peer that closes it
gets. -/
theorem handleClientConnection_open (lib : StdFloat) (nowMs : ℤ) (segments : List Segment) :
    handleClientConnection lib nowMs ⟨segments, none⟩ = .error .blocked ∨
      handleClientConnection lib nowMs ⟨segments, none⟩ =
        handleClientConnection lib nowMs ⟨segments, some .closed⟩ := by
  rw [handleClientConnection, handleClientConnection]
  rcases readHttpRequest_open segments .closed with h | h
  · rw [h]
    exact .inl rfl
  · rw [h]
    exact .inr rfl

end InferenceGateway.Core
