import InferenceGateway.Gateway.RequestIds

/-! # What of a result reaches the client

A worker's response leaves through one of two narrowings of its `u128` latency: `serde_json::to_value`, which
has no number for it above `u64::MAX`, and the `uint64` of the proto message, which keeps the low bits. The
HTTP handler replaces a response that does not serialize by a placeholder, under the same status 200.
-/

namespace InferenceGateway.Gateway

open Common

/-! ## Reading a reply -/

/-- A member of a JSON object. -/
def member (key : String) : Json → Option Json
  | .obj members => field key members
  | _ => none

/-- A JSON body carries a response, whatever its id. -/
structure BodyCarries (body : Json) (resp : InferResponse) : Prop where
  model : member "model" body = some (.str resp.model)
  output : member "output" body = some (.str resp.output)
  status : member "status" body = some (.str resp.status)
  tokens : (member "usage" body).bind (member "tokens") =
    some (.num (Numeral.ofNat resp.usage.tokens.toNat))
  latencyMs : (member "usage" body).bind (member "latency_ms") =
    some (.num (Numeral.ofNat resp.usage.latencyMs.toNat))

/-- A proto message carries a response, whatever its id. -/
structure MessageCarries (message : ProtoInferResp) (resp : InferResponse) : Prop where
  model : message.model = resp.model
  output : message.output = resp.output
  status : message.status = resp.status
  tokens : message.usage.map (·.tokens) = some resp.usage.tokens
  latencyMs : message.usage.map (·.latencyMs.toNat) = some resp.usage.latencyMs.toNat

/-- A reply of either handler carries a response. -/
def Reply.Carries (resp : InferResponse) : Reply → Prop
  | .http response => response.status = 200 ∧ BodyCarries response.body resp
  | .grpc (.ok message) => MessageCarries message resp
  | .grpc (.error _) => False

/-! ## The two narrowings -/

theorem toValue_of_lt (resp : InferResponse) (h : resp.usage.latencyMs.toNat < 2 ^ 64) :
    ∃ value, InferHandler.toValue resp = some value ∧ BodyCarries value resp ∧
      member "request_id" value = some (.str resp.requestId) :=
  ⟨_, if_pos h, ⟨rfl, rfl, rfl, rfl, rfl⟩, rfl⟩

theorem toValue_of_le (resp : InferResponse) (h : 2 ^ 64 ≤ resp.usage.latencyMs.toNat) :
    InferHandler.toValue resp = none :=
  if_neg (Nat.not_lt.mpr h)

/-- The body that stands in for a response without a JSON value. -/
def serializationError : Json := .obj [("output", .str "serialization_error"), ("status", .str "ok")]

/-- The body of the HTTP answer to a response that has a JSON value. -/
theorem respond_body_of_lt (requestId : String) {resp : InferResponse}
    (h : resp.usage.latencyMs.toNat < 2 ^ 64) :
    BodyCarries (InferHandler.respond requestId (.result (.ok resp))).body resp ∧
      member "request_id" (InferHandler.respond requestId (.result (.ok resp))).body =
        some (.str requestId) := by
  obtain ⟨value, hvalue, hcarries, hid⟩ := toValue_of_lt { resp with requestId := requestId } h
  have hbody : (InferHandler.respond requestId (.result (.ok resp))).body = value := by
    show (InferHandler.toValue _).getD _ = value
    rw [hvalue, Option.getD_some]
  rw [hbody]
  exact ⟨⟨hcarries.model, hcarries.output, hcarries.status, hcarries.tokens, hcarries.latencyMs⟩, hid⟩

/-- The body of the HTTP answer to a response that has none. -/
theorem respond_body_of_le (requestId : String) {resp : InferResponse}
    (h : 2 ^ 64 ≤ resp.usage.latencyMs.toNat) :
    (InferHandler.respond requestId (.result (.ok resp))).body = serializationError := by
  show (InferHandler.toValue { resp with requestId := requestId }).getD _ = serializationError
  rw [toValue_of_le { resp with requestId := requestId } h]
  rfl

/-- The placeholder names no model. -/
theorem not_bodyCarries_serializationError (resp : InferResponse) :
    ¬ BodyCarries serializationError resp := by
  intro hcarries
  have hmodel := hcarries.model
  cases hmodel

theorem bodyCarries_respond_iff (requestId : String) (resp : InferResponse) :
    BodyCarries (InferHandler.respond requestId (.result (.ok resp))).body resp ↔
      resp.usage.latencyMs.toNat < 2 ^ 64 := by
  constructor
  · intro hcarries
    by_contra hge
    rw [respond_body_of_le requestId (Nat.not_lt.mp hge)] at hcarries
    exact not_bodyCarries_serializationError resp hcarries
  · intro hlt
    exact (respond_body_of_lt requestId hlt).1

/-- The message of the gRPC answer to a response. -/
theorem messageCarries_responseToProto_iff (resp : InferResponse) :
    MessageCarries (responseToProto resp) resp ↔ resp.usage.latencyMs.toNat < 2 ^ 64 := by
  have hlatency : (responseToProto resp).usage.map (·.latencyMs.toNat) =
      some (resp.usage.latencyMs.toNat % 2 ^ 64) := by
    show some (resp.usage.latencyMs.setWidth 64).toNat = _
    rw [BitVec.toNat_setWidth]
  constructor
  · intro hcarries
    have hkept := hcarries.latencyMs
    rw [hlatency, Option.some.injEq] at hkept
    rw [← hkept]
    exact Nat.mod_lt _ (by norm_num)
  · intro hlt
    rw [Nat.mod_eq_of_lt hlt] at hlatency
    exact ⟨rfl, rfl, rfl, rfl, hlatency⟩

/-- Either handler's answer to a response. -/
theorem InferCall.carries_respond_iff (call : InferCall) (requestTimeoutSecs : ℕ) (requestId : String)
    (resp : InferResponse) :
    (call.respond requestTimeoutSecs requestId (.result (.ok resp))).Carries resp ↔
      resp.usage.latencyMs.toNat < 2 ^ 64 := by
  cases call with
  | http call =>
    show _ = (200 : UInt16) ∧ _ ↔ _
    rw [bodyCarries_respond_iff]
    exact and_iff_right rfl
  | grpc protoReq => exact messageCarries_responseToProto_iff resp

/-! ## Every run -/

variable {cfg : Config} {s : State}

/-- A handler that awaited something and is done gave the answer to that. -/
theorem reply_of_awaited (hs : (gateway cfg).Reachable s) {i : ℕ} {h : Handler}
    (hi : s.handlers[i]? = some h) {awaited : Awaited} (ha : h.awaited = some awaited) {reply : Reply}
    (hdone : h.phase = .done reply) :
    ∃ requestId, h.stamped = some requestId ∧
      reply = h.call.respond cfg.requestTimeoutSecs requestId awaited := by
  obtain ⟨op, hanswers, -⟩ := answers_of_done hs hi hdone
  rw [ha] at hanswers
  exact hanswers.eq_respond

/-- Only the HTTP handler answers with an HTTP response. -/
theorem InferCall.respond_eq_http {call : InferCall} {requestTimeoutSecs : ℕ} {requestId : String}
    {awaited : Awaited} {response : HttpResponse}
    (h : Reply.http response = call.respond requestTimeoutSecs requestId awaited) :
    response = InferHandler.respond requestId awaited := by
  cases call with
  | http call => exact Reply.http.inj h
  | grpc protoReq => cases h

/-- In every reachable state, the reply of a handler of either kind to a successful result carries the
response that the worker delivered if and only if its latency fits into 64 bits. -/
theorem delivered_unchanged_iff (cfg : Config) {s : State} (hs : (gateway cfg).Reachable s) {i : ℕ}
    {h : Handler} (hi : s.handlers[i]? = some h) {resp : InferResponse}
    (ha : h.awaited = some (.result (.ok resp))) {reply : Reply} (hdone : h.phase = .done reply) :
    reply.Carries resp ↔ resp.usage.latencyMs.toNat < 2 ^ 64 := by
  obtain ⟨requestId, -, rfl⟩ := reply_of_awaited hs hi ha hdone
  exact h.call.carries_respond_iff cfg.requestTimeoutSecs requestId resp

/-! ## A latency at the limit -/

/-- The reply of a core that reports the given latency. -/
def replyWithLatency (latencyMs : ℕ) : CoreReply :=
  .response
    { status := 200
      statusText := "200 OK"
      text := none
      bytes := .ok (utf8 (Json.compact (.obj
        [("request_id", .str "cpp-1700000000000"), ("model", .str "llama-7b"), ("output", .str "HELLO WORLD"),
         ("usage", .obj
           [("latency_ms", .num (Numeral.ofNat latencyMs)), ("tokens", .num (Numeral.ofNat 32))]),
         ("status", .str "ok")]))) }

/-- The response of this core. -/
def responseWithLatency (latencyMs : BitVec 128) : InferResponse where
  requestId := "cpp-1700000000000"
  model := "llama-7b"
  output := "HELLO WORLD"
  usage := { latencyMs := latencyMs, tokens := 32 }
  status := "ok"

/-- The run in which it serves an HTTP and a gRPC request. -/
def bothServedRun (reply : CoreReply) : List Action :=
  submit 0 httpCall ++ submit 1 grpcCall ++ dispatch 14 ++ recordOps 0 3 ++ recordOps 1 3 ++ serve 0 reply
    ++ serve 1 reply ++ [.handler 0 (.poll 7), .handler 1 (.poll 7)] ++ recordOps 0 6 ++ recordOps 1 6

/-- The response an HTTP handler awaited and the one it sent. -/
def Handler.httpDelivery (h : Handler) : Option (InferResponse × HttpResponse) :=
  match h.awaited, h.phase with
  | some (.result (.ok resp)), .done (.http response) => some (resp, response)
  | _, _ => none

theorem Handler.httpDelivery_eq_some {h : Handler} {resp : InferResponse} {response : HttpResponse}
    (hd : h.httpDelivery = some (resp, response)) :
    h.awaited = some (.result (.ok resp)) ∧ h.phase = .done (.http response) := by
  unfold Handler.httpDelivery at hd
  split at hd
  · rename_i ha hdone
    cases hd
    exact ⟨ha, hdone⟩
  · cases hd

/-- The response a gRPC handler awaited and the message it sent. -/
def Handler.grpcDelivery (h : Handler) : Option (InferResponse × ProtoInferResp) :=
  match h.awaited, h.phase with
  | some (.result (.ok resp)), .done (.grpc (.ok message)) => some (resp, message)
  | _, _ => none

theorem Handler.grpcDelivery_eq_some {h : Handler} {resp : InferResponse} {message : ProtoInferResp}
    (hd : h.grpcDelivery = some (resp, message)) :
    h.awaited = some (.result (.ok resp)) ∧ h.phase = .done (.grpc (.ok message)) := by
  unfold Handler.grpcDelivery at hd
  split at hd
  · rename_i ha hdone
    cases hd
    exact ⟨ha, hdone⟩
  · cases hd

/-- Both requests are served, and each reply carries a latency of five milliseconds. -/
theorem delivered_unchanged_iff_short :
    ∃ (s : State) (h g : Handler) (resp : InferResponse) (response : HttpResponse) (message : ProtoInferResp),
      (gateway (scenarioConfig 2 2 .infer wireDecoder)).Reachable s ∧
      s.handlers[0]? = some h ∧ h.phase = .done (.http response) ∧ (Reply.http response).Carries resp ∧
      s.handlers[1]? = some g ∧ g.phase = .done (.grpc (.ok message)) ∧
      (Reply.grpc (.ok message)).Carries resp := by
  obtain ⟨s, hs, hzero, hone⟩ :=
    (reachable_init (scenarioConfig 2 2 .infer wireDecoder)).exists_of_run
      (fun s => (s.handlers[0]?.bind Handler.httpDelivery).map Prod.fst = some (responseWithLatency 5) ∧
        (s.handlers[1]?.bind Handler.grpcDelivery).map Prod.fst = some (responseWithLatency 5))
      (bothServedRun (replyWithLatency 5)) (by decide +kernel)
  obtain ⟨⟨-, response⟩, hzero, rfl⟩ := Option.map_eq_some_iff.mp hzero
  obtain ⟨⟨-, message⟩, hone, rfl⟩ := Option.map_eq_some_iff.mp hone
  obtain ⟨h, hi, hzero⟩ := Option.bind_eq_some_iff.mp hzero
  obtain ⟨g, hk, hone⟩ := Option.bind_eq_some_iff.mp hone
  obtain ⟨ha, hdone⟩ := Handler.httpDelivery_eq_some hzero
  obtain ⟨hb, hfinal⟩ := Handler.grpcDelivery_eq_some hone
  exact ⟨s, h, g, _, response, message, hs, hi, hdone,
    (delivered_unchanged_iff _ hs hi ha hdone).mpr (by decide), hk, hfinal,
    (delivered_unchanged_iff _ hs hk hb hfinal).mpr (by decide)⟩

/-- A core reports a latency of `2 ^ 64` milliseconds: the HTTP client gets the placeholder instead of the
output, the gRPC client a latency of zero. -/
theorem long_latency_changed :
    ∃ (s : State) (h g : Handler) (resp : InferResponse) (response : HttpResponse) (message : ProtoInferResp),
      (gateway (scenarioConfig 2 2 .infer wireDecoder)).Reachable s ∧
      s.handlers[0]? = some h ∧ h.awaited = some (.result (.ok resp)) ∧ h.phase = .done (.http response) ∧
      response.body = serializationError ∧ ¬ (Reply.http response).Carries resp ∧
      s.handlers[1]? = some g ∧ g.awaited = some (.result (.ok resp)) ∧
      g.phase = .done (.grpc (.ok message)) ∧ message.usage = some { latencyMs := 0, tokens := 32 } ∧
      ¬ (Reply.grpc (.ok message)).Carries resp := by
  obtain ⟨s, hs, hzero, hone⟩ :=
    (reachable_init (scenarioConfig 2 2 .infer wireDecoder)).exists_of_run
      (fun s =>
        (s.handlers[0]?.bind Handler.httpDelivery).map Prod.fst =
          some (responseWithLatency (BitVec.ofNat 128 (2 ^ 64))) ∧
        s.handlers[1]?.bind Handler.grpcDelivery =
          some (responseWithLatency (BitVec.ofNat 128 (2 ^ 64)),
            responseToProto (responseWithLatency (BitVec.ofNat 128 (2 ^ 64)))))
      (bothServedRun (replyWithLatency (2 ^ 64))) (by decide +kernel)
  obtain ⟨⟨-, response⟩, hzero, rfl⟩ := Option.map_eq_some_iff.mp hzero
  obtain ⟨h, hi, hzero⟩ := Option.bind_eq_some_iff.mp hzero
  obtain ⟨g, hk, hone⟩ := Option.bind_eq_some_iff.mp hone
  obtain ⟨ha, hdone⟩ := Handler.httpDelivery_eq_some hzero
  obtain ⟨hb, hfinal⟩ := Handler.grpcDelivery_eq_some hone
  obtain ⟨requestId, -, hreply⟩ := reply_of_awaited hs hi ha hdone
  have hbody : response.body = serializationError := by
    rw [InferCall.respond_eq_http hreply]
    exact respond_body_of_le requestId (by decide)
  refine ⟨s, h, g, _, response, _, hs, hi, ha, hdone, hbody, ?_, hk, hb, hfinal, rfl, ?_⟩
  · intro hcarries
    have hplaceholder := hcarries.2
    rw [hbody] at hplaceholder
    exact not_bodyCarries_serializationError _ hplaceholder
  · intro hcarries
    exact absurd ((messageCarries_responseToProto_iff _).mp hcarries) (by decide)

end InferenceGateway.Gateway
