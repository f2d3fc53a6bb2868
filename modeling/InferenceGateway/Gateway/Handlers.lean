import InferenceGateway.Gateway.CoreCall
import InferenceGateway.Gateway.Metrics

/-! # The two infer handlers

Reference: `infer_handler` and `json_response` in `main.rs`, `GrpcInferenceService::infer` in `grpc.rs`.

Both handlers run straight through to one await, `timeout(timeout_dur, response_rx).await`, and
straight through after it. Each is given here as the functions its two halves compute; the order in
which they touch the shared state is the business of the system.

The HTTP bodies are values of `serde_json`, whose objects are sorted by key.
-/

namespace InferenceGateway.Gateway

open Common

/-- A UUID, as its 128 bits. -/
abbrev Uuid := BitVec 128

/-- The two functions of the `uuid` crate that the gateway uses. -/
structure UuidCrate where
  parseStr : String → Option Uuid
  toString : Uuid → String

/-- What the await of a handler returns: the result the worker sent, the error of a receiver whose
sender is gone, or the expiry of the timer. -/
inductive Awaited
  | result (r : JobResult)
  | senderDropped
  | elapsed

/-- The outcome under which a handler counts its request. -/
def Awaited.outcome : Awaited → Outcome
  | .result (.ok _) => .ok
  | .result (.error _) => .error
  | .senderDropped => .error
  | .elapsed => .timeout

/-- The latency a handler records: the measured time, or the timeout when the timer fired. -/
def Awaited.latencyMs (requestTimeoutSecs : ℕ) (elapsedMs : UInt64) : Awaited → UInt64
  | .elapsed => UInt64.ofNat (requestTimeoutSecs * 1000)
  | _ => elapsedMs

/-! ## The HTTP handler -/

/-- The inputs of `infer_handler`: the value of the `x-request-id` header, if any, and the decoded
body. -/
structure HttpInferCall where
  xRequestId : Option (List UInt8)
  payload : InferRequest

/-- A response of the HTTP handler, with its `x-request-id` header if one was set. -/
structure HttpResponse where
  status : UInt16
  body : Json
  xRequestId : Option String

/-- `HeaderValue::to_str`: visible ASCII characters and tabs only. -/
def headerToStr (value : List UInt8) : Option String :=
  if value.all fun b => (32 ≤ b && b < 127) || b == 9 then
    some (String.ofList (value.map fun b => Char.ofNat b.toNat))
  else none

/-- Whether `HeaderValue::from_str` accepts a text. -/
def headerValueOk (value : String) : Bool :=
  value.toUTF8.toList.all fun b => (32 ≤ b && b != 127) || b == 9

/-- `json_response`. -/
def jsonResponse (status : UInt16) (body : Json) (requestId : Option String) : HttpResponse where
  status := status
  body := body
  xRequestId := requestId.filter headerValueOk

namespace InferHandler

/-- The 400 answer. -/
def unknownModel (payload : InferRequest) : HttpResponse :=
  jsonResponse 400
    (.obj [("message", .str ("unknown model '" ++ payload.model ++ "'")), ("status", .str "error")])
    none

/-- The id of a request: the canonical form of a valid incoming header, else the fresh UUID. -/
def resolveRequestId (uuid : UuidCrate) (call : HttpInferCall) (fresh : Uuid) : String :=
  (((call.xRequestId.bind headerToStr).bind uuid.parseStr).map uuid.toString).getD
    (uuid.toString fresh)

/-- The request that goes into the job. -/
def jobRequest (call : HttpInferCall) (requestId : String) : InferRequest :=
  { call.payload with requestId := some requestId }

/-- The 503 answer. -/
def queueFull (requestId : String) : HttpResponse :=
  jsonResponse 503 (.obj [("status", .str "queue_full")]) (some requestId)

/-- `serde_json::to_value` of a response, with the members in the order of their keys; a `u128` above
`u64::MAX` has no JSON number. -/
def toValue (resp : InferResponse) : Option Json :=
  if resp.usage.latencyMs.toNat < 2 ^ 64 then
    some (.obj
      [("model", .str resp.model),
       ("output", .str resp.output),
       ("request_id", .str resp.requestId),
       ("status", .str resp.status),
       ("usage", .obj
         [("latency_ms", .num (Numeral.ofNat resp.usage.latencyMs.toNat)),
          ("tokens", .num (Numeral.ofNat resp.usage.tokens.toNat))])])
  else none

/-- The answer to what the await returned. -/
def respond (requestId : String) : Awaited → HttpResponse
  | .result (.ok inferResp) =>
    let inferResp := { inferResp with requestId := requestId }
    let value := (toValue inferResp).getD
      (.obj [("output", .str "serialization_error"), ("status", .str "ok")])
    jsonResponse 200 value (some requestId)
  | .result (.error errMsg) =>
    jsonResponse 500 (.obj [("message", .str errMsg), ("status", .str "error")]) (some requestId)
  | .senderDropped =>
    jsonResponse 500
      (.obj [("message", .str "worker task cancelled"), ("status", .str "error")]) (some requestId)
  | .elapsed => jsonResponse 504 (.obj [("status", .str "timeout")]) (some requestId)

/-- The match on the response: the metrics update of each arm, and its answer. -/
def finish (requestTimeoutSecs : ℕ) (requestId : String) (elapsedMs : UInt64) :
    Awaited → List MetricOp × HttpResponse
  | .result (.ok inferResp) =>
    (Metrics.finishRequest .ok elapsedMs, respond requestId (.result (.ok inferResp)))
  | .result (.error errMsg) =>
    (Metrics.finishRequest .error elapsedMs, respond requestId (.result (.error errMsg)))
  | .senderDropped => (Metrics.finishRequest .error elapsedMs, respond requestId .senderDropped)
  | .elapsed =>
    (Metrics.finishRequest .timeout (UInt64.ofNat (requestTimeoutSecs * 1000)),
      respond requestId .elapsed)

end InferHandler

/-! ## The gRPC handler -/

/-- A reply of the gRPC handler. -/
abbrev GrpcReply := Except GrpcStatus ProtoInferResp

namespace GrpcInfer

/-- The `InvalidArgument` answer. -/
def unknownModel (protoReq : ProtoInferReq) : GrpcReply :=
  .error { code := .invalidArgument, message := "unknown model '" ++ protoReq.model ++ "'" }

/-- The id of a request: the client's, if it sent one, else the fresh UUID. -/
def resolveRequestId (uuid : UuidCrate) (protoReq : ProtoInferReq) (fresh : Uuid) : String :=
  if protoReq.requestId.isEmpty then uuid.toString fresh else protoReq.requestId

/-- The request that goes into the job. -/
def jobRequest (protoReq : ProtoInferReq) (requestId : String) : InferRequest :=
  { protoToRequest protoReq with requestId := some requestId }

/-- The `Unavailable` answer. -/
def queueFull : GrpcReply := .error { code := .unavailable, message := "queue full" }

/-- The answer to what the await returned. -/
def respond (requestTimeoutSecs : ℕ) : Awaited → GrpcReply
  | .result (.ok inferResp) => .ok (responseToProto inferResp)
  | .result (.error errMsg) => .error { code := .internal, message := errMsg }
  | .senderDropped => .error { code := .internal, message := "worker task cancelled" }
  | .elapsed =>
    .error
      { code := .deadlineExceeded
        message := "inference timed out after " ++ requestTimeoutSecs.repr ++ "s" }

/-- The match on the response: the metrics update of each arm, and its answer. -/
def finish (requestTimeoutSecs : ℕ) (elapsedMs : UInt64) : Awaited → List MetricOp × GrpcReply
  | .result (.ok inferResp) =>
    (Metrics.finishRequest .ok elapsedMs, respond requestTimeoutSecs (.result (.ok inferResp)))
  | .result (.error errMsg) =>
    (Metrics.finishRequest .error elapsedMs, respond requestTimeoutSecs (.result (.error errMsg)))
  | .senderDropped =>
    (Metrics.finishRequest .error elapsedMs, respond requestTimeoutSecs .senderDropped)
  | .elapsed =>
    (Metrics.finishRequest .timeout (UInt64.ofNat (requestTimeoutSecs * 1000)),
      respond requestTimeoutSecs .elapsed)

end GrpcInfer

/-! ## Either handler -/

/-- A request that reached one of the two infer handlers. -/
inductive InferCall
  | http (call : HttpInferCall)
  | grpc (protoReq : ProtoInferReq)

/-- The answer of either handler. -/
inductive Reply
  | http (response : HttpResponse)
  | grpc (reply : GrpcReply)

namespace InferCall

/-- The model name that is validated. -/
def model : InferCall → String
  | .http call => call.payload.model
  | .grpc protoReq => protoReq.model

/-- The answer to an unknown model. -/
def unknownModel : InferCall → Reply
  | .http call => .http (InferHandler.unknownModel call.payload)
  | .grpc protoReq => .grpc (GrpcInfer.unknownModel protoReq)

/-- The id assigned to the request. -/
def resolveRequestId (uuid : UuidCrate) (fresh : Uuid) : InferCall → String
  | .http call => InferHandler.resolveRequestId uuid call fresh
  | .grpc protoReq => GrpcInfer.resolveRequestId uuid protoReq fresh

/-- The request that goes into the job. -/
def jobRequest (requestId : String) : InferCall → InferRequest
  | .http call => InferHandler.jobRequest call requestId
  | .grpc protoReq => GrpcInfer.jobRequest protoReq requestId

/-- The answer when the queue is full. -/
def queueFull (requestId : String) : InferCall → Reply
  | .http _ => .http (InferHandler.queueFull requestId)
  | .grpc _ => .grpc GrpcInfer.queueFull

/-- The answer to what the await returned. -/
def respond (requestTimeoutSecs : ℕ) (requestId : String) (awaited : Awaited) : InferCall → Reply
  | .http _ => .http (InferHandler.respond requestId awaited)
  | .grpc _ => .grpc (GrpcInfer.respond requestTimeoutSecs awaited)

/-- Either handler stamps the id it assigned on the request of its job. -/
@[simp] theorem jobRequest_requestId (call : InferCall) (requestId : String) :
    (call.jobRequest requestId).requestId = some requestId := by
  cases call <;> rfl

end InferCall

end InferenceGateway.Gateway
