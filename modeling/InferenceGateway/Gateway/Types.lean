import InferenceGateway.Common.Floats
import InferenceGateway.Common.Json

/-!
# Payload types of the gateway

Reference: the payload structs of `main.rs`, the messages of `proto/inference.proto` and the
conversion helpers of `grpc.rs`.

Rust's `String` is a sequence of Unicode scalar values, as is Lean's.
-/

namespace InferenceGateway.Gateway

open Common

/-! ## Requests and responses of `main.rs` -/

/-- Optional parameters to control inference behavior. -/
structure InferOptions where
  maxTokens : Option UInt32
  temperature : Option F32
  topP : Option F32
deriving DecidableEq, Repr

/-- Request body of `POST /infer`, also the payload of a queued job. -/
structure InferRequest where
  model : String
  input : String
  options : Option InferOptions
  requestId : Option String
deriving DecidableEq, Repr

/-- Usage metrics attached to responses. -/
structure Usage where
  latencyMs : BitVec 128
  tokens : UInt32
deriving DecidableEq, Repr

/-- Gateway and core response. -/
structure InferResponse where
  requestId : String
  model : String
  output : String
  usage : Usage
  status : String
deriving DecidableEq, Repr

/-- What a worker delivers: a parsed response or an error text. -/
abbrev JobResult := Except String InferResponse

/-- The wire protocol used towards the inference core. -/
inductive CoreProtocol
  | infer
  | llamaChat
deriving DecidableEq, Repr

/-! ## Messages of `proto/inference.proto` -/

structure ProtoInferOptions where
  maxTokens : Option UInt32
  temperature : Option F32
  topP : Option F32
deriving DecidableEq, Repr

structure ProtoInferReq where
  model : String
  input : String
  options : Option ProtoInferOptions
  requestId : String
deriving DecidableEq, Repr

structure ProtoUsage where
  latencyMs : UInt64
  tokens : UInt32
deriving DecidableEq, Repr

structure ProtoInferResp where
  requestId : String
  model : String
  output : String
  usage : Option ProtoUsage
  status : String
deriving DecidableEq, Repr

/-- The gRPC status codes the service answers with. -/
inductive GrpcCode
  | invalidArgument
  | unavailable
  | internal
  | deadlineExceeded
deriving DecidableEq, Repr

/-- `tonic::Status`. -/
structure GrpcStatus where
  code : GrpcCode
  message : String
deriving DecidableEq, Repr

/-! ## Conversion helpers of `grpc.rs` -/

/-- `proto_to_request`: an empty proto `request_id` means that the client sent none. -/
def protoToRequest (proto : ProtoInferReq) : InferRequest where
  model := proto.model
  input := proto.input
  options := proto.options.map fun o =>
    { maxTokens := o.maxTokens, temperature := o.temperature, topP := o.topP }
  requestId := if proto.requestId.isEmpty then none else some proto.requestId

/-- `response_to_proto`; `latency_ms as u64` keeps the low 64 bits. -/
def responseToProto (resp : InferResponse) : ProtoInferResp where
  requestId := resp.requestId
  model := resp.model
  output := resp.output
  usage := some { latencyMs := ⟨resp.usage.latencyMs.setWidth 64⟩, tokens := resp.usage.tokens }
  status := resp.status

end InferenceGateway.Gateway
