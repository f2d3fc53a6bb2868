import InferenceGateway.Gateway.Types

/-! # Calls to the inference core

Reference: `call_inference_core`, `call_infer_protocol` and `call_llama_chat_protocol` in `main.rs`.

The exchange itself is the environment's: `CoreReply` is what `reqwest` hands back for one request, and
decoding a body is left to a `CoreDecoder`, since the texts of its errors are those of `serde_json`.
-/

namespace InferenceGateway.Gateway

open Common

/-! ## Requests to the core -/

/-- The chat message the gateway builds. -/
structure ChatMessage where
  role : String
  content : String
deriving DecidableEq, Repr

/-- The body built by `call_llama_chat_protocol`; an option that is absent is not written. -/
structure ChatBody where
  model : String
  messages : List ChatMessage
  maxTokens : Option UInt32
  temperature : Option F32
  topP : Option F32
deriving DecidableEq, Repr

/-- The value that is serialized into the request body. -/
inductive CoreBody
  | infer (request : InferRequest)
  | chat (body : ChatBody)
deriving DecidableEq, Repr

/-- A `POST` to the core. -/
structure CoreRequest where
  url : String
  body : CoreBody
deriving DecidableEq, Repr

/-- `core_url.trim_end_matches('/')`. -/
def trimEndSlashes (url : String) : String :=
  String.ofList (url.toList.reverse.dropWhile (· == '/')).reverse

/-- The request of `call_infer_protocol`. -/
def inferProtocolRequest (coreUrl : String) (req : InferRequest) : CoreRequest where
  url := trimEndSlashes coreUrl ++ "/infer"
  body := .infer req

/-- The request of `call_llama_chat_protocol`. -/
def llamaChatProtocolRequest (coreUrl : String) (req : InferRequest) : CoreRequest where
  url := trimEndSlashes coreUrl ++ "/v1/chat/completions"
  body := .chat
    { model := req.model
      messages := [{ role := "user", content := req.input }]
      maxTokens := req.options.bind (·.maxTokens)
      temperature := req.options.bind (·.temperature)
      topP := req.options.bind (·.topP) }

/-- The request that `call_inference_core` sends. -/
def coreRequest (coreUrl : String) (protocol : CoreProtocol) (req : InferRequest) : CoreRequest :=
  match protocol with
  | .infer => inferProtocolRequest coreUrl req
  | .llamaChat => llamaChatProtocolRequest coreUrl req

/-! ## Replies of the core -/

/-- A response the HTTP client received. `statusText` is how the status code prints; `text` and
`bytes` are what reading the body gives in the error and in the success path. -/
structure CoreHttpResponse where
  status : UInt16
  statusText : String
  text : Option String
  bytes : Except String (List UInt8)

/-- The result of sending one request to the core. -/
inductive CoreReply
  | sendFailed (err : String)
  | response (r : CoreHttpResponse)

/-- `StatusCode::is_success`. -/
def CoreHttpResponse.isSuccess (r : CoreHttpResponse) : Bool := 200 ≤ r.status && r.status < 300

/-! ### The fields of a llama-server response that the gateway reuses -/

structure LlamaChatMessage where
  content : String

structure LlamaChatChoice where
  message : LlamaChatMessage

structure LlamaChatUsage where
  completionTokens : Option UInt32
  totalTokens : Option UInt32

structure LlamaChatTimings where
  predictedMs : Option F64
  totalMs : Option F64

structure LlamaChatResponse where
  choices : List LlamaChatChoice
  usage : Option LlamaChatUsage
  timings : Option LlamaChatTimings

/-- `serde_json` decoding of a response body into the two response types. -/
structure CoreDecoder where
  inferResponse : List UInt8 → Except String InferResponse
  llamaChatResponse : List UInt8 → Except String LlamaChatResponse

/-! ## The calls -/

/-- What both protocols do with a reply before they look at the decoded value. -/
def receive {α : Type} (decode : List UInt8 → Except String α) (decodeError : String)
    (reply : CoreReply) : Except String α :=
  match reply with
  | .sendFailed err => .error ("rpc error: " ++ err)
  | .response r =>
    if r.isSuccess then
      match r.bytes with
      | .error err => .error (decodeError ++ err)
      | .ok bytes =>
        match decode bytes with
        | .error err => .error (decodeError ++ err)
        | .ok value => .ok value
    else .error ("core returned " ++ r.statusText ++ ": " ++ r.text.getD "no body")

theorem receive_eq_ok {α : Type} {decode : List UInt8 → Except String α} {decodeError : String}
    {reply : CoreReply} {value : α} (h : receive decode decodeError reply = .ok value) :
    ∃ r body, reply = .response r ∧ r.isSuccess = true ∧ r.bytes = .ok body ∧ decode body = .ok value := by
  cases reply with
  | sendFailed err => cases h
  | response r =>
    simp only [receive] at h
    split at h
    · rename_i hsuccess
      cases hbytes : r.bytes with
      | error err => rw [hbytes] at h; cases h
      | ok body =>
        rw [hbytes] at h
        dsimp only at h
        cases hdecode : decode body with
        | error err => rw [hdecode] at h; cases h
        | ok v =>
          rw [hdecode] at h
          cases h
          exact ⟨r, body, rfl, hsuccess, hbytes, hdecode⟩
    · cases h

/-- `call_infer_protocol`: the core's response is passed on as it is. -/
def callInferProtocol (decoder : CoreDecoder) (reply : CoreReply) : JobResult :=
  receive decoder.inferResponse "failed to decode core response: " reply

/-- The mapping at the end of `call_llama_chat_protocol`. -/
def llamaChatResult (req : InferRequest) (parsed : LlamaChatResponse) : InferResponse :=
  let output := (parsed.choices.head?.map fun choice => choice.message.content).getD ""
  let tokens := (parsed.usage.bind fun usage => usage.completionTokens.or usage.totalTokens).getD 0
  let latencyMs :=
    ((parsed.timings.bind fun timings => timings.predictedMs.or timings.totalMs).getD ⟨0⟩).asU128
  { requestId := req.requestId.getD ""
    model := req.model
    output := output
    usage := { latencyMs := latencyMs, tokens := tokens }
    status := "ok" }

/-- `call_llama_chat_protocol`. -/
def callLlamaChatProtocol (decoder : CoreDecoder) (req : InferRequest) (reply : CoreReply) :
    JobResult :=
  (receive decoder.llamaChatResponse "failed to decode llama-server response: " reply).map
    (llamaChatResult req)

/-- `call_inference_core`. -/
def callInferenceCore (decoder : CoreDecoder) (protocol : CoreProtocol) (req : InferRequest)
    (reply : CoreReply) : JobResult :=
  match protocol with
  | .infer => callInferProtocol decoder reply
  | .llamaChat => callLlamaChatProtocol decoder req reply

/-- A response built by the llama-chat protocol carries the id of the request. -/
theorem callInferenceCore_llamaChat_requestId {decoder : CoreDecoder} {req : InferRequest}
    {reply : CoreReply} {resp : InferResponse}
    (h : callInferenceCore decoder .llamaChat req reply = .ok resp) :
    resp.requestId = req.requestId.getD "" := by
  simp only [callInferenceCore, callLlamaChatProtocol] at h
  cases hr : receive decoder.llamaChatResponse "failed to decode llama-server response: " reply with
  | error err => rw [hr] at h; cases h
  | ok parsed =>
    rw [hr] at h
    cases h
    rfl

end InferenceGateway.Gateway
