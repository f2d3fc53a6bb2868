import InferenceGateway.Common.JsonParse
import InferenceGateway.Common.Utf8
import InferenceGateway.Gateway.Types

/-! # The JSON wire format towards the core

Reference: the `Serialize` of `InferRequest` and `InferOptions` and the `Deserialize` of `InferResponse`
and `Usage` in `main.rs`, as `call_infer_protocol` uses them through `reqwest`.

`serde_json` writes without whitespace and in the order of the fields, `null` for `None` and for a float
that is not finite. How it prints a finite float is the business of a printer: all that is known of it
here is that it prints a number.
-/

namespace InferenceGateway.Gateway

open Common

/-! ## Requests -/

/-- The numeral that is printed for a finite `f32`. -/
abbrev F32Printer := F32 → Numeral

/-- An optional field. -/
def optionJson {α : Type} (toJson : α → Json) : Option α → Json
  | none => .null
  | some a => toJson a

/-- A `u32`. -/
def u32Json (n : UInt32) : Json := .num (Numeral.ofNat n.toNat)

/-- An `f32`. -/
def f32Json (printer : F32Printer) (x : F32) : Json := if x.isFinite then .num (printer x) else .null

/-- `InferOptions` as JSON. -/
def InferOptions.toJson (printer : F32Printer) (options : InferOptions) : Json :=
  .obj
    [("max_tokens", optionJson u32Json options.maxTokens),
     ("temperature", optionJson (f32Json printer) options.temperature),
     ("top_p", optionJson (f32Json printer) options.topP)]

/-- `InferRequest` as JSON. -/
def InferRequest.toJson (printer : F32Printer) (req : InferRequest) : Json :=
  .obj
    [("model", .str req.model),
     ("input", .str req.input),
     ("options", optionJson (InferOptions.toJson printer) req.options),
     ("request_id", optionJson .str req.requestId)]

/-- The body of the request of `call_infer_protocol`. -/
def inferRequestBody (printer : F32Printer) (req : InferRequest) : List UInt8 :=
  utf8 (req.toJson printer).compact

/-! ## Responses -/

/-- The value of a member that has to occur, and must not occur twice. -/
def field (key : String) (members : List (String × Json)) : Option Json :=
  match members.filter fun m => m.1 == key with
  | [m] => some m.2
  | _ => none

/-- A `String`. -/
def decodeString : Json → Option String
  | .str s => some s
  | _ => none

/-- A natural number below a bound. -/
def decodeNat (bound : ℕ) : Json → Option ℕ
  | .num literal => literal.toNat?.filter (· < bound)
  | _ => none

/-- A `u32`. -/
def decodeU32 (v : Json) : Option UInt32 := (decodeNat (2 ^ 32) v).map UInt32.ofNat

/-- A `u128`. -/
def decodeU128 (v : Json) : Option (BitVec 128) := (decodeNat (2 ^ 128) v).map (BitVec.ofNat 128)

/-- `Usage` from the values of its fields. -/
def usageOfFields (latencyMs tokens : Json) : Option Usage := do
  let latencyMs ← decodeU128 latencyMs
  let tokens ← decodeU32 tokens
  return { latencyMs, tokens }

/-- `Usage` from an object, or from an array of its fields. -/
def decodeUsage : Json → Option Usage
  | .obj members => do
    let latencyMs ← field "latency_ms" members
    let tokens ← field "tokens" members
    usageOfFields latencyMs tokens
  | .arr [latencyMs, tokens] => usageOfFields latencyMs tokens
  | _ => none

/-- `InferResponse` from the values of its fields. -/
def responseOfFields (requestId model output usage status : Json) : Option InferResponse := do
  let requestId ← decodeString requestId
  let model ← decodeString model
  let output ← decodeString output
  let usage ← decodeUsage usage
  let status ← decodeString status
  return { requestId, model, output, usage, status }

/-- `InferResponse` from an object, or from an array of its fields. -/
def decodeResponse : Json → Option InferResponse
  | .obj members => do
    let requestId ← field "request_id" members
    let model ← field "model" members
    let output ← field "output" members
    let usage ← field "usage" members
    let status ← field "status" members
    responseOfFields requestId model output usage status
  | .arr [requestId, model, output, usage, status] =>
    responseOfFields requestId model output usage status
  | _ => none

/-- `response.json::<InferResponse>()` on the bytes of a body. Its parser also refuses a text that is not
JSON inside a member that no field names, over which `serde_json` passes with fewer checks. -/
def decodeInferResponse (body : List UInt8) : Option InferResponse := do
  let text ← fromUtf8 body
  let value ← Json.parse text
  decodeResponse value

/-! ## What is read from a body -/

theorem decodeU32_ofNat {n : ℕ} (h : n < 2 ^ 32) :
    decodeU32 (.num (Numeral.ofNat n)) = some (UInt32.ofNat n) := by
  rw [decodeU32, decodeNat, Numeral.toNat?_ofNat, Option.filter_some, if_pos (by simpa using h),
    Option.map_some]

theorem decodeU128_ofNat {n : ℕ} (h : n < 2 ^ 128) :
    decodeU128 (.num (Numeral.ofNat n)) = some (BitVec.ofNat 128 n) := by
  rw [decodeU128, decodeNat, Numeral.toNat?_ofNat, Option.filter_some, if_pos (by simpa using h),
    Option.map_some]

/-- A body that is the compact text of a value is decoded as the value. -/
theorem decodeInferResponse_compact (v : Json) : decodeInferResponse (utf8 v.compact) = decodeResponse v := by
  simp only [decodeInferResponse, fromUtf8_utf8, parse_compact, Option.bind_eq_bind, Option.bind_some]

end InferenceGateway.Gateway
