import InferenceGateway.Core.Parse

/-! # The replies of the inference core

Reference: `json_escape`, `make_request_id`, `run_cpu_inference`, `build_inference_json` and
`build_error_json` in `inference_core.cpp`, in the build without CUDA, where `run_cuda_inference` is
`run_cpu_inference`.

A string stream appends to a buffer; its text is the concatenation of what was inserted.
-/

namespace InferenceGateway.Core

open Common

/-- The decimal text of an integer, as a stream in the "C" locale writes it. -/
def decimal (n : ℤ) : StdString :=
  if n < 0 then bytes "-" ++ utf8 (Nat.toDigits 10 n.natAbs) else utf8 (Nat.toDigits 10 n.natAbs)

/-- The text that `json_escape` writes for one character. -/
def jsonEscapeByte (ch : UInt8) : StdString :=
  if ch = asciiByte '\\' then bytes "\\\\"
  else if ch = quote then bytes "\\\""
  else if ch = asciiByte '\n' then bytes "\\n"
  else if ch = asciiByte '\r' then bytes "\\r"
  else if ch = asciiByte '\t' then bytes "\\t"
  else [ch]

/-- `json_escape`. -/
def jsonEscape (value : StdString) : StdString := value.flatMap jsonEscapeByte

/-- `make_request_id`, at the given time in milliseconds since the epoch. -/
def makeRequestId (nowMs : ℤ) : StdString := bytes "cpp-" ++ decimal nowMs

/-- `run_cpu_inference`. -/
def runCpuInference (lib : StdFloat) (request : InferenceRequest) : StdString :=
  let text := request.input.map toupper
  bytes "C++ CPU inference result for model=" ++ request.model
    ++ bytes " input=" ++ jsonEscape request.input
    ++ bytes " tokens=" ++ decimal request.maxTokens
    ++ bytes " temperature=" ++ lib.print request.temperature
    ++ bytes " top_p=" ++ lib.print request.topP
    ++ bytes " normalized=" ++ jsonEscape text

/-- `build_inference_json`. -/
def buildInferenceJson (lib : StdFloat) (nowMs : ℤ) (request : InferenceRequest) : StdString :=
  let result := runCpuInference lib request
  bytes "\x7b"
    ++ bytes "\"request_id\":\"" ++ makeRequestId nowMs ++ bytes "\","
    ++ bytes "\"model\":\"" ++ jsonEscape request.model ++ bytes "\","
    ++ bytes "\"output\":\"" ++ jsonEscape result ++ bytes "\","
    ++ bytes "\"usage\":\x7b\"latency_ms\":" ++ decimal 5 ++ bytes ",\"tokens\":"
      ++ decimal request.maxTokens ++ bytes "\x7d,"
    ++ bytes "\"status\":\"ok\""
    ++ bytes "\x7d"

/-- `build_error_json`. -/
def buildErrorJson (message : StdString) (statusCode : ℤ) : StdString :=
  bytes "\x7b\"status\":\"error\",\"message\":\"" ++ jsonEscape message ++ bytes "\",\"code\":"
    ++ decimal statusCode ++ bytes "\x7d"

end InferenceGateway.Core
