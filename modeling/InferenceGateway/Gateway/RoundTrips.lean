import InferenceGateway.Gateway.Delivery
import InferenceGateway.Gateway.Wire

/-! # The wire contract in both directions

Reference: the `Deserialize` of `InferRequest` and `InferOptions` in `main.rs`, as `infer_handler` uses it
through the `Json` extractor, and the answers of `infer_handler`.

The same types are written towards the core and read from clients, and written towards clients and read from
the core. What is written is read back, with two exceptions: a float that is not finite is written as `null`,
which is read as `None`, and an answer that stands for something else than a response is not read as one.
-/

namespace InferenceGateway.Gateway

open Common

/-! ## Reading a request -/

/-- The `f32` that is read from a number. -/
abbrev F32Reader := Numeral → Option F32

/-- The value of a member that need not occur, and must not occur twice. -/
def optionalField (key : String) (members : List (String × Json)) : Option (Option Json) :=
  match members.filter fun m => m.1 == key with
  | [] => some none
  | [m] => some (some m.2)
  | _ => none

/-- An `Option`: `null` is `None`, and so is a member that is missing. -/
def decodeOption {α : Type} (decode : Json → Option α) : Option Json → Option (Option α)
  | none => some none
  | some .null => some none
  | some v => (decode v).map some

/-- An `f32`. -/
def decodeF32 (reader : F32Reader) : Json → Option F32
  | .num literal => reader literal
  | _ => none

/-- `InferOptions` from the values of its fields. -/
def optionsOfFields (reader : F32Reader) (maxTokens temperature topP : Option Json) : Option InferOptions := do
  let maxTokens ← decodeOption decodeU32 maxTokens
  let temperature ← decodeOption (decodeF32 reader) temperature
  let topP ← decodeOption (decodeF32 reader) topP
  return { maxTokens, temperature, topP }

/-- `InferOptions` from an object, or from an array of its fields. -/
def decodeOptions (reader : F32Reader) : Json → Option InferOptions
  | .obj members => do
    let maxTokens ← optionalField "max_tokens" members
    let temperature ← optionalField "temperature" members
    let topP ← optionalField "top_p" members
    optionsOfFields reader maxTokens temperature topP
  | .arr [maxTokens, temperature, topP] =>
    optionsOfFields reader (some maxTokens) (some temperature) (some topP)
  | _ => none

/-- `InferRequest` from the values of its fields. -/
def requestOfFields (reader : F32Reader) (model input : Json) (options requestId : Option Json) :
    Option InferRequest := do
  let model ← decodeString model
  let input ← decodeString input
  let options ← decodeOption (decodeOptions reader) options
  let requestId ← decodeOption decodeString requestId
  return { model, input, options, requestId }

/-- `InferRequest` from an object, or from an array of its fields, of which the last has a default. -/
def decodeRequest (reader : F32Reader) : Json → Option InferRequest
  | .obj members => do
    let model ← field "model" members
    let input ← field "input" members
    let options ← optionalField "options" members
    let requestId ← optionalField "request_id" members
    requestOfFields reader model input options requestId
  | .arr [model, input, options] => requestOfFields reader model input (some options) none
  | .arr [model, input, options, requestId] =>
    requestOfFields reader model input (some options) (some requestId)
  | _ => none

/-- `Json<InferRequest>` on the bytes of a body. -/
def decodeInferRequest (reader : F32Reader) (body : List UInt8) : Option InferRequest := do
  let text ← fromUtf8 body
  let value ← Json.parse text
  decodeRequest reader value

/-! ## Requests -/

/-- The floats among the options. -/
def InferOptions.floats (options : InferOptions) : List F32 := options.temperature.toList ++ options.topP.toList

/-- The floats of a request. -/
def InferRequest.floats (req : InferRequest) : List F32 := req.options.toList.flatMap InferOptions.floats

/-- The options without the floats that are not finite. -/
def InferOptions.finite (options : InferOptions) : InferOptions :=
  { options with
    temperature := options.temperature.filter F32.isFinite
    topP := options.topP.filter F32.isFinite }

/-- The request without the floats that are not finite. -/
def InferRequest.finite (req : InferRequest) : InferRequest :=
  { req with options := req.options.map InferOptions.finite }

/-- What is read of an optional value that was written, if the value itself is read. -/
theorem decodeOption_optionJson {α : Type} {decode : Json → Option α} {toJson : α → Json} (x : Option α)
    (h : ∀ a ∈ x, toJson a ≠ .null ∧ decode (toJson a) = some a) :
    decodeOption decode (some (optionJson toJson x)) = some x := by
  cases x with
  | none => rfl
  | some a =>
    obtain ⟨hnull, hdecode⟩ := h a rfl
    rw [optionJson, decodeOption, hdecode, Option.map_some]
    exact hnull

section Reading

variable {printer : F32Printer} {reader : F32Reader}

theorem decodeOption_f32 {x : Option F32}
    (hreads : ∀ y ∈ x, F32.isFinite y = true → reader (printer y) = some y) :
    decodeOption (decodeF32 reader) (some (optionJson (f32Json printer) x)) = some (x.filter F32.isFinite) := by
  cases x with
  | none => rfl
  | some y =>
    rw [Option.filter_some, optionJson, f32Json]
    by_cases hfinite : y.isFinite = true
    · rw [if_pos hfinite, if_pos hfinite, decodeOption, decodeF32, hreads y rfl hfinite, Option.map_some]
      exact Json.noConfusion
    · rw [if_neg hfinite, if_neg hfinite]
      rfl

theorem decodeOptions_toJson {options : InferOptions}
    (hreads : ∀ y ∈ options.floats, F32.isFinite y = true → reader (printer y) = some y) :
    decodeOptions reader (options.toJson printer) = some options.finite := by
  have hmax : decodeOption decodeU32 (some (optionJson u32Json options.maxTokens)) = some options.maxTokens := by
    refine decodeOption_optionJson _ fun n _ => ⟨Json.noConfusion, ?_⟩
    rw [u32Json, decodeU32_ofNat n.toNat_lt, UInt32.ofNat_toNat]
  have htemperature : decodeOption (decodeF32 reader) (some (optionJson (f32Json printer) options.temperature)) =
      some (options.temperature.filter F32.isFinite) :=
    decodeOption_f32 fun y hy => hreads y (List.mem_append_left _ (Option.mem_toList.mpr hy))
  have htopP : decodeOption (decodeF32 reader) (some (optionJson (f32Json printer) options.topP)) =
      some (options.topP.filter F32.isFinite) :=
    decodeOption_f32 fun y hy => hreads y (List.mem_append_right _ (Option.mem_toList.mpr hy))
  have hfields : decodeOptions reader (options.toJson printer) =
      optionsOfFields reader (some (optionJson u32Json options.maxTokens))
        (some (optionJson (f32Json printer) options.temperature))
        (some (optionJson (f32Json printer) options.topP)) := rfl
  rw [hfields, optionsOfFields, hmax, htemperature, htopP]
  rfl

theorem decodeRequest_toJson {req : InferRequest}
    (hreads : ∀ y ∈ req.floats, F32.isFinite y = true → reader (printer y) = some y) :
    decodeRequest reader (req.toJson printer) = some req.finite := by
  have hoptions : decodeOption (decodeOptions reader)
      (some (optionJson (InferOptions.toJson printer) req.options)) =
        some (req.options.map InferOptions.finite) := by
    cases hsent : req.options with
    | none => rfl
    | some options =>
      have hdecode : decodeOptions reader (options.toJson printer) = some options.finite := by
        apply decodeOptions_toJson
        intro y hy
        apply hreads
        rw [InferRequest.floats, hsent]
        simpa using hy
      rw [optionJson, decodeOption, hdecode]
      · rfl
      · exact Json.noConfusion
  have hid : decodeOption decodeString (some (optionJson .str req.requestId)) = some req.requestId :=
    decodeOption_optionJson _ fun id _ => ⟨Json.noConfusion, rfl⟩
  have hfields : decodeRequest reader (req.toJson printer) =
      requestOfFields reader (.str req.model) (.str req.input)
        (some (optionJson (InferOptions.toJson printer) req.options))
        (some (optionJson .str req.requestId)) := rfl
  rw [hfields, requestOfFields, hoptions, hid]
  rfl

end Reading

/-! ### What the writing of a float loses -/

theorem optionJson_filter_isFinite (printer : F32Printer) (x : Option F32) :
    optionJson (f32Json printer) (x.filter F32.isFinite) = optionJson (f32Json printer) x := by
  cases x with
  | none => rfl
  | some y =>
    rw [Option.filter_some]
    by_cases hfinite : y.isFinite = true
    · rw [if_pos hfinite]
    · rw [if_neg hfinite, optionJson, optionJson, f32Json, if_neg hfinite]

theorem InferOptions.finite_toJson (printer : F32Printer) (options : InferOptions) :
    options.finite.toJson printer = options.toJson printer := by
  rw [InferOptions.toJson, InferOptions.finite, optionJson_filter_isFinite, optionJson_filter_isFinite]
  rfl

theorem InferRequest.finite_toJson (printer : F32Printer) (req : InferRequest) :
    req.finite.toJson printer = req.toJson printer := by
  have hoptions : optionJson (InferOptions.toJson printer) (req.options.map InferOptions.finite) =
      optionJson (InferOptions.toJson printer) req.options := by
    cases req.options with
    | none => rfl
    | some options => exact options.finite_toJson printer
  rw [InferRequest.toJson, InferRequest.finite, hoptions]
  rfl

theorem filter_isFinite_eq_iff (x : Option F32) :
    x.filter F32.isFinite = x ↔ ∀ y ∈ x.toList, F32.isFinite y = true := by
  cases x with
  | none => simp
  | some y =>
    rw [Option.filter_some, Option.toList_some, List.forall_mem_singleton]
    by_cases hfinite : y.isFinite = true
    · simp [hfinite]
    · simp [hfinite]

theorem InferOptions.finite_eq_iff (options : InferOptions) :
    options.finite = options ↔ ∀ y ∈ options.floats, F32.isFinite y = true := by
  rw [InferOptions.floats, List.forall_mem_append, ← filter_isFinite_eq_iff, ← filter_isFinite_eq_iff]
  constructor
  · intro heq
    exact ⟨congrArg InferOptions.temperature heq, congrArg InferOptions.topP heq⟩
  · rintro ⟨htemperature, htopP⟩
    rw [InferOptions.finite, htemperature, htopP]

theorem InferRequest.finite_eq_iff (req : InferRequest) :
    req.finite = req ↔ ∀ y ∈ req.floats, F32.isFinite y = true := by
  have hoptions : req.finite = req ↔ req.options.map InferOptions.finite = req.options := by
    constructor
    · intro heq
      exact congrArg InferRequest.options heq
    · intro heq
      rw [InferRequest.finite, heq]
  rw [hoptions, InferRequest.floats]
  cases req.options with
  | none => simp
  | some options =>
    rw [Option.map_some, Option.some.injEq, options.finite_eq_iff, Option.toList_some, List.flatMap_singleton]

/-- A request that the gateway wrote for its core reads, on the side of a gateway, as the same request without
the floats that are not finite, and these are all that the text does not say. -/
theorem request_round_trip (printer : F32Printer) (reader : F32Reader) (req : InferRequest)
    (hreads : ∀ x ∈ req.floats, F32.isFinite x = true → reader (printer x) = some x) :
    decodeInferRequest reader (inferRequestBody printer req) = some req.finite ∧
      inferRequestBody printer req.finite = inferRequestBody printer req ∧
      (decodeInferRequest reader (inferRequestBody printer req) = some req ↔
        ∀ x ∈ req.floats, F32.isFinite x = true) := by
  have hdecode : decodeInferRequest reader (inferRequestBody printer req) = some req.finite := by
    rw [decodeInferRequest, inferRequestBody, fromUtf8_utf8]
    show (Json.parse _).bind _ = _
    rw [parse_compact, Option.bind_some, decodeRequest_toJson hreads]
  refine ⟨hdecode, by rw [inferRequestBody, req.finite_toJson, inferRequestBody], ?_⟩
  rw [hdecode, Option.some.injEq, req.finite_eq_iff]

/-- The printer and the reader, as far as the number one quarter goes. -/
def quarterNumeral : Numeral := ⟨"0.25".toList, by decide, by decide⟩

def quarterReader : F32Reader := fun literal =>
  if literal.text = "0.25".toList then some ⟨0x3e800000⟩ else none

/-- A request with a float and with something that is not a number. -/
def quarterRequest : InferRequest where
  model := "llama-7b"
  input := "hello\nworld"
  options := some { maxTokens := some 64, temperature := some ⟨0x3e800000⟩, topP := some ⟨0x7fc00000⟩ }
  requestId := none

/-- The `top_p` of this request is lost on the way. -/
theorem request_round_trip_quarter :
    decodeInferRequest quarterReader (inferRequestBody (fun _ => quarterNumeral) quarterRequest) =
      some { quarterRequest with
        options := some { maxTokens := some 64, temperature := some ⟨0x3e800000⟩, topP := none } } := by
  have hreads : ∀ x ∈ quarterRequest.floats, F32.isFinite x = true → quarterReader quarterNumeral = some x := by decide
  have hfinite : quarterRequest.finite = { quarterRequest with
      options := some { maxTokens := some 64, temperature := some ⟨0x3e800000⟩, topP := none } } := by decide
  rw [← hfinite]
  exact (request_round_trip (fun _ => quarterNumeral) quarterReader quarterRequest hreads).1

/-! ## Responses -/

/-- A response that has a JSON value is read back from it. -/
theorem decodeResponse_toValue (resp : InferResponse) (h : resp.usage.latencyMs.toNat < 2 ^ 64) :
    ∃ value, InferHandler.toValue resp = some value ∧ decodeResponse value = some resp := by
  refine ⟨_, if_pos h, ?_⟩
  have hlatency : decodeU128 (.num (Numeral.ofNat resp.usage.latencyMs.toNat)) = some resp.usage.latencyMs := by
    rw [decodeU128_ofNat resp.usage.latencyMs.isLt, BitVec.ofNat_toNat, BitVec.setWidth_eq]
  have htokens : decodeU32 (.num (Numeral.ofNat resp.usage.tokens.toNat)) = some resp.usage.tokens := by
    rw [decodeU32_ofNat resp.usage.tokens.toNat_lt, UInt32.ofNat_toNat]
  have husage : decodeUsage (.obj
      [("latency_ms", .num (Numeral.ofNat resp.usage.latencyMs.toNat)),
       ("tokens", .num (Numeral.ofNat resp.usage.tokens.toNat))]) = some resp.usage := by
    show usageOfFields _ _ = _
    rw [usageOfFields, hlatency, htokens]
    rfl
  calc
    _ = responseOfFields (.str resp.requestId) (.str resp.model) (.str resp.output)
          (.obj
            [("latency_ms", .num (Numeral.ofNat resp.usage.latencyMs.toNat)),
             ("tokens", .num (Numeral.ofNat resp.usage.tokens.toNat))])
          (.str resp.status) := rfl
    _ = some resp := by
      rw [responseOfFields, husage]
      rfl

/-- An object without a model is no response. -/
theorem decodeResponse_of_no_model {members : List (String × Json)} (h : field "model" members = none) :
    decodeResponse (.obj members) = none := by
  show (field "request_id" members).bind _ = none
  rw [Option.bind_eq_none_iff]
  intro requestId _
  show (field "model" members).bind _ = none
  rw [h]
  rfl

/-- The body of the HTTP answer to a response. -/
theorem decodeResponse_respond_ok (requestId : String) (resp : InferResponse) :
    decodeResponse (InferHandler.respond requestId (.result (.ok resp))).body =
      if resp.usage.latencyMs.toNat < 2 ^ 64 then some { resp with requestId := requestId } else none := by
  by_cases hlt : resp.usage.latencyMs.toNat < 2 ^ 64
  · obtain ⟨value, hvalue, hdecode⟩ := decodeResponse_toValue { resp with requestId := requestId } hlt
    have hbody : (InferHandler.respond requestId (.result (.ok resp))).body = value := by
      show (InferHandler.toValue _).getD _ = value
      rw [hvalue, Option.getD_some]
    rw [hbody, hdecode, if_pos hlt]
  · rw [respond_body_of_le requestId (Nat.not_lt.mp hlt), if_neg hlt]
    exact decodeResponse_of_no_model rfl

/-- The body of every other HTTP answer says nothing of a model. -/
theorem decodeResponse_respond_of_ne (requestId : String) {awaited : Awaited}
    (h : ∀ resp, awaited ≠ .result (.ok resp)) :
    decodeResponse (InferHandler.respond requestId awaited).body = none := by
  cases awaited with
  | result r =>
    cases r with
    | ok resp => exact absurd rfl (h resp)
    | error errMsg => exact decodeResponse_of_no_model rfl
  | senderDropped | elapsed => exact decodeResponse_of_no_model rfl

/-- Neither does the body of the answer to a request that is turned away. -/
theorem decodeResponse_of_refused {call : InferCall} {response : HttpResponse}
    (h : Reply.http response = call.unknownModel ∨
      ∃ requestId, Reply.http response = call.queueFull requestId) :
    decodeResponse response.body = none := by
  cases call with
  | http call =>
    rcases h with h | ⟨requestId, h⟩
    all_goals
      cases h
      exact decodeResponse_of_no_model rfl
  | grpc protoReq => rcases h with h | ⟨requestId, h⟩ <;> cases h

/-- What is read from the body of an HTTP answer. -/
theorem decodeResponse_respond_iff (requestId : String) (awaited : Awaited) (read : InferResponse) :
    decodeResponse (InferHandler.respond requestId awaited).body = some read ↔
      ∃ resp, awaited = .result (.ok resp) ∧ resp.usage.latencyMs.toNat < 2 ^ 64 ∧
        read = { resp with requestId := requestId } := by
  by_cases hok : ∃ resp, awaited = .result (.ok resp)
  · obtain ⟨resp, rfl⟩ := hok
    rw [decodeResponse_respond_ok, Option.ite_none_right_eq_some]
    constructor
    · rintro ⟨hlt, hread⟩
      exact ⟨resp, rfl, hlt, (Option.some.inj hread).symm⟩
    · rintro ⟨resp', hresp', hlt, rfl⟩
      cases hresp'
      exact ⟨hlt, rfl⟩
  · rw [decodeResponse_respond_of_ne requestId (not_exists.mp hok)]
    constructor
    · intro hread
      cases hread
    · rintro ⟨resp, hresp, -⟩
      exact absurd ⟨resp, hresp⟩ hok

/-- In every reachable state, the body of an HTTP answer reads as a response, on the side of a gateway, just
when it is the answer to a response whose latency fits into 64 bits, and then it reads as that response under
the id of its request. -/
theorem response_round_trip (cfg : Config) {s : State} (hs : (gateway cfg).Reachable s) {i : ℕ} {h : Handler}
    (hi : s.handlers[i]? = some h) {response : HttpResponse} (hdone : h.phase = .done (.http response))
    (read : InferResponse) :
    decodeResponse response.body = some read ↔
      ∃ resp requestId, h.awaited = some (.result (.ok resp)) ∧ h.stamped = some requestId ∧
        resp.usage.latencyMs.toNat < 2 ^ 64 ∧ read = { resp with requestId := requestId } := by
  obtain ⟨op, hanswers, -⟩ := answers_of_done hs hi hdone
  generalize hreply : Reply.http response = reply at hanswers
  generalize hstamped : h.stamped = stamped at hanswers ⊢
  generalize hawaited : h.awaited = awaited at hanswers ⊢
  cases hanswers with
  | unknownModel => simp [decodeResponse_of_refused (.inl hreply)]
  | queueFull requestId => simp [decodeResponse_of_refused (.inr ⟨requestId, hreply⟩)]
  | served requestId awaited =>
    obtain rfl := InferCall.respond_eq_http hreply
    rw [decodeResponse_respond_iff]
    constructor
    · rintro ⟨resp, rfl, hlt, rfl⟩
      exact ⟨resp, requestId, rfl, rfl, hlt, rfl⟩
    · rintro ⟨resp, requestId', hresp, hid, hlt, rfl⟩
      cases hresp
      cases hid
      exact ⟨resp, rfl, hlt, rfl⟩

/-- A core that took five milliseconds answers an HTTP request. -/
theorem response_round_trip_short :
    ∃ (s : State) (h : Handler) (response : HttpResponse) (requestId : String),
      (gateway (scenarioConfig 2 2 .infer wireDecoder)).Reachable s ∧ s.handlers[0]? = some h ∧
      h.phase = .done (.http response) ∧ h.stamped = some requestId ∧
      decodeResponse response.body = some { responseWithLatency 5 with requestId := requestId } := by
  obtain ⟨s, hs, hzero⟩ :=
    (reachable_init (scenarioConfig 2 2 .infer wireDecoder)).exists_of_run
      (fun s => (s.handlers[0]?.bind Handler.httpDelivery).map Prod.fst = some (responseWithLatency 5))
      (bothServedRun (replyWithLatency 5)) (by decide +kernel)
  obtain ⟨⟨-, response⟩, hzero, rfl⟩ := Option.map_eq_some_iff.mp hzero
  obtain ⟨h, hi, hzero⟩ := Option.bind_eq_some_iff.mp hzero
  obtain ⟨ha, hdone⟩ := Handler.httpDelivery_eq_some hzero
  obtain ⟨requestId, hid, -⟩ := reply_of_awaited hs hi ha hdone
  exact ⟨s, h, response, requestId, hs, hi, hdone, hid,
    (response_round_trip _ hs hi hdone _).mpr ⟨_, requestId, ha, hid, by decide, rfl⟩⟩

end InferenceGateway.Gateway
