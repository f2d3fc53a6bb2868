import InferenceGateway.Common.Python
import InferenceGateway.Gateway.Wire
import InferenceGateway.Wire.Requests

/-! # The mock core on the wire

Reference: `MockInferenceHandler.do_POST` in `mock_server.py`; for the requests it gets and for what becomes
of its replies `call_infer_protocol` in `main.rs`.

The mock copies `max_tokens` into its reply. A missing field is replaced by zero, but `serde_json` writes an
absent field as `null`, which `dict.get` returns as it stands: the reply then has no number of tokens, and
the gateway does not decode it. `options` itself is guarded against `null`. Everything else is copied
faithfully, whatever the strings are. Only an integer of thousands of digits, which no printer of an `f32`
writes, makes `json.loads` raise.
-/

namespace InferenceGateway.Wire

open Common Gateway

/-! ## The handler -/

/-- What a handler reads of a `POST`. -/
structure PostRequest where
  path : String
  /-- The header `Content-Length`. -/
  contentLength : Option (List Char)
  /-- What the client sends behind the headers. -/
  input : List UInt8

/-- `rfile.read`: everything, if the number is negative. -/
def PostRequest.read (post : PostRequest) (n : ℤ) : List UInt8 :=
  if n < 0 then post.input else post.input.take n.toNat

/-- A response that the handler writes itself. -/
structure PostReply where
  status : ℕ
  headers : List (String × String)
  body : List UInt8

/-- What becomes of a `POST`. -/
inductive PostOutcome
  | answered (reply : PostReply)
  /-- `send_error`. -/
  | failed (status : ℕ) (message : String)
  /-- The exception leaves the handler, and the connection is closed without a response. -/
  | raised (e : PyError)

/-- The response that `do_POST` builds from the payload. -/
def mockResponse (py : Python) (payload : PyValue) : Except PyError PyValue := do
  let inputText ← payload.get "input" (.str "")
  let modelName ← payload.get "model" (.str "unknown")
  let options ← payload.get "options" .none
  let options := if options.truthy py then options else .dict []
  let maxTokens ← options.get "max_tokens" (.int 0)
  let requestId ← modelName.appendTo "mock-"
  return .dict
    [("request_id", .str requestId),
      ("model", modelName),
      ("output", .str ("mocked GPU output for: " ++ inputText.format py)),
      ("usage", .dict [("latency_ms", .int 10), ("tokens", maxTokens)]),
      ("status", .str "ok")]

/-- `do_POST`. -/
def doPost (py : Python) (post : PostRequest) : PostOutcome :=
  if post.path ≠ "/infer" then .failed 404 "Not Found"
  else match pyInt (post.contentLength.getD ['0']) with
    | none => .raised .valueError
    | some contentLength =>
      match loads py (post.read contentLength) with
      | .error (.jsonDecodeError exc) => .failed 400 ("Invalid JSON: " ++ exc)
      | .error e => .raised e
      | .ok payload =>
        match mockResponse py payload with
        | .error e => .raised e
        | .ok response =>
          let body := utf8 (dumps py response)
          .answered
            { status := 200
              headers := [("Content-Type", "application/json"),
                ("Content-Length", toString body.length)]
              body }

/-- A `POST` of a body to `/infer`. -/
def inferPost (body : List UInt8) : PostRequest where
  path := "/infer"
  contentLength := some (Nat.toDigits 10 body.length)
  input := body

/-- The mock answers the body with 200 and with a response that the gateway decodes. -/
def Honours (py : Python) (body : List UInt8) : Prop :=
  ∃ reply resp, doPost py (inferPost body) = .answered reply ∧ reply.status = 200 ∧
    decodeInferResponse reply.body = some resp

/-! ## The requests -/

/-- A field that is missing, `null` or there. -/
inductive Presence (α : Type)
  | absent
  | null
  | present (a : α)

variable {α : Type}

/-- The value of a field that is not missing. -/
def Presence.json? (toJson : α → Json) : Presence α → Option Json
  | .absent => none
  | .null => some .null
  | .present a => some (toJson a)

/-- The member for a field, unless it is missing. -/
def Presence.members (key : String) (toJson : α → Json) (p : Presence α) : List (String × Json) :=
  (p.json? toJson).toList.map fun v => (key, v)

/-- A field of a type that `serde_json` writes as `null` when it is `none`. -/
def Presence.ofOption : Option α → Presence α
  | none => .null
  | some a => .present a

/-- `options` with numerals for its floats. -/
structure WireOptions where
  maxTokens : Presence UInt32
  temperature : Presence Numeral
  topP : Presence Numeral

/-- A request in the order of the fields. -/
structure WireRequest where
  model : String
  input : String
  options : Presence WireOptions
  requestId : Presence String

def WireOptions.members (o : WireOptions) : List (String × Json) :=
  o.maxTokens.members "max_tokens" u32Json ++ o.temperature.members "temperature" .num ++
    o.topP.members "top_p" .num

def WireRequest.optionalMembers (req : WireRequest) : List (String × Json) :=
  req.options.members "options" (fun o => .obj o.members) ++ req.requestId.members "request_id" .str

def WireRequest.members (req : WireRequest) : List (String × Json) :=
  ("model", .str req.model) :: ("input", .str req.input) :: req.optionalMembers

/-- The compact text of a request. -/
def WireRequest.body (req : WireRequest) : List UInt8 := utf8 (Json.obj req.members).compact

/-- A finite float is written as a number. -/
def wireFloat (printer : F32Printer) (x : Option F32) : Presence Numeral :=
  .ofOption ((x.filter F32.isFinite).map printer)

/-- What the gateway writes for a request. -/
def WireRequest.ofRequest (printer : F32Printer) (req : InferRequest) : WireRequest where
  model := req.model
  input := req.input
  options := .ofOption (req.options.map fun o =>
    { maxTokens := .ofOption o.maxTokens
      temperature := wireFloat printer o.temperature
      topP := wireFloat printer o.topP })
  requestId := .ofOption req.requestId

theorem members_ofOption (key : String) (toJson : α → Json) (x : Option α) :
    (Presence.ofOption x).members key toJson = [(key, optionJson toJson x)] := by
  cases x <;> rfl

theorem members_wireFloat (printer : F32Printer) (key : String) (x : Option F32) :
    (wireFloat printer x).members key .num = [(key, optionJson (f32Json printer) x)] := by
  cases x with
  | none => rfl
  | some x =>
    rw [wireFloat, members_ofOption, Option.filter_some, optionJson, f32Json]
    split <;> rfl

theorem inferRequestBody_eq_body (printer : F32Printer) (req : InferRequest) :
    inferRequestBody printer req = (WireRequest.ofRequest printer req).body := by
  have hoptions : optionJson (InferOptions.toJson printer) req.options =
      optionJson (fun o => .obj o.members) (req.options.map fun o =>
        { maxTokens := .ofOption o.maxTokens
          temperature := wireFloat printer o.temperature
          topP := wireFloat printer o.topP : WireOptions }) := by
    cases req.options with
    | none => rfl
    | some o =>
      rw [Option.map_some, optionJson, optionJson, InferOptions.toJson, WireOptions.members,
        members_ofOption, members_wireFloat, members_wireFloat]
      rfl
  rw [inferRequestBody, WireRequest.body, InferRequest.toJson, WireRequest.members,
    WireRequest.optionalMembers, WireRequest.ofRequest, members_ofOption, members_ofOption, hoptions]
  rfl

/-! ## What the mock reads -/

/-- Python converts the numerals of the request. -/
def WireRequest.Converts (req : WireRequest) : Prop :=
  ∀ o, req.options = .present o → ∀ literal, o.temperature = .present literal ∨ o.topP = .present literal →
    literal.converts = true

theorem forall_members_presence (key : String) (toJson : α → Json) (p : Presence α) :
    (∀ m ∈ p.members key toJson, m.2.converts = true) ↔ ∀ a, p = .present a → (toJson a).converts = true := by
  cases p with
  | absent => simp [Presence.members, Presence.json?]
  | null => simp [Presence.members, Presence.json?, Json.converts]
  | present a => simp [Presence.members, Presence.json?]

theorem converts_u32Json (n : UInt32) : (u32Json n).converts = true := by
  have hbound : 10 ^ 10 ≤ 10 ^ maxStrDigits := Nat.pow_le_pow_right (by decide) (by decide)
  have hn : n.toNat < 10 ^ 10 := n.toNat_lt.trans (by decide)
  rw [u32Json, Json.converts]
  exact converts_ofNat (hn.trans_le hbound)

theorem membersConvert_options (o : WireOptions) :
    membersConvert o.members = true ↔
      ∀ literal, o.temperature = .present literal ∨ o.topP = .present literal → literal.converts = true := by
  rw [membersConvert_eq_all, List.all_eq_true, WireOptions.members, List.forall_mem_append,
    List.forall_mem_append, forall_members_presence, forall_members_presence, forall_members_presence]
  simp only [Json.converts]
  constructor
  · rintro ⟨⟨-, htemperature⟩, htopP⟩ literal (h | h)
    · exact htemperature literal h
    · exact htopP literal h
  · exact fun h => ⟨⟨fun n _ => converts_u32Json n, fun literal hl => h literal (.inl hl)⟩,
      fun literal hl => h literal (.inr hl)⟩

/-- The numbers of the options decide whether a request is read. -/
theorem membersConvert_iff (req : WireRequest) : membersConvert req.members = true ↔ req.Converts := by
  rw [membersConvert_eq_all, List.all_eq_true, WireRequest.members, List.forall_mem_cons,
    List.forall_mem_cons, WireRequest.optionalMembers, List.forall_mem_append, forall_members_presence,
    forall_members_presence]
  simp only [Json.converts, implies_true, and_true, true_and, membersConvert_options]
  rfl

theorem lookup_presence (key k : String) (toJson : α → Json) (p : Presence α) :
    (p.members k toJson).reverse.lookup key = if key = k then p.json? toJson else none := by
  rw [Presence.members]
  cases p.json? toJson with
  | none => rw [ite_self]; rfl
  | some v => exact lookup_cons_eq_ite key (k, v) []

theorem lookup_maxTokens (o : WireOptions) :
    o.members.reverse.lookup "max_tokens" = o.maxTokens.json? u32Json := by
  simp [WireOptions.members, lookup_append, lookup_presence]

theorem lookup_input (req : WireRequest) : req.members.reverse.lookup "input" = some (.str req.input) := by
  simp [WireRequest.members, WireRequest.optionalMembers, lookup_append, lookup_presence]

theorem lookup_model (req : WireRequest) : req.members.reverse.lookup "model" = some (.str req.model) := by
  simp [WireRequest.members, WireRequest.optionalMembers, lookup_append, lookup_presence, lookup_cons_eq_ite]

theorem lookup_options (req : WireRequest) :
    req.members.reverse.lookup "options" = req.options.json? fun o => .obj o.members := by
  simp [WireRequest.members, WireRequest.optionalMembers, lookup_append, lookup_presence, lookup_cons_eq_ite]

/-- The tokens that the mock reports. -/
def WireRequest.mockTokens (req : WireRequest) : Json :=
  match req.options with
  | .present o => (o.maxTokens.json? u32Json).getD (.num (.ofNat 0))
  | _ => .num (.ofNat 0)

/-- The payload of a request. -/
def WireRequest.payload (req : WireRequest) : PyValue := .dict (toDict (membersToPython req.members))

theorem zero_toPython : (Json.num (.ofNat 0)).toPython = .int 0 := by
  rw [Json.toPython, toPython_ofNat]
  rfl

variable (py : Python)

/-- `options or {}` covers missing and empty options and `null`, and `get` a missing field. -/
theorem get_maxTokens (req : WireRequest) (options : PyValue)
    (hoptions : options = ((req.options.json? fun o => .obj o.members).map Json.toPython).getD .none) :
    (if options.truthy py then options else .dict []).get "max_tokens" (.int 0) =
      .ok req.mockTokens.toPython := by
  rw [WireRequest.mockTokens]
  cases hreq : req.options with
  | absent | null =>
    rw [hreq] at hoptions
    rw [hoptions, zero_toPython]
    rfl
  | present o =>
    rw [hreq, Presence.json?, Option.map_some, Option.getD_some, Json.toPython] at hoptions
    rw [hoptions, get_or_empty, lookup_members, lookup_maxTokens]
    dsimp only
    rw [← zero_toPython, Option.getD_map]

theorem mockResponse_payload (req : WireRequest) :
    mockResponse py req.payload = .ok (.dict
      [("request_id", .str ("mock-" ++ req.model)),
        ("model", .str req.model),
        ("output", .str ("mocked GPU output for: " ++ req.input)),
        ("usage", .dict [("latency_ms", .int 10), ("tokens", req.mockTokens.toPython)]),
        ("status", .str "ok")]) := by
  have hinput : req.payload.get "input" (.str "") = .ok (.str req.input) := by
    rw [WireRequest.payload, get_dict, lookup_members, lookup_input, Option.map_some, Option.getD_some,
      Json.toPython]
  have hmodel : req.payload.get "model" (.str "unknown") = .ok (.str req.model) := by
    rw [WireRequest.payload, get_dict, lookup_members, lookup_model, Option.map_some, Option.getD_some,
      Json.toPython]
  have hoptions : req.payload.get "options" .none =
      .ok (((req.options.json? fun o => .obj o.members).map Json.toPython).getD .none) := by
    rw [WireRequest.payload, get_dict, lookup_members, lookup_options]
  have htokens := get_maxTokens py req _ rfl
  rw [mockResponse, hinput, hmodel, hoptions]
  simp only [bind, Except.bind]
  rw [htokens]
  rfl

/-! ## What the gateway gets -/

/-- The reply as JSON. -/
def WireRequest.mockReply (req : WireRequest) : Json :=
  .obj
    [("request_id", .str ("mock-" ++ req.model)),
      ("model", .str req.model),
      ("output", .str ("mocked GPU output for: " ++ req.input)),
      ("usage", .obj [("latency_ms", .num (.ofNat 10)), ("tokens", req.mockTokens)]),
      ("status", .str "ok")]

/-- The tokens are a `u32`, unless `max_tokens` is `null`. -/
theorem mockTokens_eq (req : WireRequest) :
    (∃ n : UInt32, req.mockTokens = .num (.ofNat n.toNat) ∧
        ∀ o, req.options = .present o → o.maxTokens ≠ .null) ∨
      req.mockTokens = .null ∧ ∃ o, req.options = .present o ∧ o.maxTokens = .null := by
  cases hreq : req.options with
  | absent | null =>
    refine .inl ⟨0, by rw [WireRequest.mockTokens, hreq]; rfl, fun _ h => ?_⟩
    cases h
  | present o =>
    have hmock : req.mockTokens = (o.maxTokens.json? u32Json).getD (.num (.ofNat 0)) := by
      rw [WireRequest.mockTokens, hreq]
    rw [hmock]
    cases htokens : o.maxTokens with
    | absent =>
      refine .inl ⟨0, rfl, fun _ h => ?_⟩
      cases h
      rw [htokens]
      intro hnull
      cases hnull
    | null => exact .inr ⟨rfl, o, rfl, htokens⟩
    | present n =>
      refine .inl ⟨n, rfl, fun _ h => ?_⟩
      cases h
      rw [htokens]
      intro hnull
      cases hnull

theorem dumps_mockTokens (req : WireRequest) :
    dumps py req.mockTokens.toPython = req.mockTokens.spaced [' '] := by
  rcases mockTokens_eq req with ⟨n, htokens, -⟩ | ⟨htokens, -⟩
  · rw [htokens, Json.toPython, toPython_ofNat, dumps_int, Json.spaced]
  · rw [htokens, Json.toPython, dumps, Json.spaced]

/-- The mock loads the body of the request. -/
theorem doPost_eq (req : WireRequest) :
    doPost py (inferPost req.body) =
      if membersConvert req.members then
        match mockResponse py req.payload with
        | .error e => .raised e
        | .ok response =>
          .answered
            { status := 200
              headers := [("Content-Type", "application/json"),
                ("Content-Length", toString (utf8 (dumps py response)).length)]
              body := utf8 (dumps py response) }
      else .raised .valueError := by
  have hlength : pyInt ((inferPost req.body).contentLength.getD ['0']) = some (req.body.length : ℤ) :=
    pyInt_toDigits _
  have hread : (inferPost req.body).read req.body.length = req.body := by
    rw [PostRequest.read, if_neg (not_lt.mpr (Int.natCast_nonneg _)), Int.toNat_natCast]
    exact List.take_length
  have hloads : loads py req.body =
      if membersConvert req.members then .ok req.payload else .error .valueError := loads_object py _ _
  have hpath : ¬(inferPost req.body).path ≠ "/infer" := not_not.mpr rfl
  rw [doPost, if_neg hpath, hlength]
  dsimp only
  rw [hread, hloads]
  by_cases h : membersConvert req.members = true
  · rw [if_pos h, if_pos h]
  · rw [if_neg h, if_neg h]

/-- The mock answers a request of the gateway with the text of its reply. -/
theorem doPost_body {req : WireRequest} (h : req.Converts) :
    doPost py (inferPost req.body) = .answered
      { status := 200
        headers := [("Content-Type", "application/json"),
          ("Content-Length", toString (utf8 (req.mockReply.spaced [' '])).length)]
        body := utf8 (req.mockReply.spaced [' ']) } := by
  have hdumps : dumps py (.dict
      [("request_id", .str ("mock-" ++ req.model)),
        ("model", .str req.model),
        ("output", .str ("mocked GPU output for: " ++ req.input)),
        ("usage", .dict [("latency_ms", .int 10), ("tokens", req.mockTokens.toPython)]),
        ("status", .str "ok")]) = req.mockReply.spaced [' '] := by
    simp only [dumps, dumpsMembers, dumps_mockTokens, WireRequest.mockReply, Json.spaced, spacedMembers]
    rfl
  rw [doPost_eq, if_pos ((membersConvert_iff req).mpr h), mockResponse_payload]
  dsimp only
  rw [hdumps]

/-- The gateway decodes the reply exactly if it decodes the tokens. -/
theorem decodeResponse_mockReply (req : WireRequest) :
    decodeResponse req.mockReply = (decodeU32 req.mockTokens).map fun tokens =>
      { requestId := "mock-" ++ req.model
        model := req.model
        output := "mocked GPU output for: " ++ req.input
        usage := { latencyMs := 10, tokens }
        status := "ok" } := by
  have hlatency : decodeU128 (.num (.ofNat 10)) = some 10 := decodeU128_ofNat (by decide)
  rw [WireRequest.mockReply]
  cases htokens : decodeU32 req.mockTokens <;>
    simp [decodeResponse, responseOfFields, decodeUsage, usageOfFields, field, decodeString, hlatency,
      htokens]

theorem decode_mockReply (req : WireRequest) :
    (∃ resp, decodeInferResponse (utf8 (req.mockReply.spaced [' '])) = some resp) ↔
      ∀ o, req.options = .present o → o.maxTokens ≠ .null := by
  have hparse : Json.parse (req.mockReply.spaced [' ']) = some req.mockReply :=
    parse_spaced (by simp [isToken]) _
  rw [decodeInferResponse, fromUtf8_utf8]
  simp only [hparse, Option.bind_eq_bind, Option.bind_some]
  rw [decodeResponse_mockReply]
  rcases mockTokens_eq req with ⟨n, htokens, hsome⟩ | ⟨htokens, o, hoptions, hnull⟩
  · rw [htokens, decodeU32_ofNat n.toNat_lt]
    exact ⟨fun _ => hsome, fun _ => ⟨_, rfl⟩⟩
  · rw [htokens]
    constructor
    · rintro ⟨_, h⟩
      cases h
    · exact fun h => absurd hnull (h o hoptions)

theorem honours_body_iff (req : WireRequest) :
    Honours py req.body ↔ req.Converts ∧ ∀ o, req.options = .present o → o.maxTokens ≠ .null := by
  rw [← decode_mockReply, Honours]
  constructor
  · rintro ⟨reply, resp, hreply, -, hresp⟩
    have hconverts : req.Converts := by
      by_contra h
      rw [doPost_eq, if_neg (mt (membersConvert_iff req).mp h)] at hreply
      cases hreply
    rw [doPost_body py hconverts] at hreply
    cases hreply
    exact ⟨hconverts, resp, hresp⟩
  · rintro ⟨hconverts, resp, hresp⟩
    exact ⟨_, resp, doPost_body py hconverts, rfl, hresp⟩

theorem ofOption_eq_null_iff {x : Option α} : Presence.ofOption x = .null ↔ x = none := by
  cases x <;> simp [Presence.ofOption]

/-- The mock honours the contract exactly for the requests that do not say `null` for `max_tokens`, and have
no number that is too long for Python: among those of the gateway, if its printer writes short numbers, the
ones without options and the ones that limit the tokens. -/
theorem mock_honours_iff :
    (∀ req : WireRequest,
      Honours py req.body ↔ req.Converts ∧ ∀ o, req.options = .present o → o.maxTokens ≠ .null) ∧
    ∀ printer req,
      Honours py (inferRequestBody printer req) ↔
        (WireRequest.ofRequest printer req).Converts ∧ ∀ o, req.options = some o → o.maxTokens ≠ none := by
  refine ⟨honours_body_iff py, fun printer req => ?_⟩
  rw [inferRequestBody_eq_body, honours_body_iff]
  refine and_congr_right fun _ => ?_
  rw [WireRequest.ofRequest]
  cases req.options with
  | none =>
    constructor <;>
    · intro _ o h
      cases h
  | some p =>
    rw [Option.map_some, Presence.ofOption]
    constructor
    · intro h o ho
      cases ho
      exact fun hnone => h _ rfl (ofOption_eq_null_iff.mpr hnone)
    · intro h o ho
      cases ho
      exact fun hnull => h p rfl (ofOption_eq_null_iff.mp hnull)

/-! ### A request without a limit -/

/-- A library that the request below asks for nothing. -/
def plainPython : Python where
  floatRepr literal := literal.text
  floatIsZero _ := false
  formatOther _ := ""
  decodeError _ := "Expecting value: line 1 column 1 (char 0)"
  decodeWide _ _ := none

/-- A temperature, and no limit on the tokens. -/
def unlimitedRequest : InferRequest where
  model := "gpt"
  input := "hi"
  options := some { maxTokens := none, temperature := some ⟨0x3f000000⟩, topP := none }
  requestId := some "r"

/-- What the gateway sends for it. -/
def unlimitedBody : List UInt8 :=
  bytes ("\x7b\"model\":\"gpt\",\"input\":\"hi\",\"options\":\x7b\"max_tokens\":null," ++
    "\"temperature\":0.5,\"top_p\":null\x7d,\"request_id\":\"r\"\x7d")

/-- What the mock answers. -/
def unlimitedReply : List UInt8 :=
  bytes ("\x7b\"request_id\": \"mock-gpt\", \"model\": \"gpt\", " ++
    "\"output\": \"mocked GPU output for: hi\", " ++
    "\"usage\": \x7b\"latency_ms\": 10, \"tokens\": null\x7d, \"status\": \"ok\"\x7d")

/-- The gateway does not decode the answer to what it sends. -/
theorem unlimited_not_honoured :
    inferRequestBody halfPrinter unlimitedRequest = unlimitedBody ∧
    (∃ headers, doPost plainPython (inferPost unlimitedBody) =
      .answered { status := 200, headers, body := unlimitedReply }) ∧
    ¬Honours plainPython unlimitedBody := by
  have hsent : inferRequestBody halfPrinter unlimitedRequest = unlimitedBody := by decide +kernel
  have hbody := inferRequestBody_eq_body halfPrinter unlimitedRequest
  have hreply : utf8 ((WireRequest.ofRequest halfPrinter unlimitedRequest).mockReply.spaced [' ']) =
      unlimitedReply := by
    decide +kernel
  have hconverts : (WireRequest.ofRequest halfPrinter unlimitedRequest).Converts :=
    (membersConvert_iff _).mp (by decide +kernel)
  rw [← hsent]
  refine ⟨rfl, ?_, ?_⟩
  · rw [hbody, doPost_body _ hconverts, hreply]
    exact ⟨_, rfl⟩
  · rw [hbody, honours_body_iff]
    exact fun h => h.2 _ rfl rfl

end InferenceGateway.Wire
