import InferenceGateway.Wire.Scan

/-! # What the core parses from the gateway's requests

Each field that the core parses is computed from one field of the request. So no string of a request can
change what is parsed from another one. The strings themselves are not decoded: the core takes their
escaped text up to the first quote in it.
-/

namespace InferenceGateway.Wire

open Common InferenceGateway.Core Gateway

/-! ## The parsed fields -/

/-- A string as the core parses it: its raw text, or a default for the empty string. -/
def parsedText (fallback s : String) : StdString := if s = "" then bytes fallback else utf8 (rawText s)

/-- `max_tokens` as the core parses it. -/
def parsedMaxTokens : Option UInt32 → Throws ℤ
  | none => .ok 32
  | some n =>
    if n.toNat < 2 ^ 31 then .ok (if n = 0 then 32 else n.toNat) else .error (.outOfRange "stoi")

/-- A float as the core parses it: what `stof` makes of its numeral if that is positive. -/
def parsedFloat (lib : StdFloat) (fallback : F32) : Option Numeral → Throws F32
  | none => .ok fallback
  | some numeral =>
    (lib.stof (utf8 numeral.text)).map fun x => if x.leZero then fallback else x

/-- The request as the core parses it, field by field. -/
def parsedRequest (lib : StdFloat) (printer : F32Printer) (req : InferRequest) :
    Throws InferenceRequest := do
  let maxTokens ← parsedMaxTokens (requestedMaxTokens req)
  let temperature ← parsedFloat lib defaultTemperature (f32Numeral printer (requestedTemperature req))
  let topP ← parsedFloat lib defaultTopP (f32Numeral printer (requestedTopP req))
  return {
    model := parsedText "llama-7b" req.model
    input := parsedText "hello world" req.input
    maxTokens
    temperature
    topP }

/-! ## The parser computes them -/

/-- The request as the core parses it from a body of which its scanners read the two texts, the integer and
the numerals, each of them possibly missing, and no nested string. -/
def scannedRequest (lib : StdFloat) (model input : List Char) (maxTokens : Option UInt32)
    (temperature topP : Option Numeral) : Throws InferenceRequest := do
  let maxTokens ← parsedMaxTokens maxTokens
  let temperature ← parsedFloat lib defaultTemperature temperature
  let topP ← parsedFloat lib defaultTopP topP
  return {
    model := if model = [] then bytes "llama-7b" else utf8 model
    input := if input = [] then bytes "hello world" else utf8 input
    maxTokens
    temperature
    topP }

/-- The text of a numeral; none if there is no numeral. -/
def numeralText (numeral : Option Numeral) : List Char := (numeral.map Numeral.text).getD []

private theorem text_or_default (fallback s : String) :
    (if rawText s = [] then bytes fallback else utf8 (rawText s)) = parsedText fallback s := by
  simp only [parsedText, rawText_eq_nil_iff]

private theorem convertOr_maxTokens (n : Option UInt32) :
    (convertOr stoi 32 (utf8 (u32Text n))).map (fun n => if n ≤ 0 then 32 else n) =
      parsedMaxTokens n := by
  cases n with
  | none => rfl
  | some n =>
    have hne : utf8 (u32Text (some n)) ≠ [] := fun h =>
      (Numeral.ofNat n.toNat).text_ne_nil (utf8_eq_nil_iff.mp h)
    rw [convertOr, if_neg hne]
    -- Digits of a `u32` convert unless they exceed an `int`; zero falls back afterwards.
    refine (congrArg _ (stoi_toDigits n.toNat)).trans ?_
    rw [parsedMaxTokens]
    split
    · have hzero : n = 0 ↔ (n.toNat : ℤ) ≤ 0 := by
        rw [← UInt32.toNat_inj]
        exact ⟨fun h => by rw [h]; rfl, fun h => by have : (0 : UInt32).toNat = 0 := rfl; omega⟩
      simp only [Except.map, hzero]
    · rfl

private theorem convertOr_float (lib : StdFloat) (numeral : Option Numeral) (fallback : F32) :
    convertOr lib.stof fallback (utf8 (numeralText numeral)) =
      match numeral with
      | none => .ok fallback
      | some numeral => lib.stof (utf8 numeral.text) := by
  cases numeral with
  | none => rfl
  | some numeral =>
    have hne : utf8 numeral.text ≠ [] := fun h => numeral.text_ne_nil (utf8_eq_nil_iff.mp h)
    unfold convertOr
    exact if_neg hne

private theorem convertOr_parsedFloat (lib : StdFloat) (numeral : Option Numeral) (fallback : F32) :
    (convertOr lib.stof fallback (utf8 (numeralText numeral))).map
        (fun x => if x.leZero then fallback else x) =
      parsedFloat lib fallback numeral := by
  rw [convertOr_float]
  cases numeral with
  | none => simp [Except.map, parsedFloat]
  | some numeral => rfl

/-- The parser in terms of what its scanners read, if they read no nested string. -/
theorem parseRequestBody_of_scans (lib : StdFloat) {body : StdString} {model input : List Char}
    {maxTokens : Option UInt32} {temperature topP : Option Numeral}
    (hmodel : quotedAfter (stringKey (bytes "model")) body = utf8 model)
    (hinput : quotedAfter (stringKey (bytes "input")) body = utf8 input)
    (hmaxTokens : numeralAfter intChars (numberKey (bytes "max_tokens")) body =
      utf8 (u32Text maxTokens))
    (htemperature : numeralAfter floatChars (numberKey (bytes "temperature")) body =
      utf8 (numeralText temperature))
    (htopP : numeralAfter floatChars (numberKey (bytes "top_p")) body = utf8 (numeralText topP))
    (hnested : nestedValue body (bytes "max_tokens") = []) :
    parseRequestBody lib body = scannedRequest lib model input maxTokens temperature topP := by
  rw [parseRequestBody_eq, scannedRequest, ← convertOr_maxTokens, ← convertOr_parsedFloat lib,
    ← convertOr_parsedFloat lib]
  simp only [hmodel, hinput, hmaxTokens, htemperature, htopP, hnested, utf8_eq_nil_iff]
  cases convertOr stoi 32 (utf8 (u32Text maxTokens)) with
  | error e => rfl
  | ok n =>
    cases convertOr lib.stof defaultTemperature (utf8 (numeralText temperature)) with
    | error e => rfl
    | ok t =>
      cases convertOr lib.stof defaultTopP (utf8 (numeralText topP)) with
      | error e => rfl
      | ok p => rfl

theorem parsedRequest_eq (lib : StdFloat) (printer : F32Printer) (req : InferRequest) :
    parsedRequest lib printer req =
      scannedRequest lib (rawText req.model) (rawText req.input) (requestedMaxTokens req)
        (f32Numeral printer (requestedTemperature req)) (f32Numeral printer (requestedTopP req)) := by
  rw [parsedRequest, scannedRequest, text_or_default, text_or_default]

/-- The parser on a request of the gateway: every field on its own. -/
theorem parseRequestBody_inferRequestBody (lib : StdFloat) (printer : F32Printer) (req : InferRequest) :
    parseRequestBody lib (inferRequestBody printer req) = parsedRequest lib printer req := by
  rw [parsedRequest_eq]
  exact parseRequestBody_of_scans lib (scan_model printer req) (scan_input printer req)
    (scan_maxTokens printer req) (scan_temperature printer req) (scan_topP printer req)
    (scan_nested printer req)

/-- A float of the request as `find_json_float_value` returns it. -/
theorem findJsonFloatValue_of_scan {lib : StdFloat} {printer : F32Printer} {req : InferRequest}
    {key : String} {x : Option F32}
    (hscan : numeralAfter floatChars (numberKey (bytes key)) (inferRequestBody printer req) =
      utf8 (f32Text printer x)) (fallback : F32) :
    findJsonFloatValue lib (inferRequestBody printer req) (bytes key) fallback =
      match f32Numeral printer x with
      | none => .ok fallback
      | some numeral => lib.stof (utf8 numeral.text) := by
  rw [findJsonFloatValue, findJsonNumber_eq, hscan]
  exact convertOr_float lib (f32Numeral printer x) fallback

/-- What is known of the result when the parser returns. -/
theorem scannedRequest_eq_ok {lib : StdFloat} {model input : List Char} {maxTokens : Option UInt32}
    {temperature topP : Option Numeral} {parsed : InferenceRequest} :
    scannedRequest lib model input maxTokens temperature topP = .ok parsed ↔
      parsedMaxTokens maxTokens = .ok parsed.maxTokens ∧
      parsedFloat lib defaultTemperature temperature = .ok parsed.temperature ∧
      parsedFloat lib defaultTopP topP = .ok parsed.topP ∧
      parsed.model = (if model = [] then bytes "llama-7b" else utf8 model) ∧
      parsed.input = (if input = [] then bytes "hello world" else utf8 input) := by
  unfold scannedRequest
  constructor
  · intro h
    obtain ⟨n, hn, h⟩ := bind_eq_ok.mp h
    obtain ⟨t, ht, h⟩ := bind_eq_ok.mp h
    obtain ⟨p, hp, h⟩ := bind_eq_ok.mp h
    cases h
    exact ⟨hn, ht, hp, rfl, rfl⟩
  · rintro ⟨hn, ht, hp, hmodel, hinput⟩
    refine bind_eq_ok.mpr ⟨_, hn, bind_eq_ok.mpr ⟨_, ht, bind_eq_ok.mpr ⟨_, hp, ?_⟩⟩⟩
    rw [← hmodel, ← hinput]
    rfl

theorem parsedRequest_eq_ok {lib : StdFloat} {printer : F32Printer} {req : InferRequest}
    {parsed : InferenceRequest} :
    parsedRequest lib printer req = .ok parsed ↔
      parsedMaxTokens (requestedMaxTokens req) = .ok parsed.maxTokens ∧
      parsedFloat lib defaultTemperature (f32Numeral printer (requestedTemperature req)) =
        .ok parsed.temperature ∧
      parsedFloat lib defaultTopP (f32Numeral printer (requestedTopP req)) = .ok parsed.topP ∧
      parsed.model = parsedText "llama-7b" req.model ∧
      parsed.input = parsedText "hello world" req.input := by
  rw [parsedRequest_eq, scannedRequest_eq_ok, text_or_default, text_or_default]

/-- Whatever the strings of a request contain: `max_tokens` is parsed as requested or as 32, the text
that reaches `stof` is the numeral that was serialized and the fallback is used exactly if there is none,
and every parsed field is a function of the one field of the request that it stands for. -/
theorem scanner_injection_resistant (lib : StdFloat) (printer : F32Printer) (req : InferRequest) :
    (∀ parsed, parseRequestBody lib (inferRequestBody printer req) = .ok parsed →
      (∀ n, requestedMaxTokens req = some n → 1 ≤ n.toNat → n.toNat < 2 ^ 31 →
        parsed.maxTokens = n.toNat) ∧
      (requestedMaxTokens req = none ∨ requestedMaxTokens req = some 0 → parsed.maxTokens = 32) ∧
      parsed.model = parsedText "llama-7b" req.model ∧
      parsed.input = parsedText "hello world" req.input) ∧
    (∀ fallback,
      findJsonFloatValue lib (inferRequestBody printer req) (bytes "temperature") fallback =
        match f32Numeral printer (requestedTemperature req) with
        | none => .ok fallback
        | some numeral => lib.stof (utf8 numeral.text)) ∧
    (∀ fallback,
      findJsonFloatValue lib (inferRequestBody printer req) (bytes "top_p") fallback =
        match f32Numeral printer (requestedTopP req) with
        | none => .ok fallback
        | some numeral => lib.stof (utf8 numeral.text)) ∧
    parseRequestBody lib (inferRequestBody printer req) = parsedRequest lib printer req := by
  have hparse := parseRequestBody_inferRequestBody lib printer req
  refine ⟨fun parsed h => ?_, findJsonFloatValue_of_scan (scan_temperature printer req),
    findJsonFloatValue_of_scan (scan_topP printer req), hparse⟩
  obtain ⟨hn, -, -, hmodel, hinput⟩ := parsedRequest_eq_ok.mp (hparse ▸ h)
  refine ⟨fun n hreq hpos hlt => ?_, fun hreq => ?_, hmodel, hinput⟩
  · have hzero : n ≠ 0 := fun h => by rw [h] at hpos; cases hpos
    rw [hreq, parsedMaxTokens, if_pos hlt, if_neg hzero] at hn
    exact (Except.ok.inj hn).symm
  · rcases hreq with hreq | hreq <;>
      · rw [hreq] at hn
        exact (Except.ok.inj hn).symm

theorem parsedMaxTokens_returns_iff {n : Option UInt32} :
    (∃ m, parsedMaxTokens n = .ok m) ↔ ∀ k ∈ n, k.toNat < 2 ^ 31 := by
  cases n with
  | none => exact ⟨fun _ => nofun, fun _ => ⟨32, rfl⟩⟩
  | some n =>
    rw [parsedMaxTokens]
    split
    · refine ⟨fun _ k hk => ?_, fun _ => ⟨_, rfl⟩⟩
      rw [← Option.mem_some_iff.mp hk]
      assumption
    · exact ⟨fun ⟨_, h⟩ => (nomatch h), fun h => absurd (h n rfl) ‹_›⟩

theorem parsedFloat_returns_iff {lib : StdFloat} (fallback : F32) {numeral : Option Numeral} :
    (∃ x, parsedFloat lib fallback numeral = .ok x) ↔
      ∀ k ∈ numeral, ∃ x, lib.stof (utf8 k.text) = .ok x := by
  cases numeral with
  | none => exact ⟨fun _ => nofun, fun _ => ⟨fallback, rfl⟩⟩
  | some numeral =>
    unfold parsedFloat
    simp only [Option.mem_some_iff, forall_eq']
    cases lib.stof (utf8 numeral.text) with
    | error e => exact ⟨fun ⟨_, h⟩ => (nomatch h), fun ⟨_, h⟩ => (nomatch h)⟩
    | ok x => exact ⟨fun _ => ⟨x, rfl⟩, fun _ => ⟨_, rfl⟩⟩

/-- The parser returns on a request of the gateway exactly if `max_tokens` fits an `int` and `stof`
accepts the numerals. -/
theorem parse_returns_iff {lib : StdFloat} {printer : F32Printer} {req : InferRequest} :
    (∃ parsed, parseRequestBody lib (inferRequestBody printer req) = .ok parsed) ↔
      (∀ n ∈ requestedMaxTokens req, n.toNat < 2 ^ 31) ∧
      (∀ numeral ∈ f32Numeral printer (requestedTemperature req),
        ∃ x, lib.stof (utf8 numeral.text) = .ok x) ∧
      (∀ numeral ∈ f32Numeral printer (requestedTopP req),
        ∃ x, lib.stof (utf8 numeral.text) = .ok x) := by
  rw [parseRequestBody_inferRequestBody, ← parsedMaxTokens_returns_iff,
    ← parsedFloat_returns_iff defaultTemperature,
    ← parsedFloat_returns_iff defaultTopP]
  constructor
  · rintro ⟨parsed, h⟩
    obtain ⟨hn, ht, hp, -⟩ := parsedRequest_eq_ok.mp h
    exact ⟨⟨_, hn⟩, ⟨_, ht⟩, ⟨_, hp⟩⟩
  · rintro ⟨⟨n, hn⟩, ⟨t, ht⟩, ⟨p, hp⟩⟩
    exact ⟨⟨_, _, n, t, p⟩, parsedRequest_eq_ok.mpr ⟨hn, ht, hp, rfl, rfl⟩⟩

/-- When the parser returns, it returns the strings of the request exactly if no character of theirs is
escaped in JSON. -/
theorem strings_survive_iff (lib : StdFloat) (printer : F32Printer) (req : InferRequest)
    (hmodel : req.model ≠ "") (hinput : req.input ≠ "")
    (hmax : ∀ n ∈ requestedMaxTokens req, 1 ≤ n.toNat ∧ n.toNat < 2 ^ 31) :
    ((∃ parsed, parseRequestBody lib (inferRequestBody printer req) = .ok parsed) ↔
      (∀ numeral ∈ f32Numeral printer (requestedTemperature req),
        ∃ x, lib.stof (utf8 numeral.text) = .ok x) ∧
      (∀ numeral ∈ f32Numeral printer (requestedTopP req),
        ∃ x, lib.stof (utf8 numeral.text) = .ok x)) ∧
    ∀ parsed, parseRequestBody lib (inferRequestBody printer req) = .ok parsed →
      (parsed.model = bytes req.model ↔ IsPlain req.model.toList) ∧
      (parsed.input = bytes req.input ↔ IsPlain req.input.toList) := by
  have hsurvive (fallback : String) {s : String} (hs : s ≠ "") :
      parsedText fallback s = bytes s ↔ IsPlain s.toList := by
    rw [parsedText, if_neg hs, bytes, utf8_injective.eq_iff, rawText_eq_iff]
  refine ⟨parse_returns_iff.trans ?_, fun parsed h => ?_⟩
  · exact ⟨fun h => h.2, fun h => ⟨fun n hn => (hmax n hn).2, h⟩⟩
  · rw [parseRequestBody_inferRequestBody] at h
    obtain ⟨-, -, -, hm, hi⟩ := parsedRequest_eq_ok.mp h
    rw [hm, hi]
    exact ⟨hsurvive _ hmodel, hsurvive _ hinput⟩

/-! ### Concrete requests -/

/-- A numeric library that knows the numbers of the requests below. -/
def halfFloat : StdFloat where
  stof s := if s = bytes "0.5" then .ok ⟨0x3f000000⟩ else .error (.invalidArgument "stof")
  print x :=
    if x = ⟨0x3f000000⟩ then bytes "0.5"
    else if x = defaultTemperature then bytes "0.8"
    else if x = defaultTopP then bytes "0.95"
    else []

/-- A printer for requests in which every float is one half. -/
def halfPrinter : F32Printer := fun _ => ⟨"0.5".toList, by decide, by decide⟩

/-- A prompt with quotes in it. -/
def quotingRequest : InferRequest where
  model := "llama-7b"
  input := "say \"hi\""
  options := some { maxTokens := some 64, temperature := some ⟨0x3f000000⟩, topP := none }
  requestId := none

/-- Of this request, the model survives and the prompt does not. -/
theorem strings_survive_quoting :
    ∃ parsed, parseRequestBody halfFloat (inferRequestBody halfPrinter quotingRequest) = .ok parsed ∧
      parsed.model = bytes "llama-7b" ∧ parsed.input ≠ bytes "say \"hi\"" := by
  obtain ⟨hreturns, hsurvive⟩ := strings_survive_iff halfFloat halfPrinter quotingRequest (by decide)
    (by decide) (fun n hn => by cases hn; decide)
  obtain ⟨parsed, hparsed⟩ := hreturns.mpr
    ⟨fun numeral hnumeral => by cases hnumeral; exact ⟨_, rfl⟩, nofun⟩
  obtain ⟨hmodel, hinput⟩ := hsurvive parsed hparsed
  exact ⟨parsed, hparsed, hmodel.mpr (by decide), fun h => absurd (hinput.mp h) (by decide)⟩

/-- The prompt `say "hi"` reaches the core as `say \`. -/
theorem quotes_cut_the_prompt :
    ∃ parsed, parseRequestBody halfFloat (inferRequestBody halfPrinter quotingRequest) = .ok parsed ∧
      parsed.input = bytes "say \\" ∧ parsed.input ≠ bytes quotingRequest.input :=
  ⟨{ model := bytes "llama-7b", input := bytes "say \\", maxTokens := 64, temperature := ⟨0x3f000000⟩ },
    by rw [parseRequestBody_inferRequestBody]; decide, by decide, by decide⟩

end InferenceGateway.Wire
