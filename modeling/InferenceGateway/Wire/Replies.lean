import InferenceGateway.Core.Infer
import InferenceGateway.Wire.Requests

/-! # What the gateway decodes from the core's replies

The core pastes the strings it parsed, still escaped, into its output, upper-cases them byte by byte and
escapes everything once or twice more. None of this needs to understand the text: a parsed string is
UTF-8 without control characters, every step keeps it so, and on such text the escaping of the core is the
escaping of JSON. So the reply is the compact text of a JSON value, and is decoded as that value.
-/

namespace InferenceGateway.Wire

open Common InferenceGateway.Core Gateway

/-! ## Text without control characters -/

/-- No control character occurs. -/
def Printable (cs : List Char) : Prop := ∀ c ∈ cs, 32 ≤ c.toNat

instance (cs : List Char) : Decidable (Printable cs) := List.decidableBAll _ cs

/-- The UTF-8 encoding of a text without control characters. -/
def IsText (s : StdString) : Prop := ∃ cs, Printable cs ∧ s = utf8 cs

theorem Printable.append {cs ds : List Char} (hcs : Printable cs) (hds : Printable ds) :
    Printable (cs ++ ds) :=
  fun c hc => (List.mem_append.mp hc).elim (hcs c) (hds c)

theorem IsText.append {s t : StdString} (hs : IsText s) (ht : IsText t) : IsText (s ++ t) := by
  obtain ⟨cs, hcs, rfl⟩ := hs
  obtain ⟨ds, hds, rfl⟩ := ht
  exact ⟨cs ++ ds, hcs.append hds, (utf8_append cs ds).symm⟩

theorem isText_bytes {s : String} (h : Printable s.toList) : IsText (bytes s) := ⟨_, h, rfl⟩

/-- Escaping leaves no control character. -/
theorem printable_escape (cs : List Char) : Printable (escape cs) := by
  intro d hd
  rw [escape, List.mem_flatMap] at hd
  obtain ⟨c, -, hd⟩ := hd
  rcases Nat.lt_or_ge c.toNat 128 with hc | hc
  · exact forall_of_toNat_lt (fun c => Printable (escapeChar c)) (by decide) hc d hd
  · rw [escapeChar_of_le hc, List.mem_singleton] at hd
    rw [hd]
    omega

/-! ## The core's escaping -/

/-- `json_escape` on one character. -/
def coreEscapeChar (c : Char) : List Char :=
  if c = '\\' then ['\\', '\\']
  else if c = '"' then ['\\', '"']
  else if c = '\n' then ['\\', 'n']
  else if c = '\r' then ['\\', 'r']
  else if c = '\t' then ['\\', 't']
  else [c]

theorem coreEscapeChar_of_le {c : Char} (h : 128 ≤ c.toNat) : coreEscapeChar c = [c] := by
  have hne (d : Char) (hd : d.toNat < 128) : c ≠ d := fun heq => by rw [heq] at h; omega
  rw [coreEscapeChar, if_neg (hne _ (by decide)), if_neg (hne _ (by decide)), if_neg (hne _ (by decide)),
    if_neg (hne _ (by decide)), if_neg (hne _ (by decide))]

/-- The two escapings differ on control characters only. -/
theorem coreEscapeChar_eq {c : Char} (h : 32 ≤ c.toNat) : coreEscapeChar c = escapeChar c := by
  rcases Nat.lt_or_ge c.toNat 128 with hc | hc
  · exact forall_of_toNat_lt (fun c => 32 ≤ c.toNat → coreEscapeChar c = escapeChar c) (by decide)
      hc h
  · rw [coreEscapeChar_of_le hc, escapeChar_of_le hc]

private theorem ne_asciiByte {b : UInt8} (h : 128 ≤ b.toNat) {c : Char} (hc : c.toNat < 128) :
    b ≠ asciiByte c := fun heq => by
  rw [heq, toNat_asciiByte hc] at h
  omega

theorem jsonEscape_utf8 (cs : List Char) : jsonEscape (utf8 cs) = utf8 (cs.flatMap coreEscapeChar) := by
  refine flatMap_utf8 (fun c hc => ?_) (fun b hb => ?_) (fun c hc => coreEscapeChar_of_le hc) cs
  · exact forall_of_toNat_lt (fun c => jsonEscapeByte (asciiByte c) = utf8 (coreEscapeChar c))
      (by decide) hc
  · rw [jsonEscapeByte, quote, if_neg (ne_asciiByte hb (by decide)), if_neg (ne_asciiByte hb (by decide)),
      if_neg (ne_asciiByte hb (by decide)), if_neg (ne_asciiByte hb (by decide)),
      if_neg (ne_asciiByte hb (by decide))]

/-- On text without control characters, the core escapes as JSON does. -/
theorem jsonEscape_of_printable {cs : List Char} (h : Printable cs) :
    jsonEscape (utf8 cs) = utf8 (escape cs) := by
  rw [jsonEscape_utf8, escape, List.flatMap_congr fun c hc => coreEscapeChar_eq (h c hc)]

theorem IsText.jsonEscape {s : StdString} (h : IsText s) : IsText (jsonEscape s) := by
  obtain ⟨cs, hcs, rfl⟩ := h
  exact ⟨escape cs, printable_escape cs, jsonEscape_of_printable hcs⟩

/-! ## Upper-casing -/

theorem toUpper_of_le {c : Char} (h : 128 ≤ c.toNat) : c.toUpper = c := by
  rw [Char.toUpper, dif_neg]
  intro hlower
  exact absurd (h.trans (UInt32.le_iff_toNat_le.mp hlower.2)) (by decide)

theorem map_toupper_utf8 (cs : List Char) : (utf8 cs).map toupper = utf8 (cs.map Char.toUpper) := by
  have hflat : ((utf8 cs).flatMap fun b => [toupper b]) = utf8 (cs.flatMap fun c => [c.toUpper]) := by
    refine flatMap_utf8 (fun c hc => ?_) (fun b hb => ?_) (fun c hc => ?_) cs
    · exact forall_of_toNat_lt (fun c => [toupper (asciiByte c)] = utf8 [c.toUpper]) (by decide) hc
    · rw [toupper, if_neg]
      intro hlower
      exact absurd (hb.trans (UInt8.le_iff_toNat_le.mp hlower.2)) (by decide)
    · rw [toUpper_of_le hc]
  rwa [← List.map_eq_flatMap, ← List.map_eq_flatMap] at hflat

theorem IsText.toupper {s : StdString} (h : IsText s) : IsText (s.map toupper) := by
  obtain ⟨cs, hcs, rfl⟩ := h
  refine ⟨cs.map Char.toUpper, fun d hd => ?_, map_toupper_utf8 cs⟩
  obtain ⟨c, hc, rfl⟩ := List.mem_map.mp hd
  rcases Nat.lt_or_ge c.toNat 128 with hlt | hge
  · exact forall_of_toNat_lt (fun c => 32 ≤ c.toNat → 32 ≤ c.toUpper.toNat) (by decide) hlt
      (hcs c hc)
  · rw [toUpper_of_le hge]
    exact hcs c hc

/-! ## Numbers -/

theorem printable_toDigits (n : ℕ) : Printable (Nat.toDigits 10 n) := by
  intro c hc
  have := isDigit_toDigits n c hc
  simp only [Char.isDigit, Bool.and_eq_true, decide_eq_true_eq, ge_iff_le, UInt32.le_iff_toNat_le] at this
  exact le_trans (by decide) this.1

/-- A request id is written without escapes. -/
theorem makeRequestId_eq (nowMs : ℤ) : ∃ cs, makeRequestId nowMs = utf8 cs ∧ escape cs = cs := by
  have hdigits (n : ℕ) : IsPlain (Nat.toDigits 10 n) := fun c hc =>
    not_needsEscape_of_isIdentChar (by
      rw [isIdentChar, Char.isAlphanum, isDigit_toDigits n c hc, Bool.or_true, Bool.true_or])
  have hplain (sign : String) (hsign : IsPlain sign.toList) (n : ℕ) :
      escape ("cpp-".toList ++ (sign.toList ++ Nat.toDigits 10 n)) =
        "cpp-".toList ++ (sign.toList ++ Nat.toDigits 10 n) := by
    refine escape_eq_self_iff.mpr fun c hc => ?_
    rcases List.mem_append.mp hc with hc | hc
    · exact (by decide : IsPlain "cpp-".toList) c hc
    · exact (List.mem_append.mp hc).elim (hsign c) (hdigits n c)
  rw [makeRequestId, decimal]
  split
  · exact ⟨_, by rw [utf8_append, utf8_append]; rfl, hplain "-" (by decide) nowMs.natAbs⟩
  · exact ⟨_, by rw [utf8_append, utf8_append]; rfl, hplain "" (by decide) nowMs.natAbs⟩

theorem isText_decimal (n : ℤ) : IsText (decimal n) := by
  unfold decimal
  split
  · exact (isText_bytes (by decide)).append ⟨_, printable_toDigits _, rfl⟩
  · exact ⟨_, printable_toDigits _, rfl⟩

/-- ASCII without control characters. -/
def VisibleAscii (s : StdString) : Prop := ∀ b ∈ s, 32 ≤ b.toNat ∧ b.toNat < 128

instance (s : StdString) : Decidable (VisibleAscii s) := List.decidableBAll _ s

theorem VisibleAscii.isText {s : StdString} (h : VisibleAscii s) : IsText s := by
  have htoNat : ∀ n < 128, (Char.ofNat n).toNat = n := by decide
  induction s with
  | nil => exact ⟨[], nofun, rfl⟩
  | cons b s ih =>
    obtain ⟨⟨hlow, hhigh⟩, hs⟩ := List.forall_mem_cons.mp h
    have hchar := htoNat b.toNat hhigh
    refine IsText.append (s := [b]) ⟨[Char.ofNat b.toNat], ?_, ?_⟩ (ih hs)
    · intro c hc
      rw [List.mem_singleton.mp hc, hchar]
      exact hlow
    · rw [utf8_cons_of_lt (by rw [hchar]; exact hhigh), asciiByte, hchar, UInt8.ofNat_toNat, utf8_nil]

/-- What `operator<<` prints for a float is visible ASCII. -/
def PrintsAscii (lib : StdFloat) : Prop := ∀ x, VisibleAscii (lib.print x)

/-! ## The reply -/

/-- The strings that the parser returns are text. -/
theorem isText_parsedText {fallback : String} (h : Printable fallback.toList) (s : String) :
    IsText (parsedText fallback s) := by
  unfold parsedText
  split
  · exact isText_bytes h
  · exact ⟨_, fun c hc => printable_escape _ c ((List.takeWhile_prefix _).subset hc), rfl⟩

theorem isText_runCpuInference {lib : StdFloat} (hprint : PrintsAscii lib) {request : InferenceRequest}
    (hmodel : IsText request.model) (hinput : IsText request.input) :
    IsText (runCpuInference lib request) := by
  have hliteral {s : String} (h : Printable s.toList) : IsText (bytes s) := isText_bytes h
  unfold runCpuInference
  -- The printed pieces, from the last one back to the first.
  refine .append (.append ?_ ?_) hinput.toupper.jsonEscape
  · refine .append (.append ?_ (hliteral (by decide))) (hprint _).isText
    refine .append (.append ?_ (hliteral (by decide))) (hprint _).isText
    refine .append (.append ?_ (hliteral (by decide))) (isText_decimal _)
    refine .append (.append ?_ (hliteral (by decide))) hinput.jsonEscape
    exact (hliteral (by decide)).append hmodel
  · exact hliteral (by decide)

/-- A reply of the core as a JSON value. -/
def replyJson (requestId model output : String) (tokens : ℕ) : Json :=
  .obj
    [("request_id", .str requestId),
     ("model", .str model),
     ("output", .str output),
     ("usage", .obj [("latency_ms", .num (Numeral.ofNat 5)), ("tokens", .num (Numeral.ofNat tokens))]),
     ("status", .str "ok")]

/-- The members of a reply, whatever integer its `max_tokens` is. -/
def replyMembers (requestId model output : String) (tokens : ℤ) : List (String × Json) :=
  [("request_id", .str requestId),
   ("model", .str model),
   ("output", .str output),
   ("usage", .obj [("latency_ms", .num (Numeral.ofInt 5)), ("tokens", .num (Numeral.ofInt tokens))]),
   ("status", .str "ok")]

theorem replyJson_eq (requestId model output : String) (tokens : ℕ) :
    replyJson requestId model output tokens = .obj (replyMembers requestId model output tokens) := rfl

theorem decimal_eq (n : ℤ) : decimal n = utf8 (Numeral.ofInt n).text := by
  unfold decimal Numeral.ofInt
  split
  · rw [bytes, ← utf8_append]
    rfl
  · rfl

/-- A reply of the core is the compact text of a JSON object. -/
theorem buildInferenceJson_members {lib : StdFloat} (nowMs : ℤ) {request : InferenceRequest}
    {model output : List Char} (hmodel : Printable model) (hrequest : request.model = utf8 model)
    (houtput : Printable output) (hrun : runCpuInference lib request = utf8 output) :
    ∃ requestId, buildInferenceJson lib nowMs request =
      utf8 (Json.obj (replyMembers requestId (String.ofList model) (String.ofList output)
        request.maxTokens)).compact := by
  obtain ⟨id, hid, hplain⟩ := makeRequestId_eq nowMs
  refine ⟨String.ofList id, ?_⟩
  rw [buildInferenceJson, hrun, hrequest, hid, jsonEscape_of_printable hmodel,
    jsonEscape_of_printable houtput, decimal_eq, decimal_eq]
  simp only [bytes, ← utf8_append]
  refine congrArg utf8 ?_
  have hid : quoted (String.ofList id) = '"' :: (id ++ ['"']) := by simp [quoted, hplain]
  have htext (cs : List Char) : quoted (String.ofList cs) = '"' :: (escape cs ++ ['"']) := by simp [quoted]
  simp only [replyMembers, Json.compact, compactMembers, hid, htext model, htext output,
    quoted_of_isIdent (by decide : IsIdent "request_id"), quoted_of_isIdent (by decide : IsIdent "model"),
    quoted_of_isIdent (by decide : IsIdent "output"), quoted_of_isIdent (by decide : IsIdent "usage"),
    quoted_of_isIdent (by decide : IsIdent "latency_ms"), quoted_of_isIdent (by decide : IsIdent "tokens"),
    quoted_of_isIdent (by decide : IsIdent "status"), quoted_of_isIdent (by decide : IsIdent "ok")]
  simp

theorem buildInferenceJson_eq {lib : StdFloat} (nowMs : ℤ) {request : InferenceRequest} {tokens : ℕ}
    (htokens : request.maxTokens = tokens) {model output : List Char} (hmodel : Printable model)
    (hrequest : request.model = utf8 model) (houtput : Printable output)
    (hrun : runCpuInference lib request = utf8 output) :
    ∃ requestId, buildInferenceJson lib nowMs request =
      utf8 (replyJson requestId (String.ofList model) (String.ofList output) tokens).compact := by
  obtain ⟨requestId, h⟩ := buildInferenceJson_members nowMs hmodel hrequest houtput hrun
  exact ⟨requestId, by rw [h, replyJson_eq, htokens]⟩

theorem decodeResponse_replyJson (requestId model output : String) {tokens : ℕ} (h : tokens < 2 ^ 32) :
    decodeResponse (replyJson requestId model output tokens) =
      some
        { requestId, model, output, status := "ok"
          usage := { latencyMs := 5, tokens := UInt32.ofNat tokens } } := by
  have husage : decodeUsage
      (.obj [("latency_ms", .num (Numeral.ofNat 5)), ("tokens", .num (Numeral.ofNat tokens))]) =
      some { latencyMs := 5, tokens := UInt32.ofNat tokens } := by
    simp [decodeUsage, field, usageOfFields, decodeU32_ofNat h, decodeU128_ofNat]
  simp [replyJson, decodeResponse, field, responseOfFields, decodeString, husage]

/-- The effective `max_tokens` is positive and fits an `int`. -/
theorem parsedMaxTokens_bounds {n : Option UInt32} {m : ℤ} (h : parsedMaxTokens n = .ok m) :
    1 ≤ m ∧ m < 2 ^ 31 := by
  cases n with
  | none =>
    have := Except.ok.inj h
    omega
  | some n =>
    rw [parsedMaxTokens] at h
    split at h
    · have hm := Except.ok.inj h
      by_cases hzero : n = 0
      · rw [if_pos hzero] at hm
        omega
      · rw [if_neg hzero] at hm
        have : n.toNat ≠ 0 := fun h => hzero (UInt32.toNat_inj.mp h)
        omega
    · cases h

/-- For every request whose `max_tokens` fits an `int` and whose numerals `stof` accepts, the core's reply
to the gateway's body is decoded: its status is `ok`, its model is the one the core parsed, and its tokens
are the effective `max_tokens`. -/
theorem reply_decodes (lib : StdFloat) (printer : F32Printer) (req : InferRequest) (nowMs : ℤ)
    (hprint : PrintsAscii lib) (hmax : ∀ n ∈ requestedMaxTokens req, n.toNat < 2 ^ 31)
    (htemperature : ∀ numeral ∈ f32Numeral printer (requestedTemperature req),
      ∃ x, lib.stof (utf8 numeral.text) = .ok x)
    (htopP : ∀ numeral ∈ f32Numeral printer (requestedTopP req),
      ∃ x, lib.stof (utf8 numeral.text) = .ok x) :
    ∃ parsed resp, parseRequestBody lib (inferRequestBody printer req) = .ok parsed ∧
      decodeInferResponse (buildInferenceJson lib nowMs parsed) = some resp ∧
      resp.status = "ok" ∧ bytes resp.model = parsed.model ∧
      (resp.usage.tokens.toNat : ℤ) = parsed.maxTokens ∧ 1 ≤ resp.usage.tokens.toNat ∧
      parsedMaxTokens (requestedMaxTokens req) = .ok parsed.maxTokens := by
  obtain ⟨parsed, hparsed⟩ := parse_returns_iff.mpr ⟨hmax, htemperature, htopP⟩
  have hfields := hparsed
  rw [parseRequestBody_inferRequestBody] at hfields
  obtain ⟨hn, -, -, hm, hi⟩ := parsedRequest_eq_ok.mp hfields
  have hmodel : IsText parsed.model := hm ▸ isText_parsedText (by decide) req.model
  have hinput : IsText parsed.input := hi ▸ isText_parsedText (by decide) req.input
  obtain ⟨output, houtput, hrun⟩ := isText_runCpuInference hprint hmodel hinput
  obtain ⟨model, hprintable, hmodel⟩ := hmodel
  obtain ⟨hpos, hlt⟩ := parsedMaxTokens_bounds hn
  obtain ⟨tokens, htokens⟩ := Int.eq_ofNat_of_zero_le (show 0 ≤ parsed.maxTokens by omega)
  obtain ⟨requestId, hreply⟩ :=
    buildInferenceJson_eq nowMs htokens hprintable hmodel houtput hrun
  have htokens32 : tokens < 2 ^ 32 := by omega
  have htoNat : (UInt32.ofNat tokens).toNat = tokens := UInt32.toNat_ofNat_of_lt' htokens32
  have hdecode := decodeResponse_replyJson requestId (String.ofList model) (String.ofList output)
    htokens32
  refine ⟨parsed, _, hparsed, by rw [hreply, decodeInferResponse_compact, hdecode], rfl, ?_, ?_, ?_, hn⟩
  · rw [hmodel, bytes, String.toList_ofList]
  · rw [htoNat, htokens]
  · rw [htoNat]
    omega

/-- What `operator<<` prints for the floats known to `halfFloat`. -/
theorem printsAscii_halfFloat : PrintsAscii halfFloat := by
  intro x
  simp only [halfFloat]
  split_ifs <;> decide

/-- The reply to the prompt with quotes. -/
theorem reply_decodes_quoting :
    ∃ parsed resp, parseRequestBody halfFloat (inferRequestBody halfPrinter quotingRequest) = .ok parsed ∧
      decodeInferResponse (buildInferenceJson halfFloat 1700000000000 parsed) = some resp ∧
      resp.status = "ok" ∧ bytes resp.model = parsed.model ∧
      (resp.usage.tokens.toNat : ℤ) = parsed.maxTokens ∧ 1 ≤ resp.usage.tokens.toNat ∧
      parsedMaxTokens (some 64) = .ok parsed.maxTokens := by
  refine reply_decodes halfFloat halfPrinter quotingRequest 1700000000000 printsAscii_halfFloat ?_ ?_ ?_
  · intro n hn
    cases hn
    decide
  · intro numeral hnumeral
    cases hnumeral
    exact ⟨_, rfl⟩
  · nofun

end InferenceGateway.Wire
