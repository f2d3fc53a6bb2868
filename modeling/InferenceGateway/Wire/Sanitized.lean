import InferenceGateway.Wire.Replies

/-! # Whether parameters stay sanitized

Reference: `parse_request_body`, `extract_value_from_nested_options` and `build_inference_json` in
`inference_core.cpp`.

`parse_request_body` replaces a `max_tokens`, a temperature and a `top_p` that are not positive by defaults,
and afterwards writes the nested `max_tokens` over the sanitized one. So everything stays sanitized exactly
if that text, if there is one, spells a positive number.
-/

namespace InferenceGateway.Wire

open Common InferenceGateway.Core Gateway

/-! ## What is sanitized -/

/-- The comparison `0.0f < x`. -/
def isPositive (x : F32) : Bool := !x.isNaN && !x.leZero

/-- The texts of a request are not empty, and its numbers are positive. -/
structure Sanitized (request : InferenceRequest) : Prop where
  model : request.model ≠ []
  input : request.input ≠ []
  maxTokens : 0 < request.maxTokens
  temperature : isPositive request.temperature = true
  topP : isPositive request.topP = true

/-- The `tokens` at the end of a reply are a number that the gateway decodes as a `u32`. -/
def TokensFit (reply : StdString) : Prop :=
  ∃ head literal tokens,
    reply = head ++ bytes "\"tokens\":" ++ utf8 (Numeral.text literal) ++ bytes "\x7d,\"status\":\"ok\"\x7d" ∧
      decodeU32 (.num literal) = some tokens

/-- `std::stof` makes no NaN of the characters that the parser passes to it. -/
def NeverNaN (lib : StdFloat) : Prop :=
  ∀ text, (∀ b ∈ text, b ∈ floatChars) → ∀ x, lib.stof text = .ok x → x.isNaN = false

/-- The text is the nested `max_tokens`: behind the next quote behind the first `"options"`, it stands between
the first `"max_tokens":"` and the next quote. -/
def Overrides (body text : StdString) : Prop :=
  ∃ rest candidate tail, after (bytes "\"options\"") body = some rest ∧ after [quote] rest = some candidate ∧
    after (stringKey (bytes "max_tokens")) candidate = some (text ++ quote :: tail) ∧ quote ∉ text

/-- A text that is read as an integer has no minus sign, and a digit that is not zero. -/
def SpellsPositive (text : StdString) : Prop :=
  (scanDecimal text).1 = false ∧ ∃ d ∈ (scanDecimal text).2, d ≠ asciiByte '0'

/-! ## Positive integers -/

/-- What `std::stoi` returns is positive exactly if the text spells a positive number. -/
theorem stoi_pos_iff {text : StdString} {n : ℤ} (h : stoi text = .ok n) : 0 < n ↔ SpellsPositive text := by
  rw [SpellsPositive, ← decimalValue_pos_iff fun d hd => isdigit_of_mem_scanDecimal hd, (stoi_value h).1]
  cases (scanDecimal text).1 with
  | false => simp
  | true =>
    rw [if_pos rfl]
    exact ⟨fun h => by omega, fun h => absurd h.1 (by decide)⟩

/-! ## The override -/

theorem nestedValue_eq_iff {body text : StdString} (hne : text ≠ []) :
    nestedValue body (bytes "max_tokens") = text ↔ Overrides body text := by
  unfold nestedValue Overrides
  cases hcand : optionsCandidate body with
  | none =>
    refine ⟨fun h => absurd h.symm hne, ?_⟩
    rintro ⟨rest, candidate, _, hrest, hquote, _⟩
    rw [optionsCandidate, hrest, Option.bind_some, hquote] at hcand
    cases hcand
  | some candidate =>
    obtain ⟨rest, hrest, hquote⟩ := Option.bind_eq_some_iff.mp hcand
    refine (quotedAfter_eq_iff hne).trans ?_
    constructor
    · rintro ⟨tail, h⟩
      exact ⟨rest, candidate, tail, hrest, hquote, h⟩
    · rintro ⟨_, _, tail, hrest', hquote', h⟩
      cases hrest.symm.trans hrest'
      cases hquote.symm.trans hquote'
      exact ⟨tail, h⟩

/-! ## The tokens of a reply -/

theorem buildInferenceJson_tokens (lib : StdFloat) (nowMs : ℤ) (request : InferenceRequest) :
    ∃ head, buildInferenceJson lib nowMs request =
      head ++ bytes "\"tokens\":" ++ utf8 (Numeral.ofInt request.maxTokens).text ++
        bytes "\x7d,\"status\":\"ok\"\x7d" := by
  have hcomma : bytes ",\"tokens\":" = bytes "," ++ bytes "\"tokens\":" := rfl
  have hend : bytes "\x7d,\"status\":\"ok\"\x7d" = bytes "\x7d," ++ (bytes "\"status\":\"ok\"" ++ bytes "\x7d") := rfl
  rw [buildInferenceJson, hcomma, hend, ← decimal_eq]
  simp only [← List.append_assoc]
  exact ⟨_, rfl⟩

theorem decodeU32_ofInt_iff {n : ℤ} :
    (∃ tokens, decodeU32 (.num (.ofInt n)) = some tokens) ↔ 0 ≤ n ∧ n < 2 ^ 32 := by
  rcases lt_or_ge n 0 with hneg | hnonneg
  · have hnone : (Numeral.ofInt n).toNat? = none := by
      have htext : (Numeral.ofInt n).text = '-' :: Nat.toDigits 10 n.natAbs := if_pos hneg
      rw [Numeral.toNat?, htext, List.all_cons, (by decide : '-'.isDigit = false)]
      rfl
    rw [decodeU32, decodeNat, hnone]
    constructor
    · rintro ⟨_, h⟩
      cases h
    · exact fun h => absurd h.1 (not_le.mpr hneg)
  · obtain ⟨k, rfl⟩ := Int.eq_ofNat_of_zero_le hnonneg
    rw [Numeral.ofInt_natCast]
    by_cases hlt : k < 2 ^ 32
    · rw [decodeU32_ofNat hlt]
      exact ⟨fun _ => ⟨hnonneg, by omega⟩, fun _ => ⟨_, rfl⟩⟩
    · rw [decodeU32, decodeNat, Numeral.toNat?_ofNat, Option.filter_some, if_neg (by simpa using hlt)]
      constructor
      · rintro ⟨_, h⟩
        cases h
      · omega

theorem colon_not_mem_numeral (literal : Numeral) : asciiByte ':' ∉ (utf8 literal.text).reverse := by
  rw [List.mem_reverse, asciiByte_mem_utf8 (by decide)]
  intro h
  cases List.all_eq_true.mp literal.chars _ h

/-- The tokens are a `u32` exactly if they are neither negative nor too large. -/
theorem tokensFit_iff (lib : StdFloat) (nowMs : ℤ) (request : InferenceRequest) :
    TokensFit (buildInferenceJson lib nowMs request) ↔
      0 ≤ request.maxTokens ∧ request.maxTokens < 2 ^ 32 := by
  obtain ⟨head, hreply⟩ := buildInferenceJson_tokens lib nowMs request
  rw [TokensFit, hreply, ← decodeU32_ofInt_iff]
  constructor
  · rintro ⟨head', literal, tokens, heq, hdecode⟩
    -- The text behind the last colon before the end of the reply is unique.
    have hkey : bytes "\"tokens\":" = bytes "\"tokens\"" ++ [asciiByte ':'] := rfl
    have hrev := congrArg List.reverse (List.append_cancel_right heq)
    rw [hkey] at hrev
    simp only [List.reverse_append, List.reverse_singleton, List.cons_append, List.nil_append] at hrev
    have htext := utf8_injective (List.reverse_injective
      (eq_of_append_cons_eq (colon_not_mem_numeral _) (colon_not_mem_numeral _) hrev))
    have hliteral : Numeral.ofInt request.maxTokens = literal := by
      rw [Numeral.mk.injEq]
      exact htext
    exact ⟨tokens, by rw [hliteral, hdecode]⟩
  · rintro ⟨tokens, hdecode⟩
    exact ⟨head, _, tokens, rfl, hdecode⟩

/-! ## When parameters stay sanitized -/

theorem convertOr_stoi_lt {fallback n : ℤ} (hfallback : fallback < 2 ^ 31) {text : StdString}
    (h : convertOr stoi fallback text = .ok n) : n < 2 ^ 31 := by
  rw [convertOr] at h
  split at h
  · rw [← Except.ok.inj h]
    exact hfallback
  · exact (stoi_value h).2

theorem mem_of_mem_numeralAfter {chars pattern json : StdString} {b : UInt8}
    (h : b ∈ numeralAfter chars pattern json) : b ∈ chars := by
  rw [numeralAfter] at h
  split at h
  · cases h
  · exact of_decide_eq_true (List.mem_takeWhile_imp (p := (· ∈ chars)) h)

/-- A float that is read from a body is positive once it is sanitized. -/
theorem isPositive_of_convertOr {lib : StdFloat} (hlib : NeverNaN lib) {fallback x : F32}
    (hfallback : isPositive fallback = true) {pattern json : StdString}
    (h : convertOr lib.stof fallback (numeralAfter floatChars pattern json) = .ok x) :
    isPositive (if x.leZero then fallback else x) = true := by
  split
  · exact hfallback
  · rename_i hpos
    rw [convertOr] at h
    split at h
    · rwa [← Except.ok.inj h]
    · rw [isPositive, hlib _ (fun b hb => mem_of_mem_numeralAfter hb) x h, Bool.eq_false_iff.mpr hpos]
      rfl

/-- What is known of a request that the parser returns: everything is sanitized but for the override of
`max_tokens`. -/
theorem parse_sanitized {lib : StdFloat} (hlib : NeverNaN lib) {body : StdString}
    {request : InferenceRequest} (h : parseRequestBody lib body = .ok request) :
    (Sanitized request ↔ 0 < request.maxTokens) ∧
      ∃ i : ℤ, 0 < i ∧ i < 2 ^ 31 ∧
        convertOr stoi i (nestedValue body (bytes "max_tokens")) = .ok request.maxTokens := by
  rw [parseRequestBody_eq] at h
  obtain ⟨i, hi, h⟩ := bind_eq_ok.mp h
  obtain ⟨t, ht, h⟩ := bind_eq_ok.mp h
  obtain ⟨p, hp, h⟩ := bind_eq_ok.mp h
  obtain ⟨m, hm, h⟩ := bind_eq_ok.mp h
  cases h
  have htext {text fallback : StdString} (hne : fallback ≠ []) :
      (if text = [] then fallback else text) ≠ [] := by
    split
    · exact hne
    · assumption
  have hlt := convertOr_stoi_lt (by decide) hi
  refine ⟨⟨Sanitized.maxTokens, fun hpos => ?_⟩, if i ≤ 0 then 32 else i, ?_, ?_, hm⟩
  · exact ⟨htext (by decide), htext (by decide), hpos, isPositive_of_convertOr hlib (by decide) ht,
      isPositive_of_convertOr hlib (by decide) hp⟩
  · split <;> omega
  · split <;> omega

/-- Whatever body the parser returns on: the parameters are sanitized, and the tokens of the reply a `u32`,
exactly if a nested `max_tokens` that overrides the sanitized one spells a positive number. -/
theorem sanitized_iff {lib : StdFloat} (hlib : NeverNaN lib) {body : StdString}
    {request : InferenceRequest} (h : parseRequestBody lib body = .ok request) :
    (Sanitized request ∧ ∀ nowMs, TokensFit (buildInferenceJson lib nowMs request)) ↔
      ∀ text, text ≠ [] → Overrides body text → SpellsPositive text := by
  obtain ⟨hsanitized, i, hpos, hlt, hnested⟩ := parse_sanitized hlib h
  have hfit (hpos : 0 < request.maxTokens) (nowMs : ℤ) :
      TokensFit (buildInferenceJson lib nowMs request) := by
    have := convertOr_stoi_lt hlt hnested
    exact (tokensFit_iff lib nowMs request).mpr ⟨hpos.le, by omega⟩
  rw [and_iff_left_of_imp fun hs => hfit (hsanitized.mp hs), hsanitized]
  constructor
  · intro hmax text hne hover
    rw [(nestedValue_eq_iff hne).mpr hover, convertOr, if_neg hne] at hnested
    exact (stoi_pos_iff hnested).mp hmax
  · intro hover
    rw [convertOr] at hnested
    split at hnested
    · rwa [← Except.ok.inj hnested]
    · rename_i hne
      exact (stoi_pos_iff hnested).mpr (hover _ hne ((nestedValue_eq_iff hne).mp rfl))

/-! ### Concrete bodies -/

theorem neverNaN_halfFloat : NeverNaN halfFloat := by
  intro text _ x h
  rw [halfFloat] at h
  dsimp only at h
  split at h
  · cases h
    decide
  · cases h

/-- The body `{"options":{"temperature":0.5,"max_tokens":"64"}}`. -/
def positiveOverride : StdString := bytes "\x7b\"options\":\x7b\"temperature\":0.5,\"max_tokens\":\"64\"\x7d\x7d"

theorem sanitized_iff_positiveOverride :
    ∃ request, parseRequestBody halfFloat positiveOverride = .ok request ∧ request.maxTokens = 64 ∧
      ∀ text, text ≠ [] → Overrides positiveOverride text → SpellsPositive text := by
  have hparse : parseRequestBody halfFloat positiveOverride =
      .ok { maxTokens := 64, temperature := ⟨0x3f000000⟩ } := by decide +kernel
  refine ⟨_, hparse, rfl, (sanitized_iff neverNaN_halfFloat hparse).mp ⟨?_, fun nowMs => ?_⟩⟩
  · exact ⟨by decide, by decide, by decide, by decide, by decide⟩
  · exact (tokensFit_iff _ _ _).mpr (by decide)

/-- The body `{"options":{"temperature":0.5,"max_tokens":"-5"}}`. -/
def negativeOverride : StdString := bytes "\x7b\"options\":\x7b\"temperature\":0.5,\"max_tokens\":\"-5\"\x7d\x7d"

/-- A nested `"-5"` overrides the sanitized number, and the tokens of the reply are no `u32`. -/
theorem override_not_sanitized :
    ∃ request, parseRequestBody halfFloat negativeOverride = .ok request ∧ request.maxTokens = -5 ∧
      ¬Sanitized request ∧ ∀ nowMs, ¬TokensFit (buildInferenceJson halfFloat nowMs request) := by
  have hparse : parseRequestBody halfFloat negativeOverride =
      .ok { maxTokens := -5, temperature := ⟨0x3f000000⟩ } := by decide +kernel
  refine ⟨_, hparse, rfl, fun h => absurd h.maxTokens (by decide), fun nowMs h => ?_⟩
  exact absurd ((tokensFit_iff _ _ _).mp h).1 (by decide)

end InferenceGateway.Wire
