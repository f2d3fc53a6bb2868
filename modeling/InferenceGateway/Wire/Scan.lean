import InferenceGateway.Common.JsonSearch
import InferenceGateway.Core.Parse
import InferenceGateway.Gateway.Wire

/-! # The core's scanners on the gateway's requests

The gateway serializes an `InferRequest` with `serde_json`; the core scans the bytes for six patterns
without parsing them. What the scanners find is computed here from the request: the pattern for each key
starts nowhere before the member it is meant for, whatever the strings of the request contain.
-/

namespace InferenceGateway.Wire

open Common InferenceGateway.Core Gateway

/-! ## The patterns -/

theorem stringKey_bytes (key : String) : stringKey (bytes key) = utf8 (keyPattern key ++ ['"']) := by
  have hsplit : keyPattern key ++ ['"'] = '"' :: (key.toList ++ "\":\"".toList) := by simp [keyPattern]
  rw [hsplit, utf8_cons_of_lt (by decide), utf8_append]
  rfl

theorem numberKey_bytes (key : String) : numberKey (bytes key) = utf8 (keyPattern key ++ []) := by
  rw [numberKey, List.append_nil, keyPattern, utf8_cons_of_lt (by decide), utf8_append]
  rfl

/-- The bytes of the first characters that are among `chars`. -/
theorem takeWhile_bytes {chars : String} (hchars : Ascii chars.toList) (cs : List Char) :
    (utf8 cs).takeWhile (· ∈ bytes chars) = utf8 (cs.takeWhile (· ∈ chars.toList)) := by
  refine takeWhile_utf8 (fun c hc => ?_) (fun b hb => ?_) (fun c hc => ?_) cs
  · rw [bytes, decide_eq_decide]
    exact asciiByte_mem_utf8 hc
  · refine decide_eq_false fun hmem => ?_
    rw [bytes, utf8, List.mem_flatMap] at hmem
    obtain ⟨c, hc, hb'⟩ := hmem
    have hlt := hchars c hc
    rw [utf8EncodeChar_of_lt hlt, List.mem_singleton] at hb'
    rw [hb', toNat_asciiByte hlt] at hb
    omega
  · exact decide_eq_false fun hmem => Nat.not_lt.mpr hc (hchars c hmem)

section Scanners

variable {key : String} (hkey : IsIdent key) {pre rest : List Char}
include hkey

/-- A string member is read up to the first quote of its escaped text. -/
theorem quotedAfter_string {s : String}
    (h : NoStart (keyPattern key ++ ['"']) pre (keyPattern key ++ (quoted s ++ rest))) :
    quotedAfter (stringKey (bytes key)) (utf8 (pre ++ (keyPattern key ++ (quoted s ++ rest)))) =
      utf8 (rawText s) := by
  have hsplit : keyPattern key ++ (quoted s ++ rest) =
      keyPattern key ++ ['"'] ++ (escape s.toList ++ '"' :: rest) := by
    simp [quoted]
  have hquote : quote ∈ utf8 (escape s.toList ++ '"' :: rest) :=
    (asciiByte_mem_utf8 (by decide)).mpr (by simp)
  rw [hsplit] at h ⊢
  rw [quotedAfter, stringKey_bytes, after_keyPattern hkey (by decide) h]
  dsimp only
  rw [if_pos hquote, quote, upTo_utf8 (by decide), upTo_quoted_tail]

/-- A pattern that occurs nowhere reads nothing. -/
theorem numeralAfter_free {cs : List Char} (h : NoStart (keyPattern key ++ []) cs []) (chars : StdString) :
    numeralAfter chars (numberKey (bytes key)) (utf8 cs) = [] := by
  rw [numeralAfter, numberKey_bytes, after_keyPattern_eq_none hkey (by decide) h]

/-- A numeric member is read as far as its characters are those of a number. -/
theorem numeralAfter_text (chars : String) (hchars : Ascii chars.toList)
    (h : NoStart (keyPattern key ++ []) pre (keyPattern key ++ rest)) :
    numeralAfter (bytes chars) (numberKey (bytes key)) (utf8 (pre ++ (keyPattern key ++ rest))) =
      utf8 (rest.takeWhile (· ∈ chars.toList)) := by
  have hsplit : keyPattern key ++ rest = keyPattern key ++ [] ++ rest := by rw [List.append_nil]
  rw [hsplit] at h ⊢
  rw [numeralAfter, numberKey_bytes, after_keyPattern hkey (by decide) h]
  exact takeWhile_bytes hchars rest

end Scanners

/-! ## The options of a request -/

/-- `max_tokens`, if the request has it. -/
def requestedMaxTokens (req : InferRequest) : Option UInt32 := req.options.bind (·.maxTokens)

/-- `temperature`, if the request has it. -/
def requestedTemperature (req : InferRequest) : Option F32 := req.options.bind (·.temperature)

/-- `top_p`, if the request has it. -/
def requestedTopP (req : InferRequest) : Option F32 := req.options.bind (·.topP)

/-- The text that stands for an optional integer; none for `null`. -/
def u32Text (n : Option UInt32) : List Char := (n.map fun n => Nat.toDigits 10 n.toNat).getD []

/-- The numeral that is serialized for an optional float; none for `null`. -/
def f32Numeral (printer : F32Printer) (x : Option F32) : Option Numeral :=
  (x.filter F32.isFinite).map printer

/-- The text that stands for an optional float; none for `null`. -/
def f32Text (printer : F32Printer) (x : Option F32) : List Char :=
  ((f32Numeral printer x).map Numeral.text).getD []

private theorem takeWhile_null (chars : String) (h : 'n' ∉ chars.toList) (rest : List Char) :
    (Json.null.compact ++ rest).takeWhile (· ∈ chars.toList) = [] := by
  have hnull : Json.null.compact ++ rest = 'n' :: ("ull".toList ++ rest) := by rw [Json.compact]; rfl
  rw [hnull, List.takeWhile_cons_of_neg (by simpa using h)]

private theorem takeWhile_numeral (chars : String) {literal : Numeral} {c : Char}
    (hall : ∀ d ∈ literal.text, d ∈ chars.toList) (hc : c ∉ chars.toList) (rest : List Char) :
    ((Json.num literal).compact ++ c :: rest).takeWhile (· ∈ chars.toList) = literal.text := by
  rw [Json.compact, List.takeWhile_append_of_pos (by simpa using hall),
    List.takeWhile_cons_of_neg (by simpa using hc), List.append_nil]

theorem mem_of_isDigit {c : Char} (h : c.isDigit = true) : c ∈ "0123456789".toList := by
  simp only [Char.isDigit, Bool.and_eq_true, decide_eq_true_eq, ge_iff_le, UInt32.le_iff_toNat_le] at h
  have hlow : 48 ≤ c.toNat := h.1
  have hhigh : c.toNat ≤ 57 := h.2
  rw [← Char.ofNat_toNat c]
  interval_cases c.toNat <;> decide

/-- The digits of a natural number are characters of an integer. -/
theorem mem_intChars (n : ℕ) : ∀ d ∈ (Numeral.ofNat n).text, d ∈ "0123456789-".toList :=
  fun d hd => List.mem_append_left ['-'] (mem_of_isDigit (isDigit_toDigits n d hd))

/-- The characters of a numeral are those of a float. -/
theorem mem_floatChars (numeral : Numeral) : ∀ d ∈ numeral.text, d ∈ "0123456789.-+eE".toList := by
  intro d hd
  have hd := List.all_eq_true.mp numeral.chars d hd
  simp only [isNumberChar, Bool.or_eq_true, beq_iff_eq] at hd
  rcases hd with ((((hd | rfl) | rfl) | rfl) | rfl) | rfl
  · exact List.mem_append_left ".-+eE".toList (mem_of_isDigit hd)
  all_goals decide

/-- From the text of an optional integer, its digits are read. -/
theorem takeWhile_u32 (n : Option UInt32) {c : Char} (hc : c = ',' ∨ c = '}') (rest : List Char) :
    ((optionJson u32Json n).compact ++ c :: rest).takeWhile (· ∈ "0123456789-".toList) = u32Text n := by
  cases n with
  | none => exact takeWhile_null _ (by decide) _
  | some n =>
    exact takeWhile_numeral _ (mem_intChars n.toNat) (by rcases hc with rfl | rfl <;> decide) rest

/-- From the text of an optional float, its numeral is read. -/
theorem takeWhile_f32 (printer : F32Printer) (x : Option F32) {c : Char} (hc : c = ',' ∨ c = '}')
    (rest : List Char) :
    ((optionJson (f32Json printer) x).compact ++ c :: rest).takeWhile (· ∈ "0123456789.-+eE".toList) =
      f32Text printer x := by
  cases x with
  | none => exact takeWhile_null _ (by decide) _
  | some x =>
    rw [optionJson, f32Json, f32Text, f32Numeral]
    by_cases hfinite : x.isFinite = true
    · rw [if_pos hfinite, Option.filter_some, if_pos hfinite]
      exact takeWhile_numeral _ (mem_floatChars (printer x)) (by rcases hc with rfl | rfl <;> decide) rest
    · rw [if_neg hfinite, Option.filter_some, if_neg hfinite]
      exact takeWhile_null _ (by decide) _

theorem free_u32 {key : String} {suffix : List Char} (n : Option UInt32) :
    (optionJson u32Json n).Free key suffix := by
  cases n <;> trivial

theorem free_f32 {key : String} {suffix : List Char} (printer : F32Printer) (x : Option F32) :
    (optionJson (f32Json printer) x).Free key suffix := by
  cases x with
  | none => trivial
  | some x =>
    rw [optionJson, f32Json]
    split <;> trivial

/-! ## What each scanner finds in a request -/

section Request

variable (printer : F32Printer) (req : InferRequest)

theorem scan_model :
    quotedAfter (stringKey (bytes "model")) (inferRequestBody printer req) = utf8 (rawText req.model) := by
  have htext := compact_obj_append [] "model" (by decide) (.str req.model)
    [("input", .str req.input), ("options", optionJson (InferOptions.toJson printer) req.options),
      ("request_id", optionJson .str req.requestId)]
  rw [inferRequestBody, InferRequest.toJson]
  refine (congrArg _ (congrArg utf8 htext)).trans ?_
  exact quotedAfter_string (by decide) (noStart_textBefore (by decide) [] trivial _)

theorem scan_input :
    quotedAfter (stringKey (bytes "input")) (inferRequestBody printer req) = utf8 (rawText req.input) := by
  have htext := compact_obj_append [("model", .str req.model)] "input" (by decide)
    (.str req.input)
    [("options", optionJson (InferOptions.toJson printer) req.options),
      ("request_id", optionJson .str req.requestId)]
  rw [inferRequestBody, InferRequest.toJson]
  refine (congrArg _ (congrArg utf8 htext)).trans ?_
  refine quotedAfter_string (by decide) (noStart_textBefore (by decide) _ ?_ _)
  exact ⟨.of_ne (by decide) (by decide) _ _, trivial, trivial⟩

/-- Members outside of the options have other keys. -/
private theorem membersFree_outer {key : String}
    (hout : key ∉ ["model", "input", "options", "request_id"]) (suffix : List Char) :
    membersFree key suffix [("model", .str req.model), ("input", .str req.input)] ∧
      membersFree key suffix [("request_id", optionJson .str req.requestId)] := by
  simp only [List.mem_cons, List.not_mem_nil, or_false, not_or] at hout
  obtain ⟨hmodel, hinput, -, hid⟩ := hout
  refine ⟨⟨.of_ne (by decide) hmodel _ _, trivial, .of_ne (by decide) hinput _ _, trivial, trivial⟩,
    .of_ne (by decide) hid _ _, ?_, trivial⟩
  cases req.requestId <;> trivial

variable {printer} in
/-- A numeric member of the options, or nothing if there are no options. -/
private theorem scan_options (key : String) (hkey : IsIdent key)
    (hout : key ∉ ["model", "input", "options", "request_id"]) (chars : String)
    (hchars : Ascii chars.toList) (ns₁ : InferOptions → List (String × Json)) (x : InferOptions → Json)
    (ns₂ : InferOptions → List (String × Json))
    (hoptions : ∀ o : InferOptions, o.toJson printer = .obj (ns₁ o ++ (key, x o) :: ns₂ o))
    (hfree : ∀ o, membersFree key [] (ns₁ o)) (text : InferOptions → List Char)
    (htext : ∀ (o : InferOptions) (c : Char) (rest : List Char), c = ',' ∨ c = '}' →
      ((x o).compact ++ c :: rest).takeWhile (· ∈ chars.toList) = text o) :
    numeralAfter (bytes chars) (numberKey (bytes key)) (inferRequestBody printer req) =
      utf8 ((req.options.map text).getD []) := by
  obtain ⟨hms, hid⟩ := membersFree_outer req hout []
  have hne : key ≠ "options" := fun h => hout (by rw [h]; decide)
  rw [inferRequestBody, InferRequest.toJson]
  cases req.options with
  | none =>
    -- `null` stands for the options, and no other member has the key.
    refine numeralAfter_free hkey (noStart_compact hkey _ [] ?_ nofun) _
    exact ⟨hms.1, hms.2.1, hms.2.2.1, hms.2.2.2.1, .of_ne (by decide) hne _ _, trivial, hid⟩
  | some o =>
    have hsplit := compact_nested [("model", .str req.model), ("input", .str req.input)]
      "options" (by decide) (ns₁ o) key hkey (x o) (ns₂ o)
      [("request_id", optionJson .str req.requestId)]
    rw [← hoptions o] at hsplit
    refine (congrArg _ (congrArg utf8 hsplit)).trans ?_
    rw [numeralAfter_text hkey chars hchars (noStart_nested hkey (by decide) hne hms (hfree o) _)]
    -- The numeral ends at the comma before the next member, or at the brace.
    cases ns₂ o with
    | nil => exact congrArg utf8 (htext o _ _ (.inr rfl))
    | cons n ns => exact congrArg utf8 (htext o _ _ (.inl rfl))

theorem scan_maxTokens :
    numeralAfter intChars (numberKey (bytes "max_tokens")) (inferRequestBody printer req) =
      utf8 (u32Text (requestedMaxTokens req)) := by
  have h := scan_options req "max_tokens" (by decide) (by decide) "0123456789-" (by decide)
    (fun _ => []) (fun o => optionJson u32Json o.maxTokens)
    (fun o => [("temperature", optionJson (f32Json printer) o.temperature),
      ("top_p", optionJson (f32Json printer) o.topP)])
    (fun _ => rfl) (fun _ => trivial) (fun o => u32Text o.maxTokens)
    (fun o _ rest hc => takeWhile_u32 o.maxTokens hc rest)
  unfold requestedMaxTokens
  cases ho : req.options <;> rw [ho] at h <;> exact h

theorem scan_temperature :
    numeralAfter floatChars (numberKey (bytes "temperature")) (inferRequestBody printer req) =
      utf8 (f32Text printer (requestedTemperature req)) := by
  have h := scan_options req "temperature" (by decide) (by decide) "0123456789.-+eE" (by decide)
    (fun o => [("max_tokens", optionJson u32Json o.maxTokens)])
    (fun o => optionJson (f32Json printer) o.temperature)
    (fun o => [("top_p", optionJson (f32Json printer) o.topP)])
    (fun _ => rfl)
    (fun o => ⟨.of_ne (by decide) (by decide) _ _, free_u32 o.maxTokens, trivial⟩)
    (fun o => f32Text printer o.temperature)
    (fun o _ rest hc => takeWhile_f32 printer o.temperature hc rest)
  unfold requestedTemperature
  cases ho : req.options <;> rw [ho] at h <;> exact h

theorem scan_topP :
    numeralAfter floatChars (numberKey (bytes "top_p")) (inferRequestBody printer req) =
      utf8 (f32Text printer (requestedTopP req)) := by
  have h := scan_options req "top_p" (by decide) (by decide) "0123456789.-+eE" (by decide)
    (fun o => [("max_tokens", optionJson u32Json o.maxTokens),
      ("temperature", optionJson (f32Json printer) o.temperature)])
    (fun o => optionJson (f32Json printer) o.topP) (fun _ => [])
    (fun _ => rfl)
    (fun o => ⟨.of_ne (by decide) (by decide) _ _, free_u32 o.maxTokens,
      .of_ne (by decide) (by decide) _ _, free_f32 printer o.temperature, trivial⟩)
    (fun o => f32Text printer o.topP)
    (fun o _ rest hc => takeWhile_f32 printer o.topP hc rest)
  unfold requestedTopP
  cases ho : req.options <;> rw [ho] at h <;> exact h

/-- `"max_tokens":"` occurs nowhere: the value of this member is no string. -/
theorem scan_nested : nestedValue (inferRequestBody printer req) (bytes "max_tokens") = [] := by
  obtain ⟨hms, hid⟩ := membersFree_outer req
    (by decide : "max_tokens" ∉ ["model", "input", "options", "request_id"]) ['"']
  have hfree : (req.toJson printer).Free "max_tokens" ['"'] := by
    refine ⟨hms.1, hms.2.1, hms.2.2.1, hms.2.2.2.1, .of_ne (by decide) (by decide) _ _, ?_, hid⟩
    cases req.options with
    | none => trivial
    | some o =>
      refine ⟨?_, free_u32 o.maxTokens, .of_ne (by decide) (by decide) _ _, free_f32 printer o.temperature,
        .of_ne (by decide) (by decide) _ _, free_f32 printer o.topP, trivial⟩
      -- The key does occur, but its value is `null` or a number.
      cases o.maxTokens with
      | none => exact ⟨by decide, fun _ => ⟨'"', [], 'n', rfl, rfl, by decide⟩⟩
      | some n => exact .num (by decide) _
  refine nestedValue_eq_nil ?_
  rw [stringKey_bytes, inferRequestBody]
  exact after_keyPattern_eq_none (by decide) (by decide) (noStart_compact (by decide) _ [] hfree nofun)

end Request

end InferenceGateway.Wire
