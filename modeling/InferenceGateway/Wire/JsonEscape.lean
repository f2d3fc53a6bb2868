import InferenceGateway.Common.JsonSkeleton
import InferenceGateway.Wire.Replies

/-! # `json_escape` as an encoder of strings

Reference: `json_escape`, `build_inference_json` and `build_error_json` in `inference_core.cpp`; the section
on it in `docs/cpp-inference-core.html`, which calls the set of escapes minimal and says that control
characters are not escaped.

Between quotes, `json_escape` gives the JSON literal of a text exactly if all its control characters are
among the three that are escaped. Whatever the bytes are, they cannot be confused with others and do not
reach the text around them: a lexer finds the same structure as if the string were empty.
-/

namespace InferenceGateway.Wire

open Common InferenceGateway.Core Gateway

/-! ## Bytes -/

/-- The byte that a byte behind a backslash stands for. -/
def unescapeByte (b : UInt8) : UInt8 :=
  if b = asciiByte 'n' then asciiByte '\n'
  else if b = asciiByte 'r' then asciiByte '\r'
  else if b = asciiByte 't' then asciiByte '\t'
  else b

/-- Undoes `json_escape`. -/
def jsonUnescape : StdString → StdString
  | [] => []
  | [b] => [b]
  | b :: c :: text =>
    if b = asciiByte '\\' then unescapeByte c :: jsonUnescape text else b :: jsonUnescape (c :: text)

/-- A byte is written behind a backslash, or as it is. -/
theorem jsonEscapeByte_cases (ch : UInt8) :
    (∃ c, jsonEscapeByte ch = [asciiByte '\\', c] ∧ unescapeByte c = ch) ∨
      jsonEscapeByte ch = [ch] ∧ ch ≠ asciiByte '\\' ∧ ch ≠ quote := by
  unfold jsonEscapeByte
  split_ifs with hback hquote hn hr ht
  · exact .inl ⟨asciiByte '\\', rfl, by rw [hback]; rfl⟩
  · exact .inl ⟨quote, rfl, by rw [hquote]; rfl⟩
  · exact .inl ⟨asciiByte 'n', rfl, by rw [hn]; rfl⟩
  · exact .inl ⟨asciiByte 'r', rfl, by rw [hr]; rfl⟩
  · exact .inl ⟨asciiByte 't', rfl, by rw [ht]; rfl⟩
  · exact .inr ⟨rfl, hback, hquote⟩

theorem jsonUnescape_cons_of_ne {b : UInt8} (h : b ≠ asciiByte '\\') (text : StdString) :
    jsonUnescape (b :: text) = b :: jsonUnescape text := by
  cases text with
  | nil => rfl
  | cons c text => rw [jsonUnescape, if_neg h]

theorem jsonEscape_cons (b : UInt8) (s : StdString) :
    jsonEscape (b :: s) = jsonEscapeByte b ++ jsonEscape s := rfl

theorem jsonUnescape_jsonEscape (s : StdString) : jsonUnescape (jsonEscape s) = s := by
  induction s with
  | nil => rfl
  | cons b s ih =>
    rw [jsonEscape_cons]
    rcases jsonEscapeByte_cases b with ⟨c, hesc, hc⟩ | ⟨hesc, hback, -⟩
    · rw [hesc, List.cons_append, List.singleton_append, jsonUnescape, if_pos rfl, hc, ih]
    · rw [hesc, List.singleton_append, jsonUnescape_cons_of_ne hback, ih]

theorem staysInside_jsonEscape (s : StdString) : StaysInside (jsonEscape s) := by
  induction s with
  | nil => exact .nil
  | cons b s ih =>
    rw [jsonEscape_cons]
    refine .append ?_ ih
    rcases jsonEscapeByte_cases b with ⟨c, hesc, -⟩ | ⟨hesc, hback, hquote⟩
    · rw [hesc]
      exact .escape c
    · rw [hesc]
      exact .singleton hquote hback

/-! ## Literals -/

/-- The literal that the replies write for a string. -/
def literal (s : StdString) : StdString := quote :: (jsonEscape s ++ [quote])

/-- Decoding of JSON from bytes. -/
def decodeJson (text : List UInt8) : Option Json := (fromUtf8 text).bind Json.parse

/-- The only control characters are a line feed, a carriage return and a tabulator. -/
def OnlyEscapedControls (cs : List Char) : Prop := ∀ c ∈ cs, c.toNat < 32 → c ∈ ['\n', '\r', '\t']

instance (cs : List Char) : Decidable (OnlyEscapedControls cs) := List.decidableBAll _ cs

theorem onlyEscapedControls_cons {c : Char} {cs : List Char} :
    OnlyEscapedControls (c :: cs) ↔
      (c.toNat < 32 → c ∈ ['\n', '\r', '\t']) ∧ OnlyEscapedControls cs := List.forall_mem_cons

/-- The literal of a text is decoded as the text, and so is the message of an error reply. -/
structure Decodes (cs : List Char) : Prop where
  literal : decodeJson (literal (utf8 cs)) = some (.str (String.ofList cs))
  error : ∀ statusCode, decodeJson (buildErrorJson (utf8 cs) statusCode) =
    some (.obj
      [("status", .str "error"),
        ("message", .str (String.ofList cs)),
        ("code", .num (Numeral.ofInt statusCode))])

/-- On the three control characters `json_escape` does what JSON does. -/
theorem coreEscapeChar_of_escaped {c : Char} (h : c.toNat < 32 → c ∈ ['\n', '\r', '\t']) :
    coreEscapeChar c = escapeChar c := by
  rcases Nat.lt_or_ge c.toNat 32 with hlow | hhigh
  · have hc := h hlow
    simp only [List.mem_cons, List.not_mem_nil, or_false] at hc
    rcases hc with rfl | rfl | rfl <;> rfl
  · exact coreEscapeChar_eq hhigh

theorem jsonEscape_of_onlyEscapedControls {cs : List Char} (h : OnlyEscapedControls cs) :
    jsonEscape (utf8 cs) = utf8 (escape cs) := by
  rw [jsonEscape_utf8, escape, List.flatMap_congr fun c hc => coreEscapeChar_of_escaped (h c hc)]

/-- Any other control character is left as it is, and is refused. -/
theorem parseString_coreEscapeChar (c : Char) (rest : List Char) :
    parseString (coreEscapeChar c ++ rest) =
      if c.toNat < 32 → c ∈ ['\n', '\r', '\t'] then (parseString rest).map fun p => (c :: p.1, p.2)
      else none := by
  split
  · rename_i h
    rw [coreEscapeChar_of_escaped h, parseString_escapeChar]
  · rename_i h
    obtain ⟨hlow, hother⟩ := Classical.not_imp.mp h
    simp only [List.mem_cons, List.not_mem_nil, or_false, not_or] at hother
    have hne (d : Char) (hd : 32 ≤ d.toNat) : c ≠ d := fun heq => absurd (heq ▸ hd) (not_le.mpr hlow)
    rw [coreEscapeChar, if_neg (hne _ (by decide)), if_neg (hne _ (by decide)), if_neg hother.1,
      if_neg hother.2.1, if_neg hother.2.2, List.singleton_append, parseString_control hlow]

theorem parseString_coreEscape (cs rest : List Char) :
    parseString (cs.flatMap coreEscapeChar ++ '"' :: rest) =
      if OnlyEscapedControls cs then some (cs, rest) else none := by
  induction cs with
  | nil => exact (if_pos fun c hc => absurd hc List.not_mem_nil).symm
  | cons c cs ih =>
    rw [List.flatMap_cons, List.append_assoc, parseString_coreEscapeChar, ih]
    simp only [onlyEscapedControls_cons]
    by_cases hc : c.toNat < 32 → c ∈ ['\n', '\r', '\t']
    · by_cases hcs : OnlyEscapedControls cs
      · rw [if_pos hc, if_pos hcs, if_pos ⟨hc, hcs⟩, Option.map_some]
      · rw [if_pos hc, if_neg hcs, if_neg fun h => hcs h.2, Option.map_none]
    · rw [if_neg hc, if_neg fun h => hc h.1]

theorem literal_utf8 (cs : List Char) :
    literal (utf8 cs) = utf8 ('"' :: (cs.flatMap coreEscapeChar ++ ['"'])) := by
  rw [literal, jsonEscape_utf8, utf8_cons_of_lt (by decide), utf8_append]
  rfl

theorem decodeJson_literal (cs : List Char) :
    decodeJson (literal (utf8 cs)) =
      if OnlyEscapedControls cs then some (.str (String.ofList cs)) else none := by
  rw [decodeJson, literal_utf8, fromUtf8_utf8, Option.bind_some, Json.parse, parseValue_quote,
    parseString_coreEscape]
  by_cases h : OnlyEscapedControls cs
  · rw [if_pos h, if_pos h]
    rfl
  · rw [if_neg h, if_neg h]
    rfl

/-- The reply is the compact text of an object. -/
theorem decodeJson_buildErrorJson {cs : List Char} (h : OnlyEscapedControls cs) (statusCode : ℤ) :
    decodeJson (buildErrorJson (utf8 cs) statusCode) =
      some (.obj
        [("status", .str "error"),
          ("message", .str (String.ofList cs)),
          ("code", .num (Numeral.ofInt statusCode))]) := by
  have htext : buildErrorJson (utf8 cs) statusCode = utf8 (Json.obj
      [("status", .str "error"),
        ("message", .str (String.ofList cs)),
        ("code", .num (Numeral.ofInt statusCode))]).compact := by
    rw [buildErrorJson, jsonEscape_of_onlyEscapedControls h, decimal_eq]
    simp only [bytes, ← utf8_append]
    refine congrArg utf8 ?_
    have hmessage : quoted (String.ofList cs) = '"' :: (escape cs ++ ['"']) := by simp [quoted]
    simp only [Json.compact, compactMembers, hmessage,
      quoted_of_isIdent (by decide : IsIdent "status"), quoted_of_isIdent (by decide : IsIdent "error"),
      quoted_of_isIdent (by decide : IsIdent "message"), quoted_of_isIdent (by decide : IsIdent "code")]
    simp
  rw [decodeJson, htext, fromUtf8_utf8, Option.bind_some, parse_compact]

theorem decodes_iff (cs : List Char) : Decodes cs ↔ OnlyEscapedControls cs := by
  constructor
  · intro h
    by_contra hother
    have hliteral := h.literal
    rw [decodeJson_literal, if_neg hother] at hliteral
    cases hliteral
  · intro h
    exact ⟨by rw [decodeJson_literal, if_pos h], decodeJson_buildErrorJson h⟩

/-! ## Replies -/

theorem skeleton_literal (s text : StdString) :
    skeleton (literal s ++ text) = quote :: quote :: skeleton text := by
  have hquote : LexState.outside.after [quote] = .inside := rfl
  have hpaste := (staysInside_jsonEscape s).skeleton_paste hquote (quote :: text)
  rw [literal, List.cons_append, List.append_assoc]
  exact hpaste

theorem skeleton_buildErrorJson (message : StdString) (statusCode : ℤ) :
    skeleton (buildErrorJson message statusCode) = skeleton (buildErrorJson [] statusCode) := by
  have hhead : LexState.outside.after (bytes "\x7b\"status\":\"error\",\"message\":\"") = .inside := by
    decide
  simp only [buildErrorJson, List.append_assoc]
  exact (staysInside_jsonEscape message).skeleton_paste hhead _

theorem staysInside_makeRequestId (nowMs : ℤ) : StaysInside (makeRequestId nowMs) := by
  obtain ⟨cs, hid, hplain⟩ := makeRequestId_eq nowMs
  have hprintable : Printable cs := hplain ▸ printable_escape cs
  rw [hid, ← hplain, ← jsonEscape_of_printable hprintable]
  exact staysInside_jsonEscape _

theorem skeleton_buildInferenceJson (lib : StdFloat) (nowMs : ℤ) (request : InferenceRequest) :
    skeleton (buildInferenceJson lib nowMs request) =
      skeleton (buildInferenceJson lib nowMs { request with model := [], input := [] }) := by
  -- What stands in front of the model, and between the model and the output.
  obtain ⟨front, hfront⟩ : ∃ front, front = bytes "\x7b" ++ (bytes "\"request_id\":\"" ++
    (makeRequestId nowMs ++ (bytes "\"," ++ bytes "\"model\":\""))) := ⟨_, rfl⟩
  obtain ⟨between, hbetween⟩ : ∃ between, between = bytes "\"," ++ bytes "\"output\":\"" := ⟨_, rfl⟩
  have hmodel : LexState.outside.after front = .inside := by
    rw [hfront]
    simp only [LexState.after_append]
    rw [show (LexState.outside.after (bytes "\x7b")).after (bytes "\"request_id\":\"") = .inside by decide,
      (staysInside_makeRequestId nowMs).after]
    decide
  have houtput : LexState.outside.after (front ++ between) = .inside := by
    rw [LexState.after_append, hmodel, hbetween]
    decide
  have hpaste (model output tail : StdString) :
      skeleton (front ++ (jsonEscape model ++ (between ++ (jsonEscape output ++ tail)))) =
        skeleton ((front ++ between) ++ tail) := by
    rw [(staysInside_jsonEscape model).skeleton_paste hmodel, ← List.append_assoc,
      (staysInside_jsonEscape output).skeleton_paste houtput]
  have hreply (r : InferenceRequest) : ∃ output, buildInferenceJson lib nowMs r =
      front ++ (jsonEscape r.model ++ (between ++ (jsonEscape output ++
        (bytes "\"," ++ (bytes "\"usage\":\x7b\"latency_ms\":" ++ (decimal 5 ++ (bytes ",\"tokens\":" ++
          (decimal r.maxTokens ++ (bytes "\x7d," ++ (bytes "\"status\":\"ok\"" ++ bytes "\x7d")))))))))) := by
    refine ⟨runCpuInference lib r, ?_⟩
    rw [buildInferenceJson, hfront, hbetween]
    simp only [List.append_assoc]
  obtain ⟨output, h⟩ := hreply request
  obtain ⟨output', h'⟩ := hreply { request with model := [], input := [] }
  rw [h, h', hpaste, hpaste]

/-- Between quotes, `json_escape` gives a literal of its text exactly if the control characters of the text
are among the three that it escapes. It tells all byte strings apart, and none reaches over the literal that
it is written into. -/
theorem jsonEscape_encodes :
    (∀ cs, Decodes cs ↔ OnlyEscapedControls cs) ∧
    Function.Injective jsonEscape ∧
    (∀ s text, skeleton (literal s ++ text) = quote :: quote :: skeleton text) ∧
    (∀ message statusCode,
      skeleton (buildErrorJson message statusCode) = skeleton (buildErrorJson [] statusCode)) ∧
    ∀ lib nowMs request, skeleton (buildInferenceJson lib nowMs request) =
      skeleton (buildInferenceJson lib nowMs { request with model := [], input := [] }) :=
  ⟨decodes_iff, Function.LeftInverse.injective jsonUnescape_jsonEscape, skeleton_literal,
    skeleton_buildErrorJson, skeleton_buildInferenceJson⟩

/-- The literal of a text with a control character that is not escaped is no JSON. -/
theorem control_not_decoded :
    literal (bytes "\x01") = [quote, 1, quote] ∧ decodeJson (literal (bytes "\x01")) = none ∧
      ¬Decodes ['\x01'] := by
  refine ⟨by decide, ?_, ?_⟩
  · exact decodeJson_literal ['\x01']
  · rw [decodes_iff]
    decide

end InferenceGateway.Wire
