import InferenceGateway.Wire.Replies

/-! # What one decoding of a reply gives

Reference: `json_escape`, `run_cpu_inference` and `build_inference_json` in `inference_core.cpp`.

`run_cpu_inference` escapes the input where it writes it, and `build_inference_json` escapes the whole
text again; the model is escaped by the second function alone. A JSON decoder undoes one escaping: the
model comes back as it is in the request, and the output with the input still escaped once. So the decoded
output is the intended text exactly if the input has nothing to escape.
-/

namespace InferenceGateway.Wire

open Common InferenceGateway.Core Gateway

/-! ## What a reader finds -/

/-- The model and the output in a reply. -/
def replyTexts (reply : StdString) : Option (String × String) := do
  let text ← fromUtf8 reply
  match ← Json.parse text with
  | .obj members =>
    let model ← (field "model" members).bind decodeString
    let output ← (field "output" members).bind decodeString
    return (model, output)
  | _ => none

/-- The text of `run_cpu_inference` with the given texts in its `input=` and `normalized=` positions. -/
def inferenceText (lib : StdFloat) (request : InferenceRequest) (input normalized : StdString) :
    StdString :=
  bytes "C++ CPU inference result for model=" ++ request.model
    ++ bytes " input=" ++ input
    ++ bytes " tokens=" ++ decimal request.maxTokens
    ++ bytes " temperature=" ++ lib.print request.temperature
    ++ bytes " top_p=" ++ lib.print request.topP
    ++ bytes " normalized=" ++ normalized

/-- One decoding of the reply undoes all the escaping: the model is that of the request, and the output is
the text of `run_cpu_inference` with the input itself and its upper-casing itself. -/
def EscapedOnce (lib : StdFloat) (nowMs : ℤ) (request : InferenceRequest) : Prop :=
  ∃ model output, replyTexts (buildInferenceJson lib nowMs request) = some (model, output) ∧
    bytes model = request.model ∧
    bytes output = inferenceText lib request request.input (request.input.map toupper)

theorem runCpuInference_eq (lib : StdFloat) (request : InferenceRequest) :
    runCpuInference lib request =
      inferenceText lib request (jsonEscape request.input) (jsonEscape (request.input.map toupper)) := rfl

/-- The text between the two positions of the input, and the text before them. -/
theorem inferenceText_split {lib : StdFloat} (hprint : PrintsAscii lib) {request : InferenceRequest}
    (hmodel : IsText request.model) :
    ∃ head middle, ∀ input normalized, inferenceText lib request (utf8 input) (utf8 normalized) =
      utf8 (head ++ (input ++ (middle ++ normalized))) := by
  have hhead : IsText (bytes "C++ CPU inference result for model=" ++ request.model ++ bytes " input=") :=
    ((isText_bytes (by decide)).append hmodel).append (isText_bytes (by decide))
  have hmiddle : IsText (bytes " tokens=" ++ decimal request.maxTokens ++ bytes " temperature=" ++
      lib.print request.temperature ++ bytes " top_p=" ++ lib.print request.topP ++
      bytes " normalized=") := by
    refine .append (.append (.append ?_ (isText_bytes (by decide))) (hprint _).isText)
      (isText_bytes (by decide))
    refine .append (.append (.append ?_ (isText_decimal _)) (isText_bytes (by decide))) (hprint _).isText
    exact isText_bytes (by decide)
  obtain ⟨head, -, hhead⟩ := hhead
  obtain ⟨middle, -, hmiddle⟩ := hmiddle
  refine ⟨head, middle, fun input normalized => ?_⟩
  rw [utf8_append, utf8_append, utf8_append, ← hhead, ← hmiddle, inferenceText]
  simp only [List.append_assoc]

/-- What one decoding gives: the model of the request, and the text that `run_cpu_inference` returns. -/
theorem replyTexts_buildInferenceJson {lib : StdFloat} (nowMs : ℤ) {request : InferenceRequest}
    {model output : List Char} (hmodel : Printable model) (hrequest : request.model = utf8 model)
    (houtput : Printable output) (hrun : runCpuInference lib request = utf8 output) :
    replyTexts (buildInferenceJson lib nowMs request) =
      some (String.ofList model, String.ofList output) := by
  obtain ⟨requestId, hreply⟩ := buildInferenceJson_members nowMs hmodel hrequest houtput hrun
  rw [hreply, replyTexts, fromUtf8_utf8]
  simp [parse_compact, replyMembers, field, decodeString]

/-! ## Where escaping shows -/

/-- Escaping a text twice over is seen in its length. -/
theorem escape_eq_of_embedded {head middle input normalized : List Char}
    (h : head ++ (escape input ++ (middle ++ escape normalized)) =
      head ++ (input ++ (middle ++ normalized))) : escape input = input := by
  have hrest := List.append_cancel_left h
  have hinput := length_le_length_escape input
  have hnormalized := length_le_length_escape normalized
  have hlen := congrArg List.length hrest
  simp only [List.length_append] at hlen
  exact (List.append_inj hrest (by omega)).1

/-- Upper-casing makes no character that needs an escape, and removes none. -/
theorem needsEscape_toUpper (c : Char) : needsEscape c.toUpper = needsEscape c := by
  rcases Nat.lt_or_ge c.toNat 128 with hc | hc
  · exact forall_of_toNat_lt (fun c => needsEscape c.toUpper = needsEscape c) (by decide) hc
  · rw [toUpper_of_le hc]

theorem escape_map_toUpper {input : List Char} (h : IsPlain input) :
    escape (input.map Char.toUpper) = input.map Char.toUpper := by
  refine escape_eq_self_iff.mpr fun d hd => ?_
  obtain ⟨c, hc, rfl⟩ := List.mem_map.mp hd
  rw [needsEscape_toUpper]
  exact h c hc

/-- A text without control characters has nothing to escape if it has no quote and no backslash. -/
theorem Printable.isPlain_iff {cs : List Char} (h : Printable cs) :
    IsPlain cs ↔ '"' ∉ cs ∧ '\\' ∉ cs := by
  constructor
  · intro hplain
    exact ⟨fun hmem => absurd (hplain _ hmem) (by decide), fun hmem => absurd (hplain _ hmem) (by decide)⟩
  · rintro ⟨hquote, hback⟩ c hc
    have hlow : ¬ c.toNat < 32 := Nat.not_lt.mpr (h c hc)
    have hq : c ≠ '"' := fun heq => hquote (heq ▸ hc)
    have hb : c ≠ '\\' := fun heq => hback (heq ▸ hc)
    simp [needsEscape, hlow, hq, hb]

/-! ## When one decoding is enough -/

/-- One decoding is enough exactly if escaping leaves the input as it is. -/
theorem escapedOnce_iff_escape {lib : StdFloat} (hprint : PrintsAscii lib) (nowMs : ℤ)
    {request : InferenceRequest} {model input : List Char} (hmodel : Printable model)
    (hinput : Printable input) (hm : request.model = utf8 model) (hi : request.input = utf8 input) :
    EscapedOnce lib nowMs request ↔ escape input = input := by
  obtain ⟨head, middle, htext⟩ := inferenceText_split hprint ⟨model, hmodel, hm⟩
  have hupper : Printable (input.map Char.toUpper) := by
    obtain ⟨cs, hcs, heq⟩ := IsText.toupper ⟨input, hinput, rfl⟩
    rw [map_toupper_utf8] at heq
    exact utf8_injective heq ▸ hcs
  have hrun : runCpuInference lib request =
      utf8 (head ++ (escape input ++ (middle ++ escape (input.map Char.toUpper)))) := by
    rw [runCpuInference_eq, hi, map_toupper_utf8, jsonEscape_of_printable hinput,
      jsonEscape_of_printable hupper, htext]
  have houtput : Printable (head ++ (escape input ++ (middle ++ escape (input.map Char.toUpper)))) := by
    obtain ⟨cs, hcs, heq⟩ := isText_runCpuInference hprint ⟨model, hmodel, hm⟩ ⟨input, hinput, hi⟩
    exact utf8_injective (hrun.symm.trans heq) ▸ hcs
  have hreply := replyTexts_buildInferenceJson nowMs hmodel hm houtput hrun
  have hwanted : inferenceText lib request request.input (request.input.map toupper) =
      utf8 (head ++ (input ++ (middle ++ input.map Char.toUpper))) := by
    rw [hi, map_toupper_utf8, htext]
  have hbytes (cs : List Char) : bytes (String.ofList cs) = utf8 cs := by rw [bytes, String.toList_ofList]
  unfold EscapedOnce
  rw [hreply, hwanted]
  constructor
  · rintro ⟨m, o, heq, -, ho⟩
    obtain ⟨-, rfl⟩ := Prod.mk.inj (Option.some.inj heq)
    rw [hbytes] at ho
    exact escape_eq_of_embedded (utf8_injective ho)
  · intro hplain
    refine ⟨_, _, rfl, (hbytes model).trans hm.symm, ?_⟩
    rw [hbytes, hplain, escape_map_toUpper (escape_eq_self_iff.mp hplain)]

/-- For a request whose model and input are UTF-8 without control characters, one decoding of the reply
undoes all the escaping exactly if the input contains neither a quote nor a backslash. -/
theorem escapedOnce_iff (lib : StdFloat) (hprint : PrintsAscii lib) (nowMs : ℤ)
    (request : InferenceRequest) (model input : List Char) (hmodel : Printable model)
    (hinput : Printable input) (hm : request.model = utf8 model) (hi : request.input = utf8 input) :
    EscapedOnce lib nowMs request ↔ '"' ∉ input ∧ '\\' ∉ input := by
  rw [escapedOnce_iff_escape hprint nowMs hmodel hinput hm hi, escape_eq_self_iff, hinput.isPlain_iff]

/-- A quote in the model is no obstacle. -/
theorem escapedOnce_iff_quotedModel :
    EscapedOnce halfFloat 1700000000000 { model := bytes "my \"7b\"", input := bytes "hello" } :=
  (escapedOnce_iff halfFloat printsAscii_halfFloat 1700000000000
    { model := bytes "my \"7b\"", input := bytes "hello" } _ _ (by decide) (by decide) rfl rfl).mpr
    (by decide)

/-- The reply to an input with a quote, which comes back with a backslash before it. -/
theorem quote_escaped_twice :
    replyTexts (buildInferenceJson halfFloat 1700000000000 { input := bytes "a\"b", maxTokens := 1 }) =
        some ("llama-7b", "C++ CPU inference result for model=llama-7b input=a\\\"b tokens=1 " ++
          "temperature=0.8 top_p=0.95 normalized=A\\\"B") ∧
      ¬ EscapedOnce halfFloat 1700000000000 { input := bytes "a\"b", maxTokens := 1 } := by
  have hrun : runCpuInference halfFloat { input := bytes "a\"b", maxTokens := 1 } =
      bytes ("C++ CPU inference result for model=llama-7b input=a\\\"b tokens=1 " ++
        "temperature=0.8 top_p=0.95 normalized=A\\\"B") := by
    decide +kernel
  refine ⟨?_, fun h => ?_⟩
  · rw [replyTexts_buildInferenceJson _ (by decide) (rfl : _ = utf8 "llama-7b".toList) (by decide) hrun,
      String.ofList_toList, String.ofList_toList]
  have hescape : escape "a\"b".toList = "a\"b".toList :=
    (escapedOnce_iff_escape printsAscii_halfFloat 1700000000000 (by decide) (by decide) rfl rfl).mp h
  exact absurd hescape (by decide)

end InferenceGateway.Wire
