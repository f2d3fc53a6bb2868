import InferenceGateway.Common.Floats
import InferenceGateway.Common.Utf8
import InferenceGateway.Core.StdString

/-! # The request parser of the inference core

Reference: `trim`, `find_json_string_value`, `find_json_int_value`, `find_json_float_value`,
`extract_value_from_nested_options` and `parse_request_body` in `inference_core.cpp`.

The scanners know nothing of JSON: each looks for the first occurrence of a key with its quotes and
colon anywhere in the body and cuts out what follows. Every position they compute lies within the body,
so `substr` never throws, and each scanner is a plain function of the text behind its key.
-/

namespace InferenceGateway.Core

open Common

/-- The conversions between text and `float`: `std::stof`, and `operator<<` of a default stream. -/
structure StdFloat where
  stof : StdString → Throws F32
  print : F32 → StdString

/-- `trim`. -/
def trim (value : StdString) : Throws StdString :=
  let whitespace := bytes " \t\r\n"
  match findFirstNotOf value whitespace 0 with
  | none => .ok []
  | some first =>
    let last := (findLastNotOf value whitespace).getD value.length
    substr value first (some (last - first + 1))

/-- The whitespace that `trim` removes. -/
def isTrimmed (c : UInt8) : Bool := c ∈ bytes " \t\r\n"

/-- A text without the whitespace at its ends. -/
def trimmed (value : StdString) : StdString := (value.dropWhile isTrimmed).rdropWhile isTrimmed

/-- What stands between whitespace, if no whitespace occurs in it. -/
theorem trimmed_append {l m r : StdString} (hl : ∀ b ∈ l, isTrimmed b = true)
    (hm : ∀ b ∈ m, isTrimmed b = false) (hr : ∀ b ∈ r, isTrimmed b = true) :
    trimmed (l ++ m ++ r) = m := by
  have hend : (m ++ r).rdropWhile isTrimmed = m := by
    rw [List.rdropWhile, List.reverse_append,
      List.dropWhile_append_of_pos fun b hb => hr b (List.mem_reverse.mp hb), ← List.rdropWhile]
    refine List.rdropWhile_eq_self_iff.mpr fun hne => ?_
    rw [hm _ (List.getLast_mem hne)]
    exact Bool.false_ne_true
  rw [trimmed, List.append_assoc, List.dropWhile_append_of_pos hl]
  cases m with
  | nil =>
    rw [List.nil_append, List.dropWhile_eq_nil_iff.mpr hr]
    rfl
  | cons b m =>
    rw [List.cons_append, List.dropWhile_cons_of_neg (by rw [hm b List.mem_cons_self]; decide)]
    exact hend

private theorem findIdx?_append_cons {p : UInt8 → Bool} {l r : StdString} {c : UInt8}
    (hl : ∀ b ∈ l, p b = false) (hc : p c = true) : (l ++ c :: r).findIdx? p = some l.length := by
  rw [List.findIdx?_append, List.findIdx?_eq_none_iff.mpr hl, List.findIdx?_cons, if_pos hc]
  simp

private theorem trim_of_ends {l m r : StdString} {c d : UInt8} (hl : ∀ b ∈ l, isTrimmed b = true)
    (hr : ∀ b ∈ r, isTrimmed b = true) (hc : m.head? = some c) (hc' : isTrimmed c = false)
    (hd : m.getLast? = some d) (hd' : isTrimmed d = false) : trim (l ++ m ++ r) = .ok m := by
  obtain ⟨m₁, rfl⟩ := List.head?_eq_some_iff.mp hc
  obtain ⟨m₂, hm₂⟩ := List.getLast?_eq_some_iff.mp hd
  have hfirst : findFirstNotOf (l ++ c :: m₁ ++ r) (bytes " \t\r\n") 0 = some l.length := by
    rw [findFirstNotOf, List.drop_zero, List.append_assoc, List.cons_append,
      findIdx?_append_cons (by simpa [isTrimmed] using hl) (by simpa [isTrimmed] using hc')]
    rfl
  have hlast : findLastNotOf (l ++ c :: m₁ ++ r) (bytes " \t\r\n") =
      some (l.length + m₂.length) := by
    have hrev : (l ++ c :: m₁ ++ r).reverse = r.reverse ++ d :: (m₂.reverse ++ l.reverse) := by
      rw [hm₂]
      simp
    rw [findLastNotOf, hrev, findIdx?_append_cons (by simpa [isTrimmed] using hr)
      (by simpa [isTrimmed] using hd'), Option.map_some, hm₂]
    simp only [List.length_append, List.length_reverse, List.length_singleton]
    congr 1
    omega
  have hlen : m₂.length + 1 = (c :: m₁).length := by rw [hm₂]; simp
  rw [trim, hfirst, hlast]
  dsimp only [Option.getD_some]
  rw [substr_of_le (by simp), Option.getD_some, Nat.add_sub_cancel_left, hlen, List.append_assoc,
    List.drop_left, List.take_left]

theorem trim_eq (value : StdString) : trim value = .ok (trimmed value) := by
  unfold trimmed
  cases hw : value.dropWhile isTrimmed with
  | nil =>
    -- There is nothing but whitespace.
    have hall := List.dropWhile_eq_nil_iff.mp hw
    have hnone : findFirstNotOf value (bytes " \t\r\n") 0 = none := by
      rw [findFirstNotOf, List.drop_zero, List.findIdx?_eq_none_iff.mpr (by simpa [isTrimmed] using hall)]
      rfl
    rw [trim, hnone, List.rdropWhile_nil]
  | cons c w =>
    have hhead : isTrimmed c = false := by
      have := List.head_dropWhile_not isTrimmed (l := value) (by rw [hw]; exact List.cons_ne_nil _ _)
      simpa [hw] using this
    have hcore : (c :: w).rdropWhile isTrimmed ≠ [] := fun h => by
      have := List.rdropWhile_eq_nil_iff.mp h c List.mem_cons_self
      rw [hhead] at this
      cases this
    have hsplit : value = value.takeWhile isTrimmed ++ (c :: w).rdropWhile isTrimmed ++
        (c :: w).rtakeWhile isTrimmed := by
      rw [List.append_assoc, List.rdropWhile_append_rtakeWhile, ← hw, List.takeWhile_append_dropWhile]
    conv_lhs => rw [hsplit]
    refine trim_of_ends (c := c) (d := ((c :: w).rdropWhile isTrimmed).getLast hcore)
      (fun b hb => List.mem_takeWhile_imp hb) (fun b hb => List.mem_rtakeWhile_imp hb) ?_ hhead
      (List.getLast?_eq_some_getLast hcore) (Bool.eq_false_iff.mpr (List.rdropWhile_last_not _ _ hcore))
    obtain ⟨t, ht⟩ := List.rdropWhile_prefix isTrimmed (l := c :: w)
    cases hm : (c :: w).rdropWhile isTrimmed with
    | nil => exact absurd hm hcore
    | cons x m =>
      rw [hm, List.cons_append, List.cons.injEq] at ht
      rw [List.head?_cons, ht.1]

/-! ## The scanners -/

/-- The double quote. -/
def quote : UInt8 := asciiByte '"'

/-- `"key":"`. -/
def stringKey (key : StdString) : StdString := quote :: key ++ bytes "\":\""

/-- `"key":`. -/
def numberKey (key : StdString) : StdString := quote :: key ++ bytes "\":"

/-- `find_json_string_value`. -/
def findJsonStringValue (json key : StdString) : Throws StdString :=
  let keyPattern := stringKey key
  match find json keyPattern 0 with
  | none => .ok []
  | some pos =>
    let start := pos + keyPattern.length
    match find json [quote] start with
    | none => .ok []
    | some stop => substr json start (some (stop - start))

/-- The body that `find_json_int_value` and `find_json_float_value` share. -/
def findJsonNumber {α : Type} (chars : StdString) (convert : StdString → Throws α)
    (json key : StdString) (fallback : α) : Throws α :=
  let keyPattern := numberKey key
  match find json keyPattern 0 with
  | none => .ok fallback
  | some pos => do
    let start := pos + keyPattern.length
    let stop := findFirstNotOf json chars start
    let digits ← substr json start (some (stop.getD json.length - start))
    if digits.isEmpty then .ok fallback else convert digits

/-- The characters of an integer. -/
def intChars : StdString := bytes "0123456789-"

/-- The characters of a float. -/
def floatChars : StdString := bytes "0123456789.-+eE"

/-- `find_json_int_value`. -/
def findJsonIntValue (json key : StdString) (fallback : ℤ) : Throws ℤ :=
  findJsonNumber intChars stoi json key fallback

/-- `find_json_float_value`. -/
def findJsonFloatValue (lib : StdFloat) (json key : StdString) (fallback : F32) : Throws F32 :=
  findJsonNumber floatChars lib.stof json key fallback

/-- `extract_value_from_nested_options`. -/
def extractValueFromNestedOptions (json key fallback : StdString) : Throws StdString :=
  let optionsKey := bytes "\"options\""
  match find json optionsKey 0 with
  | none => .ok fallback
  | some optionsPos =>
    match find json [quote] (optionsPos + optionsKey.length) with
    | none => .ok fallback
    | some valueStart => do
      let candidate ← substr json (valueStart + 1) none
      let keyPattern := stringKey key
      match find candidate keyPattern 0 with
      | none => .ok fallback
      | some pos =>
        let start := pos + keyPattern.length
        match find candidate [quote] start with
        | none => .ok fallback
        | some stop => substr candidate start (some (stop - start))

/-! ## The parser -/

/-- `0.8f`. -/
def defaultTemperature : F32 := ⟨0x3f4ccccd⟩

/-- `0.95f`. -/
def defaultTopP : F32 := ⟨0x3f733333⟩

/-- `InferenceRequest` of the core. -/
structure InferenceRequest where
  model : StdString := bytes "llama-7b"
  input : StdString := bytes "hello world"
  maxTokens : ℤ := 32
  temperature : F32 := defaultTemperature
  topP : F32 := defaultTopP
deriving DecidableEq

/-- `parse_request_body`. -/
def parseRequestBody (lib : StdFloat) (body : StdString) : Throws InferenceRequest := do
  let model ← findJsonStringValue body (bytes "model")
  let model := if model.isEmpty then bytes "llama-7b" else model
  let input ← findJsonStringValue body (bytes "input")
  let input := if input.isEmpty then bytes "hello world" else input
  let maxTokens ← findJsonIntValue body (bytes "max_tokens") 32
  let temperature ← findJsonFloatValue lib body (bytes "temperature") defaultTemperature
  let topP ← findJsonFloatValue lib body (bytes "top_p") defaultTopP
  let maxTokens := if maxTokens ≤ 0 then 32 else maxTokens
  let temperature := if temperature.leZero then defaultTemperature else temperature
  let topP := if topP.leZero then defaultTopP else topP
  let nested ← extractValueFromNestedOptions body (bytes "max_tokens") []
  let maxTokens ← if nested.isEmpty then pure maxTokens else stoi nested
  return { model, input, maxTokens, temperature, topP }

/-! ## What the scanners read -/

/-- The text between the first occurrence of a pattern and the next quote; empty if either is
missing. -/
def quotedAfter (pattern json : StdString) : StdString :=
  match after pattern json with
  | none => []
  | some rest => if quote ∈ rest then upTo quote rest else []

/-- The text of characters from `chars` behind the first occurrence of a pattern. -/
def numeralAfter (chars pattern json : StdString) : StdString :=
  match after pattern json with
  | none => []
  | some rest => rest.takeWhile (· ∈ chars)

/-- The text that is searched for nested options: behind the quote that follows `"options"`. -/
def optionsCandidate (json : StdString) : Option StdString :=
  (after (bytes "\"options\"") json).bind (after [quote])

/-- The string value of a key in the nested options. -/
def nestedValue (json key : StdString) : StdString :=
  match optionsCandidate json with
  | none => []
  | some candidate => quotedAfter (stringKey key) candidate

/-- A numeric text is converted unless it is empty. -/
def convertOr {α : Type} (convert : StdString → Throws α) (fallback : α) (text : StdString) : Throws α :=
  if text = [] then .ok fallback else convert text

theorem quotedAfter_eq_iff {pattern json text : StdString} (hne : text ≠ []) :
    quotedAfter pattern json = text ↔
      ∃ tail, after pattern json = some (text ++ quote :: tail) ∧ quote ∉ text := by
  rw [quotedAfter]
  cases hafter : after pattern json with
  | none =>
    refine ⟨fun h => absurd h.symm hne, ?_⟩
    rintro ⟨_, h, _⟩
    cases h
  | some rest =>
    dsimp only
    by_cases hquote : quote ∈ rest
    · obtain ⟨pre, tail, rfl, hpre⟩ := List.eq_append_cons_of_mem hquote
      rw [if_pos hquote, upTo_append_cons, upTo_of_not_mem hpre]
      constructor
      · rintro rfl
        exact ⟨tail, rfl, hpre⟩
      · rintro ⟨tail', h, htext⟩
        exact eq_of_append_cons_eq hpre htext (Option.some.inj h)
    · rw [if_neg hquote]
      refine ⟨fun h => absurd h.symm hne, ?_⟩
      rintro ⟨tail, h, -⟩
      rw [Option.some.inj h] at hquote
      exact absurd (List.mem_append_right text List.mem_cons_self) hquote

theorem findJsonStringValue_eq (json key : StdString) :
    findJsonStringValue json key = .ok (quotedAfter (stringKey key) json) := by
  rw [findJsonStringValue, find_zero, quotedAfter, after]
  cases hpos : indexOf (stringKey key) json with
  | none => rfl
  | some pos =>
    have hle := add_length_le_of_indexOf_eq_some hpos
    dsimp only [Option.map_some]
    cases hstop : find json [quote] (pos + (stringKey key).length) with
    | none => rw [if_neg (not_mem_of_find_eq_none hle hstop)]
    | some stop =>
      obtain ⟨hmem, hsub⟩ := substr_of_find hle hstop
      dsimp only
      rw [if_pos hmem, hsub]

theorem findJsonNumber_eq {α : Type} (chars : StdString) (convert : StdString → Throws α)
    (json key : StdString) (fallback : α) :
    findJsonNumber chars convert json key fallback =
      convertOr convert fallback (numeralAfter chars (numberKey key) json) := by
  rw [findJsonNumber, find_zero, numeralAfter, after]
  cases hpos : indexOf (numberKey key) json with
  | none => rfl
  | some pos =>
    have hle := add_length_le_of_indexOf_eq_some hpos
    dsimp only [Option.map_some]
    rw [substr_findFirstNotOf chars hle, convertOr]
    simp only [List.isEmpty_iff, bind, Except.bind]

/-- The search for a quote from a position of the text. -/
theorem after_quote_of_find {json : StdString} {pos stop : ℕ} (hpos : pos ≤ json.length)
    (h : find json [quote] pos = some stop) :
    substr json (stop + 1) none = .ok (json.drop (stop + 1)) ∧
      after [quote] (json.drop pos) = some (json.drop (stop + 1)) := by
  have hle := find_add_le h
  rw [List.length_singleton] at hle
  rw [find, if_neg (Nat.not_lt.mpr hpos)] at h
  obtain ⟨j, hj, rfl⟩ := Option.map_eq_some_iff.mp h
  refine ⟨substr_none hle, ?_⟩
  rw [after, hj, Option.map_some, List.drop_drop, List.length_singleton]
  exact congrArg (fun k => some (json.drop k)) (by omega)

theorem extractValueFromNestedOptions_eq (json key : StdString) :
    extractValueFromNestedOptions json key [] = .ok (nestedValue json key) := by
  rw [extractValueFromNestedOptions, find_zero, nestedValue, optionsCandidate, after]
  cases hpos : indexOf (bytes "\"options\"") json with
  | none => rfl
  | some pos =>
    have hle := add_length_le_of_indexOf_eq_some hpos
    dsimp only [Option.map_some, Option.bind_some]
    cases hstart : find json [quote] (pos + (bytes "\"options\"").length) with
    | none =>
      rw [find, if_neg (Nat.not_lt.mpr hle)] at hstart
      rw [after, Option.map_eq_none_iff.mp hstart]
      rfl
    | some start =>
      obtain ⟨hsub, hafter⟩ := after_quote_of_find hle hstart
      dsimp only
      rw [hsub, hafter]
      -- Within the candidate the search is that of `find_json_string_value`.
      exact findJsonStringValue_eq _ key

/-- Where a pattern occurs nowhere, it does not occur in the nested options. -/
theorem nestedValue_eq_nil {json key : StdString} (h : after (stringKey key) json = none) :
    nestedValue json key = [] := by
  unfold nestedValue
  cases hcand : optionsCandidate json with
  | none => rfl
  | some candidate =>
    obtain ⟨rest, hrest, hcand⟩ := Option.bind_eq_some_iff.mp hcand
    have hsuffix := (suffix_of_after_eq_some hcand).trans (suffix_of_after_eq_some hrest)
    dsimp only
    rw [quotedAfter, after_eq_none_of_suffix hsuffix h]

/-! ## What the parser returns -/

/-- The parser in terms of what its scanners read. -/
theorem parseRequestBody_eq (lib : StdFloat) (body : StdString) :
    parseRequestBody lib body = do
      let model := quotedAfter (stringKey (bytes "model")) body
      let input := quotedAfter (stringKey (bytes "input")) body
      let maxTokens ← convertOr stoi 32 (numeralAfter intChars (numberKey (bytes "max_tokens")) body)
      let temperature ← convertOr lib.stof defaultTemperature
        (numeralAfter floatChars (numberKey (bytes "temperature")) body)
      let topP ← convertOr lib.stof defaultTopP
        (numeralAfter floatChars (numberKey (bytes "top_p")) body)
      let maxTokens ← convertOr stoi (if maxTokens ≤ 0 then 32 else maxTokens)
        (nestedValue body (bytes "max_tokens"))
      return {
        model := if model = [] then bytes "llama-7b" else model
        input := if input = [] then bytes "hello world" else input
        maxTokens
        temperature := if temperature.leZero then defaultTemperature else temperature
        topP := if topP.leZero then defaultTopP else topP } := by
  by_cases hnested : nestedValue body (bytes "max_tokens") = [] <;>
    simp only [parseRequestBody, findJsonStringValue_eq, findJsonIntValue, findJsonFloatValue,
      findJsonNumber_eq, extractValueFromNestedOptions_eq, convertOr, List.isEmpty_iff, hnested,
      if_true, if_false, bind, Except.bind, pure, Except.pure]

/-- The `max_tokens` that the parser returns: the nested string if there is one, else the number, with 32
for a missing one and for one that is not positive. -/
theorem parse_maxTokens_iff {lib : StdFloat} {body : StdString} {n : ℤ} :
    (∃ request, parseRequestBody lib body = .ok request ∧ request.maxTokens = n) ↔
      (∃ t, convertOr lib.stof defaultTemperature
        (numeralAfter floatChars (numberKey (bytes "temperature")) body) = .ok t) ∧
      (∃ p, convertOr lib.stof defaultTopP
        (numeralAfter floatChars (numberKey (bytes "top_p")) body) = .ok p) ∧
      ∃ i, convertOr stoi 32 (numeralAfter intChars (numberKey (bytes "max_tokens")) body) = .ok i ∧
        convertOr stoi (if i ≤ 0 then 32 else i) (nestedValue body (bytes "max_tokens")) = .ok n := by
  rw [parseRequestBody_eq]
  constructor
  · rintro ⟨request, h, rfl⟩
    obtain ⟨i, hi, h⟩ := bind_eq_ok.mp h
    obtain ⟨t, ht, h⟩ := bind_eq_ok.mp h
    obtain ⟨p, hp, h⟩ := bind_eq_ok.mp h
    obtain ⟨m, hm, h⟩ := bind_eq_ok.mp h
    cases h
    exact ⟨⟨t, ht⟩, ⟨p, hp⟩, i, hi, hm⟩
  · rintro ⟨⟨t, ht⟩, ⟨p, hp⟩, i, hi, hm⟩
    exact ⟨_, bind_eq_ok.mpr ⟨i, hi, bind_eq_ok.mpr ⟨t, ht, bind_eq_ok.mpr ⟨p, hp,
      bind_eq_ok.mpr ⟨n, hm, rfl⟩⟩⟩⟩, rfl⟩

/-! ## When the parser returns -/

/-- The four numeric texts of a body are empty, so that a fallback is used, or are numbers in range. -/
structure NumbersAccepted (lib : StdFloat) (body : StdString) : Prop where
  maxTokens : numeralAfter intChars (numberKey (bytes "max_tokens")) body = [] ∨
    IsInt (numeralAfter intChars (numberKey (bytes "max_tokens")) body)
  temperature : numeralAfter floatChars (numberKey (bytes "temperature")) body = [] ∨
    ∃ x, lib.stof (numeralAfter floatChars (numberKey (bytes "temperature")) body) = .ok x
  topP : numeralAfter floatChars (numberKey (bytes "top_p")) body = [] ∨
    ∃ x, lib.stof (numeralAfter floatChars (numberKey (bytes "top_p")) body) = .ok x
  nested : nestedValue body (bytes "max_tokens") = [] ∨ IsInt (nestedValue body (bytes "max_tokens"))

theorem convertOr_returns_iff {α : Type} {convert : StdString → Throws α} {fallback : α}
    {text : StdString} :
    (∃ value, convertOr convert fallback text = .ok value) ↔
      text = [] ∨ ∃ value, convert text = .ok value := by
  unfold convertOr
  split
  · exact ⟨fun _ => .inl ‹_›, fun _ => ⟨fallback, rfl⟩⟩
  · exact ⟨.inr, fun h => h.resolve_left ‹_›⟩

/-- The parser returns exactly on bodies whose numeric texts are acceptable. -/
theorem parseRequestBody_returns_iff {lib : StdFloat} {body : StdString} :
    (∃ request, parseRequestBody lib body = .ok request) ↔ NumbersAccepted lib body := by
  rw [parseRequestBody_eq]
  constructor
  · rintro ⟨request, h⟩
    obtain ⟨n, hn, h⟩ := bind_eq_ok.mp h
    obtain ⟨t, ht, h⟩ := bind_eq_ok.mp h
    obtain ⟨p, hp, h⟩ := bind_eq_ok.mp h
    obtain ⟨m, hm, -⟩ := bind_eq_ok.mp h
    refine ⟨?_, convertOr_returns_iff.mp ⟨t, ht⟩, convertOr_returns_iff.mp ⟨p, hp⟩, ?_⟩
    · exact (convertOr_returns_iff.mp ⟨n, hn⟩).imp_right stoi_returns_iff.mp
    · exact (convertOr_returns_iff.mp ⟨m, hm⟩).imp_right stoi_returns_iff.mp
  · rintro ⟨hn, ht, hp, hm⟩
    rw [← stoi_returns_iff] at hn hm
    obtain ⟨n, hn⟩ : ∃ n, convertOr stoi 32 _ = .ok n := convertOr_returns_iff.mpr hn
    obtain ⟨t, ht⟩ : ∃ t, convertOr lib.stof defaultTemperature _ = .ok t :=
      convertOr_returns_iff.mpr ht
    obtain ⟨p, hp⟩ : ∃ p, convertOr lib.stof defaultTopP _ = .ok p := convertOr_returns_iff.mpr hp
    obtain ⟨m, hm⟩ : ∃ m, convertOr stoi (if n ≤ 0 then 32 else n) _ = .ok m :=
      convertOr_returns_iff.mpr hm
    exact ⟨_, bind_eq_ok.mpr ⟨n, hn, bind_eq_ok.mpr ⟨t, ht, bind_eq_ok.mpr ⟨p, hp,
      bind_eq_ok.mpr ⟨m, hm, rfl⟩⟩⟩⟩⟩

end InferenceGateway.Core
