import InferenceGateway.Common.JsonLiterals
import InferenceGateway.Wire.Requests
import InferenceGateway.Wire.Tokens

/-! # Which `max_tokens` counts

Reference: `find_json_int_value`, `extract_value_from_nested_options` and `parse_request_body` in
`inference_core.cpp`; section 4.1 of `docs/cpp-inference-core.html`, by which the nested value has
precedence.

In a compact body, with strings escaped in any way, the scanners see the string literals in their order. The
number that counts is the first `max_tokens` of the body, at whatever depth it stands. The string that may
override it is the first quoted `max_tokens` behind the literal that follows the first `"options"`: the
search for it starts behind the quote that opens that literal, so that literal itself is not found. A key
that is not written plainly is not found either.
-/

namespace InferenceGateway.Wire

open Common InferenceGateway.Core Gateway

/-! ## What is read from a value -/

/-- The characters among `chars` at the start of a number. -/
def numeralOf (chars : String) : SpelledJson → List Char
  | .num literal => literal.text.takeWhile (· ∈ chars.toList)
  | _ => []

/-- The literal of a string. -/
def stringOf : SpelledJson → Option Literal
  | .str literal => some literal
  | _ => none

/-- The text of a literal up to the first quote in it. -/
def rawBody (literal : Literal) : List Char := upTo '"' literal.body

/-- A value that is neither a number nor a string starts with a letter or a bracket. -/
theorem tokens_cases (x : SpelledJson) :
    (∃ literal, x = .num literal) ∨ (∃ literal, x = .str literal) ∨
      ∃ c ts, x.tokens = .char c :: ts ∧ c ∈ ['n', 't', 'f', '[', '{'] ∧ stringOf x = none ∧
        ∀ chars, numeralOf chars x = [] := by
  cases x with
  | null => exact .inr (.inr ⟨'n', _, by rw [SpelledJson.tokens]; rfl, by decide, rfl, fun _ => rfl⟩)
  | bool b =>
    cases b with
    | true => exact .inr (.inr ⟨'t', _, by rw [SpelledJson.tokens]; rfl, by decide, rfl, fun _ => rfl⟩)
    | false => exact .inr (.inr ⟨'f', _, by rw [SpelledJson.tokens]; rfl, by decide, rfl, fun _ => rfl⟩)
  | num literal => exact .inl ⟨literal, rfl⟩
  | str literal => exact .inr (.inl ⟨literal, rfl⟩)
  | arr items =>
    cases items with
    | nil => exact .inr (.inr ⟨'[', _, by rw [SpelledJson.tokens]; rfl, by decide, rfl, fun _ => rfl⟩)
    | cons x xs => exact .inr (.inr ⟨'[', _, by rw [SpelledJson.tokens], by decide, rfl, fun _ => rfl⟩)
  | obj members =>
    cases members with
    | nil => exact .inr (.inr ⟨'{', _, by rw [SpelledJson.tokens]; rfl, by decide, rfl, fun _ => rfl⟩)
    | cons m ms => exact .inr (.inr ⟨'{', _, by rw [SpelledJson.tokens], by decide, rfl, fun _ => rfl⟩)

theorem takeWhile_num {chars : String} (hchars : StopsAtEnd chars) (literal : Numeral) {ts : List Token}
    (hts : EndsValue ts) :
    (literal.text ++ tokensText ts).takeWhile (· ∈ chars.toList) =
      literal.text.takeWhile (· ∈ chars.toList) := by
  have hrest : (tokensText ts).takeWhile (· ∈ chars.toList) = [] := by
    cases hcs : tokensText ts with
    | nil => rfl
    | cons c cs =>
      refine List.takeWhile_cons_of_neg fun h => ?_
      exact hchars.1 c (hts c (by rw [hcs]; rfl)) (of_decide_eq_true h)
  rw [List.takeWhile_append, hrest, List.append_nil]
  split
  · rename_i hlen
    exact ((List.takeWhile_prefix _).eq_of_length hlen).symm
  · rfl

/-- What is read as a number from the text of a value. -/
theorem readsValue_numeralOf {chars : String} (hchars : StopsAtEnd chars) :
    ReadsValue [] (List.takeWhile (· ∈ chars.toList)) (fun x => some (numeralOf chars x)) := by
  intro x ts hts
  rw [if_pos List.nil_prefix, List.length_nil, List.drop_zero]
  refine congrArg some ?_
  rcases tokens_cases x with ⟨literal, rfl⟩ | ⟨literal, rfl⟩ | ⟨c, us, hc, hmem, -, hnone⟩
  · rw [SpelledJson.tokens, tokensText_append, tokensText_charTokens, takeWhile_num hchars literal hts,
      numeralOf]
  · rw [SpelledJson.tokens, List.singleton_append, tokensText_lit, List.takeWhile_cons_of_neg]
    · rfl
    · exact fun h => hchars.2 '"' (by decide) (of_decide_eq_true h)
  · rw [hnone, hc, List.cons_append, tokensText_char, List.takeWhile_cons_of_neg]
    intro h
    refine hchars.2 c ?_ (of_decide_eq_true h)
    exact (by decide : ['n', 't', 'f', '[', '{'] ⊆ ['n', 't', 'f', '"', '[', '{']) hmem

/-- What is read as a string from the text of a value. -/
theorem readsValue_stringOf :
    ReadsValue ['"'] (upTo '"') (fun x => (stringOf x).map rawBody) := by
  intro x ts _
  dsimp only
  rcases tokens_cases x with ⟨literal, rfl⟩ | ⟨literal, rfl⟩ | ⟨c, us, hc, hmem, hnone, -⟩
  · obtain ⟨c, cs, htext, hc⟩ := literal.text_eq_cons
    rw [SpelledJson.tokens, tokensText_append, tokensText_charTokens, htext, List.cons_append, if_neg]
    · rfl
    · intro h
      rw [← (List.cons_prefix_cons.mp h).1] at hc
      exact absurd hc (by decide)
  · rw [SpelledJson.tokens, List.singleton_append, tokensText_lit, if_pos ⟨_, rfl⟩, List.length_singleton,
      List.drop_succ_cons, List.drop_zero, upTo_append_cons]
    rfl
  · rw [hnone, hc, List.cons_append, tokensText_char, if_neg]
    · rfl
    · intro h
      rw [← (List.cons_prefix_cons.mp h).1] at hmem
      exact absurd hmem (by decide)

/-! ## What is read from a list of literals -/

/-- The value of the first member with the key, at any depth. -/
def firstMember (key : String) (ls : List Occurrence) : Option SpelledJson :=
  ls.findSome? (Occurrence.read key some)

/-- The first string that is a member with the key, at any depth. -/
def firstString (key : String) (ls : List Occurrence) : Option Literal :=
  ls.findSome? (Occurrence.read key stringOf)

/-- The literals in which a nested `max_tokens` is searched for: those behind the first `"options"`, but for
the next one if it is spelled as the key. -/
def nestedLiterals (ls : List Occurrence) : List Occurrence :=
  match behind "options" ls with
  | [] => []
  | o :: ls => if o.1.body = "max_tokens".toList then ls else o :: ls

theorem findSome?_read_map {β γ : Type} (key : String) (val : SpelledJson → Option β) (f : β → γ)
    (ls : List Occurrence) :
    ls.findSome? (Occurrence.read key fun x => (val x).map f) =
      (ls.findSome? (Occurrence.read key val)).map f := by
  rw [List.map_findSome?]
  refine congrArg (List.findSome? · ls) (funext fun o => ?_)
  rw [Function.comp_apply, Occurrence.read, Occurrence.read]
  split
  · rw [Option.map_bind]
    rfl
  · rfl

section

variable {ls : List Occurrence} {ts : List Token} (h : Spells ls ts)
include h

theorem numeralBehind_spells {chars : String} (hchars : StopsAtEnd chars) (key : String) :
    numeralBehind chars key ts = ((firstMember key ls).map (numeralOf chars)).getD [] := by
  rw [numeralBehind, h.findKey (readsValue_numeralOf hchars), firstMember, ← findSome?_read_map]
  rfl

theorem stringBehind_spells (key : String) :
    stringBehind key ts = ((firstString key ls).map rawBody).getD [] := by
  rw [stringBehind, h.findKey readsValue_stringOf, firstString, findSome?_read_map]

/-- The nested string that is read from a text. -/
theorem nestedValue_spells :
    nestedValue (utf8 (tokensText ts)) (bytes "max_tokens") =
      utf8 (((firstString "max_tokens" (nestedLiterals ls)).map rawBody).getD []) := by
  have hoptions : bytes "\"options\"" = utf8 (literalPattern "options" []) := rfl
  have hquote : [quote] = utf8 ['"'] := rfl
  rw [nestedValue, optionsCandidate, hoptions, after_utf8_literalPattern (by decide) (by decide),
    after_tokensText (by decide) h.wellFormed, nestedLiterals]
  rcases h.leadsBehind "options" with ⟨us, hus, hfind⟩ | ⟨hbehind, hfind⟩
  · rw [hfind, Option.map_some, Option.bind_some, hquote, after_utf8_map (by decide)]
    cases hls : behind "options" ls with
    | nil =>
      rw [hls] at hus
      rw [after_eq_none (List.cons_ne_nil _ _) (noStart_of_head_not_mem hus.quote_not_mem)]
      rfl
    | cons o os =>
      rw [hls] at hus
      obtain ⟨pre, vs, hpre, htext, ho, hos⟩ := hus.next
      have hafter : after ['"'] (tokensText us) = some (o.1.body ++ '"' :: tokensText vs) := by
        rw [htext, tokensText_lit]
        exact after_of_noStart (noStart_of_head_not_mem hpre)
      rw [hafter, Option.map_some]
      dsimp only
      -- The search starts behind the opening quote of the literal.
      have hsearch := after_literal_tail (by decide : IsIdent "max_tokens") [':', '"'] ho.wellFormed
      by_cases hkey : o.1.body = "max_tokens".toList
      · rw [if_pos hkey] at hsearch
        rw [quotedAfter_of_after (by decide) hos.wellFormed hsearch, stringBehind_spells hos, if_pos hkey]
      · rw [if_neg hkey] at hsearch
        rw [quotedAfter_of_after (by decide) ho.wellFormed hsearch, stringBehind_spells ho, if_neg hkey]
  · rw [hfind, hbehind]
    rfl

end

/-! ## Bodies with nested options -/

/-- A value that is the number, written as a number or as a quoted decimal string. -/
def SpellsNat (x : Json) (n : ℕ) : Prop :=
  (∃ literal, x = .num literal ∧ literal.toNat? = some n) ∨
    ∃ s, x = .str s ∧ s ≠ "" ∧ s.toList.all Char.isDigit = true ∧ Nat.ofDigitChars 10 s.toList 0 = n

/-- A body, with its strings escaped in any way, whose `options` object has a `max_tokens` that is a positive
`int`. -/
structure NestedRequest where
  members : List (Literal × SpelledJson)
  options : List (String × Json)
  nested : field "options" (memberValues members) = some (.obj options)
  n : ℕ
  maxTokens : ∃ x, field "max_tokens" options = some x ∧ SpellsNat x n
  pos : 1 ≤ n
  fits : n < 2 ^ 31

/-- The bytes of the compact body. -/
def NestedRequest.body (r : NestedRequest) : StdString := utf8 (tokensText (SpelledJson.obj r.members).tokens)

/-- The string literals of the body in their order. -/
def NestedRequest.literals (r : NestedRequest) : List Occurrence := (SpelledJson.obj r.members).literals

/-- The nested `max_tokens` is the one that counts. -/
def NestedCounts (lib : StdFloat) (r : NestedRequest) : Prop :=
  ∃ request, parseRequestBody lib r.body = .ok request ∧ request.maxTokens = r.n

/-- The characters of an integer at the start of a number. -/
def integerText (literal : Numeral) : StdString := utf8 (numeralOf "0123456789-" (.num literal))

/-- The text up to the first quote in the first quoted `max_tokens` that is found as a nested one; empty if
there is none. -/
def NestedRequest.quotedText (r : NestedRequest) : StdString :=
  utf8 (((firstString "max_tokens" (nestedLiterals r.literals)).map rawBody).getD [])

/-- The numbers that are found are accepted. If a quoted `max_tokens` is found as a nested one, it is the
number in the options. If not, the first `max_tokens` of the body is that number; or it is 32, and the first
`max_tokens` is no number or none that is positive. -/
structure FindsNested (lib : StdFloat) (r : NestedRequest) : Prop where
  temperature : ∀ literal, firstMember "temperature" r.literals = some (.num literal) →
    ∃ x, lib.stof (utf8 literal.text) = .ok x
  topP : ∀ literal, firstMember "top_p" r.literals = some (.num literal) →
    ∃ x, lib.stof (utf8 literal.text) = .ok x
  accepted : ∀ literal, firstMember "max_tokens" r.literals = some (.num literal) →
    ∃ i, stoi (integerText literal) = .ok i
  quoted : r.quotedText ≠ [] → stoi r.quotedText = .ok (r.n : ℤ)
  first : r.quotedText = [] →
    (∃ literal, firstMember "max_tokens" r.literals = some (.num literal) ∧
      stoi (integerText literal) = .ok (r.n : ℤ)) ∨
    r.n = 32 ∧ ∀ literal i, firstMember "max_tokens" r.literals = some (.num literal) →
      stoi (integerText literal) = .ok i → i ≤ 0

theorem NestedRequest.spells (r : NestedRequest) :
    Spells r.literals (SpelledJson.obj r.members).tokens := by
  have h := spells_tokens (.obj r.members) .nil (nofun : EndsValue [])
  rwa [List.append_nil, List.append_nil] at h

/-- The request with the usual escapes. -/
def NestedRequest.printed (members options : List (String × Json)) (n : ℕ)
    (nested : field "options" members = some (.obj options))
    (maxTokens : ∃ x, field "max_tokens" options = some x ∧ SpellsNat x n) (pos : 1 ≤ n)
    (fits : n < 2 ^ 31) : NestedRequest where
  members := spelledMembers members
  options := options
  nested := by rwa [memberValues_spelledMembers]
  n := n
  maxTokens := maxTokens
  pos := pos
  fits := fits

/-- Its body is what a printer writes. -/
theorem NestedRequest.printed_body {members options : List (String × Json)} {n : ℕ}
    (nested : field "options" members = some (.obj options))
    (maxTokens : ∃ x, field "max_tokens" options = some x ∧ SpellsNat x n) (pos : 1 ≤ n)
    (fits : n < 2 ^ 31) :
    (printed members options n nested maxTokens pos fits).body = utf8 (Json.obj members).compact := by
  rw [← tokensText_ofJson, SpelledJson.ofJson]
  rfl

/-- The text of a number begins with a digit or a sign, so something is read from it. -/
theorem numeralOf_ne_nil (literal : Numeral) : numeralOf "0123456789-" (.num literal) ≠ [] := by
  obtain ⟨c, rest, htext, hc⟩ := literal.text_eq_cons
  have hmem : c ∈ "0123456789-".toList := by
    rcases hc with hc | rfl
    · exact List.mem_append_left ['-'] (mem_of_isDigit hc)
    · decide
  rw [numeralOf, htext, List.takeWhile_cons_of_pos]
  · exact List.cons_ne_nil _ _
  · exact decide_eq_true hmem

/-- The whole text of a number is read as a float. -/
theorem numeralOf_float (literal : Numeral) :
    numeralOf "0123456789.-+eE" (.num literal) = literal.text := by
  rw [numeralOf, List.takeWhile_eq_self_iff]
  exact fun d hd => decide_eq_true (mem_floatChars literal d hd)

/-! ## The member that counts -/

/-- What is read from a member is converted if the member is a number. -/
theorem convertOr_numeralOf {α : Type} (convert : StdString → Throws α) (fallback : α) {chars : String}
    (hne : ∀ literal, numeralOf chars (.num literal) ≠ []) (x : Option SpelledJson) :
    (∃ literal, x = some (.num literal) ∧
      convertOr convert fallback (utf8 ((x.map (numeralOf chars)).getD [])) =
        convert (utf8 (numeralOf chars (.num literal)))) ∨
    (∀ literal, x ≠ some (.num literal)) ∧
      convertOr convert fallback (utf8 ((x.map (numeralOf chars)).getD [])) = .ok fallback := by
  cases x with
  | none =>
    refine .inr ⟨fun _ h => ?_, rfl⟩
    cases h
  | some x =>
    cases x with
    | num literal =>
      refine .inl ⟨literal, rfl, ?_⟩
      rw [Option.map_some, Option.getD_some, convertOr, if_neg fun h => hne literal (utf8_eq_nil_iff.mp h)]
    | _ =>
      refine .inr ⟨fun _ h => ?_, rfl⟩
      cases h

/-- A float is found to be acceptable, or is no number. -/
theorem convertOr_float_returns_iff (lib : StdFloat) (fallback : F32) (x : Option SpelledJson) :
    (∃ t, convertOr lib.stof fallback (utf8 ((x.map (numeralOf "0123456789.-+eE")).getD [])) = .ok t) ↔
      ∀ literal, x = some (.num literal) → ∃ t, lib.stof (utf8 literal.text) = .ok t := by
  have hne (literal : Numeral) : numeralOf "0123456789.-+eE" (.num literal) ≠ [] := by
    rw [numeralOf_float]
    exact literal.text_ne_nil
  rcases convertOr_numeralOf lib.stof fallback hne x with ⟨literal, rfl, hconv⟩ | ⟨hnone, hconv⟩
  · rw [hconv, numeralOf_float]
    exact ⟨fun h _ heq => by cases heq; exact h, fun h => h literal rfl⟩
  · rw [hconv]
    exact ⟨fun _ literal heq => absurd heq (hnone literal), fun _ => ⟨fallback, rfl⟩⟩

/-- Whether the string that overrides a number leaves `n`. -/
theorem convertOr_nested_iff {i : ℤ} {nested : StdString} {n : ℕ} (hpos : 1 ≤ n) :
    convertOr stoi (if i ≤ 0 then 32 else i) nested = .ok (n : ℤ) ↔
      (nested ≠ [] → stoi nested = .ok (n : ℤ)) ∧ (nested = [] → i = n ∨ n = 32 ∧ i ≤ 0) := by
  unfold convertOr
  by_cases hnested : nested = []
  · have hfallback : (if i ≤ 0 then 32 else i) = (n : ℤ) ↔ i = n ∨ n = 32 ∧ i ≤ 0 := by
      split <;> omega
    rw [if_pos hnested, Except.ok.injEq, hfallback]
    exact ⟨fun h => ⟨fun hne => absurd hnested hne, fun _ => h⟩, fun h => h.2 hnested⟩
  · rw [if_neg hnested]
    exact ⟨fun h => ⟨fun _ => h, fun heq => absurd heq hnested⟩, fun h => h.1 hnested⟩

/-- Whether the number that is read first and the string that overrides it leave `n`. -/
theorem convertOr_maxTokens_iff (x : Option SpelledJson) {nested : StdString} {n : ℕ} (hpos : 1 ≤ n) :
    (∃ i, convertOr stoi 32 (utf8 ((x.map (numeralOf "0123456789-")).getD [])) = .ok i ∧
      convertOr stoi (if i ≤ 0 then 32 else i) nested = .ok (n : ℤ)) ↔
    (∀ literal, x = some (.num literal) → ∃ i, stoi (integerText literal) = .ok i) ∧
    (nested ≠ [] → stoi nested = .ok (n : ℤ)) ∧
    (nested = [] →
      (∃ literal, x = some (.num literal) ∧ stoi (integerText literal) = .ok (n : ℤ)) ∨
      n = 32 ∧ ∀ literal i, x = some (.num literal) → stoi (integerText literal) = .ok i → i ≤ 0) := by
  rcases convertOr_numeralOf stoi 32 numeralOf_ne_nil x with ⟨literal, rfl, hconv⟩ | ⟨hnone, hconv⟩
  · rw [hconv, ← integerText]
    constructor
    · rintro ⟨i, hi, h⟩
      obtain ⟨hquoted, hfirst⟩ := (convertOr_nested_iff hpos).mp h
      refine ⟨fun _ heq => ?_, hquoted, fun hnested => ?_⟩
      · cases heq
        exact ⟨i, hi⟩
      · refine (hfirst hnested).imp (fun hn => ⟨literal, rfl, by rw [hi, hn]⟩) fun hn => ⟨hn.1, ?_⟩
        intro _ j heq hj
        cases heq
        cases hi.symm.trans hj
        exact hn.2
    · rintro ⟨haccepted, hquoted, hfirst⟩
      obtain ⟨i, hi⟩ := haccepted literal rfl
      refine ⟨i, hi, (convertOr_nested_iff hpos).mpr ⟨hquoted, fun hnested => ?_⟩⟩
      refine (hfirst hnested).imp (fun h => ?_) fun h => ⟨h.1, h.2 literal i rfl hi⟩
      obtain ⟨_, heq, hn⟩ := h
      cases heq
      exact Except.ok.inj (hi.symm.trans hn)
  · rw [hconv]
    constructor
    · rintro ⟨i, hi, h⟩
      cases hi
      obtain ⟨hquoted, hfirst⟩ := (convertOr_nested_iff hpos).mp h
      refine ⟨fun literal heq => absurd heq (hnone literal), hquoted, fun hnested => .inr ⟨?_, ?_⟩⟩
      · have := hfirst hnested
        omega
      · exact fun literal _ heq => absurd heq (hnone literal)
    · rintro ⟨-, hquoted, hfirst⟩
      refine ⟨32, rfl, (convertOr_nested_iff hpos).mpr ⟨hquoted, fun hnested => .inl ?_⟩⟩
      rcases hfirst hnested with ⟨literal, heq, -⟩ | ⟨hn, -⟩
      · exact absurd heq (hnone literal)
      · rw [hn]
        rfl

/-- The nested `max_tokens` counts exactly if the scanners find it: as the first quoted one behind the
literal that follows the first `"options"`, or, where there is none, as the first of the body. -/
theorem nestedCounts_iff (lib : StdFloat) (r : NestedRequest) : NestedCounts lib r ↔ FindsNested lib r := by
  have hspells := r.spells
  have hint : numeralAfter intChars (numberKey (bytes "max_tokens")) r.body =
      utf8 (((firstMember "max_tokens" r.literals).map (numeralOf "0123456789-")).getD []) := by
    rw [NestedRequest.body, intChars, numeralAfter_tokensText (by decide) hspells.wellFormed (by decide),
      numeralBehind_spells hspells stopsAtEnd_int]
  have hfloat {key : String} (hkey : IsIdent key) :
      numeralAfter floatChars (numberKey (bytes key)) r.body =
        utf8 (((firstMember key r.literals).map (numeralOf "0123456789.-+eE")).getD []) := by
    rw [NestedRequest.body, floatChars, numeralAfter_tokensText hkey hspells.wellFormed (by decide),
      numeralBehind_spells hspells stopsAtEnd_float]
  have hnested : nestedValue r.body (bytes "max_tokens") = r.quotedText := by
    rw [NestedRequest.body, nestedValue_spells hspells, NestedRequest.quotedText]
  rw [NestedCounts, parse_maxTokens_iff, hint, hfloat (by decide), hfloat (by decide), hnested,
    convertOr_float_returns_iff, convertOr_float_returns_iff, convertOr_maxTokens_iff _ r.pos]
  exact ⟨fun ⟨ht, hp, ha, hq, hf⟩ => ⟨ht, hp, ha, hq, hf⟩,
    fun h => ⟨h.temperature, h.topP, h.accepted, h.quoted, h.first⟩⟩

/-! ### Concrete bodies -/

/-- A decimal number as a number. -/
theorem spellsNat_num (n : ℕ) : SpellsNat (.num (.ofNat n)) n := .inl ⟨_, rfl, Numeral.toNat?_ofNat n⟩

/-- The body `{"max_tokens":16,"options":{"max_tokens":64}}`. -/
def outerFirst : NestedRequest :=
  .printed [("max_tokens", .num (.ofNat 16)), ("options", .obj [("max_tokens", .num (.ofNat 64))])]
    [("max_tokens", .num (.ofNat 64))] 64 rfl ⟨_, rfl, spellsNat_num 64⟩ (by decide) (by decide)

/-- The body `{"options":{"max_tokens":"64"}}`. -/
def quotedAlone : NestedRequest :=
  .printed [("options", .obj [("max_tokens", .str "64")])] [("max_tokens", .str "64")] 64 rfl
    ⟨_, rfl, .inr ⟨_, rfl, by decide, by decide, by decide⟩⟩ (by decide) (by decide)

/-- The body `{"options":{"max_tokens":64},"max_tokens":16}`. -/
def optionsFirst : NestedRequest :=
  .printed [("options", .obj [("max_tokens", .num (.ofNat 64))]), ("max_tokens", .num (.ofNat 16))]
    [("max_tokens", .num (.ofNat 64))] 64 rfl ⟨_, rfl, spellsNat_num 64⟩ (by decide) (by decide)

/-- The body `{"max_tokens":16,"options":{"stream":true,"max_tokens":"64"}}`. -/
def quotedSecond : NestedRequest :=
  .printed
    [("max_tokens", .num (.ofNat 16)), ("options", .obj [("stream", .bool true), ("max_tokens", .str "64")])]
    [("stream", .bool true), ("max_tokens", .str "64")] 64 rfl
    ⟨_, rfl, .inr ⟨_, rfl, by decide, by decide, by decide⟩⟩ (by decide) (by decide)

/-- The nested number counts if it stands before every other one, and the nested string if it does not stand
first in the options. -/
theorem nested_maxTokens_counts :
    NestedCounts halfFloat optionsFirst ∧ NestedCounts halfFloat quotedSecond := by
  have hparse (r : NestedRequest) (h : parseRequestBody halfFloat r.body = .ok { maxTokens := r.n }) :
      NestedCounts halfFloat r := ⟨_, h, rfl⟩
  exact ⟨hparse optionsFirst (by decide +kernel), hparse quotedSecond (by decide +kernel)⟩

/-- A number before the options counts instead of the nested number, and a quoted nested number that is the
first member of the options is not found. -/
theorem nested_maxTokens_lost :
    ((∃ request, parseRequestBody halfFloat outerFirst.body = .ok request ∧ request.maxTokens = 16) ∧
      ¬NestedCounts halfFloat outerFirst) ∧
    (∃ request, parseRequestBody halfFloat quotedAlone.body = .ok request ∧ request.maxTokens = 32) ∧
      ¬NestedCounts halfFloat quotedAlone := by
  have hparse (r : NestedRequest) {k : ℤ} (hk : k ≠ r.n)
      (h : parseRequestBody halfFloat r.body = .ok { maxTokens := k }) :
      (∃ request, parseRequestBody halfFloat r.body = .ok request ∧ request.maxTokens = k) ∧
        ¬NestedCounts halfFloat r := by
    refine ⟨⟨_, h, rfl⟩, ?_⟩
    rintro ⟨request, hrequest, hn⟩
    cases h.symm.trans hrequest
    exact hk hn
  exact ⟨hparse outerFirst (by decide) (by decide +kernel),
    hparse quotedAlone (by decide) (by decide +kernel)⟩

end InferenceGateway.Wire
