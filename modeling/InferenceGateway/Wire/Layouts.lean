import InferenceGateway.Common.JsonLayout
import InferenceGateway.Wire.Requests
import InferenceGateway.Wire.Tokens

/-! # One request in different layouts

Reference: `find_json_string_value`, `find_json_int_value`, `find_json_float_value` and
`parse_request_body` in `inference_core.cpp`; the request under "API contract" in the `README.md` beside
it.

A JSON encoding of an `InferRequest` has the members of the object in any order, with any whitespace
between its tokens. Each scanner finds its member wherever it stands, but only if it is tight: the key
written plainly, and no whitespace around its colon. A member that is not tight is as good as missing. So
two encodings of a request are parsed alike exactly if each field is tight in both, or in neither, or has
the value that stands in for a missing one.
-/

namespace InferenceGateway.Wire

open Common InferenceGateway.Core Gateway

/-! ## Requests as unordered objects -/

/-- `null`, a number or a string. -/
inductive Scalar
  | null
  | num (literal : Numeral)
  | str (literal : Literal)
deriving DecidableEq

/-- The value of a member, without its layout. -/
inductive Value
  | scalar (s : Scalar)
  | object (members : Multiset (Literal × Scalar))
deriving DecidableEq

/-- A literal that stands for the name of a member. -/
def Key (name : String) : Type := {literal : Literal // literal.value = name}

/-- The members of an `InferOptions` object: each may be missing or `null`. -/
structure OptionsObject where
  maxTokens : Option (Key "max_tokens" × Option UInt32)
  temperature : Option (Key "temperature" × Option Numeral)
  topP : Option (Key "top_p" × Option Numeral)

/-- The members of an `InferRequest` object. -/
structure RequestObject where
  model : Key "model" × Literal
  input : Key "input" × Literal
  options : Option (Key "options" × Option OptionsObject)
  requestId : Option (Key "request_id" × Option Literal)

/-- A number or `null`. -/
def numScalar : Option Numeral → Scalar
  | none => .null
  | some numeral => .num numeral

/-- A string or `null`. -/
def strScalar : Option Literal → Scalar
  | none => .null
  | some literal => .str literal

/-- The numeral of an optional integer. -/
def u32Numeral (n : Option UInt32) : Option Numeral := n.map fun n => Numeral.ofNat n.toNat

/-- A member, if it is there. -/
def optionalMember {name : String} {α β : Type} (f : α → β) : Option (Key name × α) → List (Literal × β)
  | none => []
  | some (key, a) => [(key.val, f a)]

/-- The members of the options. -/
def OptionsObject.members (o : OptionsObject) : List (Literal × Scalar) :=
  optionalMember (fun n => numScalar (u32Numeral n)) o.maxTokens ++
    (optionalMember numScalar o.temperature ++ optionalMember numScalar o.topP)

/-- The options or `null`. -/
def optionsValue : Option OptionsObject → Value
  | none => .scalar .null
  | some o => .object o.members

/-- The members that may be missing. -/
def RequestObject.optionalMembers (o : RequestObject) : List (Literal × Value) :=
  optionalMember optionsValue o.options ++ optionalMember (fun l => .scalar (strScalar l)) o.requestId

/-- The members of a request. -/
def RequestObject.members (o : RequestObject) : List (Literal × Value) :=
  (o.model.1.val, .scalar (.str o.model.2)) :: (o.input.1.val, .scalar (.str o.input.2)) ::
    o.optionalMembers

/-- The members but for the options. -/
def RequestObject.scalarMembers (o : RequestObject) : List (Literal × Value) :=
  (o.model.1.val, .scalar (.str o.model.2)) :: (o.input.1.val, .scalar (.str o.input.2)) ::
    optionalMember (fun l => .scalar (strScalar l)) o.requestId

/-- `max_tokens`, if the request has it. -/
def RequestObject.maxTokens (o : RequestObject) : Option UInt32 :=
  o.options.bind fun p => p.2.bind fun o => o.maxTokens.bind Prod.snd

/-- `temperature`, if the request has it. -/
def RequestObject.temperature (o : RequestObject) : Option Numeral :=
  o.options.bind fun p => p.2.bind fun o => o.temperature.bind Prod.snd

/-- `top_p`, if the request has it. -/
def RequestObject.topP (o : RequestObject) : Option Numeral :=
  o.options.bind fun p => p.2.bind fun o => o.topP.bind Prod.snd

/-! ## Encodings -/

/-- The value of a member in some layout. -/
inductive LaidValue
  | scalar (s : Scalar)
  | object (o : LaidObject Scalar)

/-- The value without its layout. -/
def LaidValue.content : LaidValue → Value
  | .scalar s => .scalar s
  | .object o => .object (o.content id)

/-- The members of a value. -/
def LaidValue.members : LaidValue → List (LaidMember Scalar)
  | .scalar _ => []
  | .object o => o.members

/-- A JSON text of an object. -/
structure Encoding where
  before : Gap
  object : LaidObject LaidValue
  after : Gap

/-- What is encoded: everything but the order of the members and the whitespace. -/
def Encoding.content (e : Encoding) : Multiset (Literal × Value) := e.object.content LaidValue.content

/-- The text encodes the request. -/
def Encoding.Encodes (e : Encoding) (o : RequestObject) : Prop := e.content = o.members

/-- The tokens of a scalar. -/
def Scalar.tokens : Scalar → List Token
  | .null => charTokens "null".toList
  | .num literal => charTokens literal.text
  | .str literal => [.lit literal.body]

/-- The tokens of a value. -/
def LaidValue.tokens : LaidValue → List Token
  | .scalar s => s.tokens
  | .object o => o.tokens Scalar.tokens

/-- The tokens of an encoding. -/
def Encoding.tokens (e : Encoding) : List Token :=
  charTokens e.before.chars ++ (e.object.tokens LaidValue.tokens ++ charTokens e.after.chars)

/-- The bytes of an encoding. -/
def Encoding.bytes (e : Encoding) : StdString := utf8 (tokensText e.tokens)

/-- A member with the key, of the request or of its options, is tight. -/
def Encoding.Tight (e : Encoding) (key : String) : Prop :=
  ∃ m ∈ e.object.members, m.IsTight key ∨ ∃ n ∈ m.value.members, n.IsTight key

instance (e : Encoding) (key : String) : Decidable (e.Tight key) := List.decidableBEx _ _

/-- Both encodings are parsed, and to the same request. -/
def SameParse (lib : StdFloat) (e₁ e₂ : Encoding) : Prop :=
  ∃ request, parseRequestBody lib e₁.bytes = .ok request ∧ parseRequestBody lib e₂.bytes = .ok request

/-! ## The text is well formed -/

theorem wellFormed_scalar : ValuesWellFormed Scalar.tokens := by
  intro s ts hts hend
  cases s with
  | null => exact wellFormed_charTokens (by decide) hts
  | num literal =>
    refine wellFormed_charTokens (fun hmem => ?_) hts
    cases List.all_eq_true.mp literal.chars _ hmem
  | str literal => exact ⟨literal.readsTo.1, hend.not_joinsLiteral, hts⟩

theorem wellFormed_value : ValuesWellFormed LaidValue.tokens := by
  intro v ts hts hend
  cases v with
  | scalar s => exact wellFormed_scalar s ts hts hend
  | object o => exact o.wellFormed wellFormed_scalar hts

theorem Encoding.wellFormed (e : Encoding) : WellFormed e.tokens := by
  have hafter : WellFormed (charTokens e.after.chars ++ []) :=
    wellFormed_charTokens e.after.quote_not_mem trivial
  rw [List.append_nil] at hafter
  exact wellFormed_charTokens e.before.quote_not_mem (e.object.wellFormed wellFormed_value hafter)

/-! ## Members that a scanner passes over -/

/-- A member of the request with another key, and with options that do not have the key either. -/
def OtherMember (key : String) (p : Literal × Value) : Prop :=
  IsIdent p.1.value ∧ p.1.value ≠ key ∧
    ∀ ms, p.2 = .object ms → ∀ q ∈ ms, IsIdent q.1.value ∧ q.1.value ≠ key

section Scanning

variable {key : String} {suffix : List Char}

theorem skips_scalar (s : Scalar) : Skips key (':' :: suffix) s.tokens := by
  cases s with
  | null => exact skips_charTokens _
  | num literal => exact skips_charTokens _
  | str literal => exact skips_lit _

variable (hkey : IsIdent key)
include hkey

theorem skips_other {m : LaidMember LaidValue} (h : OtherMember key (m.key, m.value.content)) :
    Skips key (':' :: suffix) (m.tokens LaidValue.tokens) := by
  obtain ⟨hident, hne, hinner⟩ := h
  refine m.skips_of_ne hkey hident hne ?_
  cases hv : m.value with
  | scalar s => exact skips_scalar s
  | object o =>
    refine o.skips fun n hn => ?_
    obtain ⟨hi, hn'⟩ := hinner _ (by rw [hv]; rfl) _ (LaidObject.mem_content id hn)
    exact n.skips_of_ne hkey hi hn' (skips_scalar n.value)

theorem not_isTight_other {m : LaidMember LaidValue} (h : OtherMember key (m.key, m.value.content)) :
    ¬ (m.IsTight key ∨ ∃ n ∈ m.value.members, n.IsTight key) := by
  obtain ⟨hident, hne, hinner⟩ := h
  rintro (hm | ⟨n, hn, htight⟩)
  · exact m.not_isTight_of_ne hkey hident hne hm
  · cases hv : m.value with
    | scalar s =>
      rw [hv] at hn
      cases hn
    | object o =>
      rw [hv] at hn
      obtain ⟨hi, hn'⟩ := hinner _ (by rw [hv]; rfl) _ (LaidObject.mem_content id hn)
      exact n.not_isTight_of_ne hkey hi hn' htight

/-- Without a member that has the key, nothing is found. -/
theorem findKey_of_others (suffix : List Char) {e : Encoding} (h : ∀ p ∈ e.content, OtherMember key p) :
    findKey key (':' :: suffix) e.tokens = none ∧ ¬ e.Tight key := by
  constructor
  · have hskip : Skips key (':' :: suffix) (e.object.tokens LaidValue.tokens) :=
      e.object.skips fun m hm => skips_other hkey (h _ (LaidObject.mem_content LaidValue.content hm))
    have hend : EndsValue (charTokens e.after.chars ++ []) := e.after.endsValue (nofun : EndsValue [])
    rw [List.append_nil] at hend
    rw [Encoding.tokens, findKey_charTokens, hskip _ hend, ← List.append_nil (charTokens e.after.chars),
      findKey_charTokens, findKey]
  · rintro ⟨m, hm, htight⟩
    exact not_isTight_other hkey (h _ (LaidObject.mem_content LaidValue.content hm)) htight

/-- With one member that may have the key, the search is that on this member, and the key is tight exactly
if it is tight there. -/
theorem findKey_of_split (suffix : List Char) {e : Encoding} {k : Literal} {v : Value} {others : Multiset (Literal × Value)}
    (h : e.content = (k, v) ::ₘ others) (hothers : ∀ p ∈ others, OtherMember key p) :
    ∃ m ∈ e.object.members, m.key = k ∧ m.value.content = v ∧
      (e.Tight key ↔ m.IsTight key ∨ ∃ n ∈ m.value.members, n.IsTight key) ∧
      ∃ us, EndsValue us ∧ findKey key (':' :: suffix) us = none ∧
        findKey key (':' :: suffix) e.tokens =
          findKey key (':' :: suffix) (m.tokens LaidValue.tokens ++ us) := by
  obtain ⟨pre, m, post, hsplit, hm, hrest⟩ := LaidObject.exists_split h
  obtain ⟨rfl, rfl⟩ := Prod.mk.inj hm
  have hmem : m ∈ e.object.members := hsplit ▸ List.mem_append_right pre List.mem_cons_self
  have hpre : ∀ n ∈ pre, OtherMember key (n.key, n.value.content) :=
    fun n hn => hothers _ (hrest n (List.mem_append_left post hn))
  have hpost : ∀ n ∈ post, OtherMember key (n.key, n.value.content) :=
    fun n hn => hothers _ (hrest n (List.mem_append_right pre hn))
  obtain ⟨us, hend, hus, hfind⟩ := LaidObject.findKey_tokens (':' :: suffix) hsplit
    (fun n hn => skips_other hkey (hpre n hn)) (fun n hn => skips_other hkey (hpost n hn))
    (charTokens e.after.chars)
  refine ⟨m, hmem, rfl, rfl, ⟨?_, fun htight => ⟨m, hmem, htight⟩⟩, us, hend, ?_, ?_⟩
  · rintro ⟨n, hn, htight⟩
    rw [hsplit, List.mem_append, List.mem_cons] at hn
    rcases hn with hn | rfl | hn
    · exact absurd htight (not_isTight_other hkey (hpre n hn))
    · exact htight
    · exact absurd htight (not_isTight_other hkey (hpost n hn))
  · rw [hus, ← List.append_nil (charTokens e.after.chars), findKey_charTokens, findKey]
  · rw [Encoding.tokens, findKey_charTokens, hfind]

/-- A string of the request is read exactly if its member is tight. -/
theorem stringBehind_of_split {e : Encoding} {k l : Literal} {others : Multiset (Literal × Value)}
    (h : e.content = (k, .scalar (.str l)) ::ₘ others) (hothers : ∀ p ∈ others, OtherMember key p)
    (hk : k.value = key) :
    stringBehind key e.tokens = if e.Tight key then upTo '"' l.body else [] := by
  obtain ⟨m, -, rfl, hv, htight, us, hend, hus, hfind⟩ :=
    findKey_of_split hkey ['"'] h hothers
  cases hvalue : m.value with
  | object o =>
    rw [hvalue] at hv
    cases hv
  | scalar s =>
    rw [hvalue] at hv
    cases hv
    have htext : tokensText (m.behindKey LaidValue.tokens ++ us) = m.beforeColon.chars ++
        ':' :: (m.afterColon.chars ++ '"' :: (l.body ++ '"' :: (m.after.chars ++ tokensText us))) := by
      rw [tokensText_behindKey, hvalue]
      simp [LaidValue.tokens, Scalar.tokens]
    have hiff : (EndsAs key m.key.body ∧ [':', '"'] <+: tokensText (m.behindKey LaidValue.tokens ++ us)) ↔
        e.Tight key := by
      rw [htight, hvalue, m.colonQuote_prefix_iff, hvalue]
      constructor
      · rintro ⟨hends, hbefore, hafter, -⟩
        exact .inl ⟨(Literal.value_eq (hk ▸ hkey) hkey hends).1, hbefore, hafter⟩
      · rintro (⟨hbody, hbefore, hafter⟩ | ⟨n, hn, -⟩)
        · exact ⟨hbody ▸ endsAs_self key, hbefore, hafter, by simp [LaidValue.tokens, Scalar.tokens]⟩
        · cases hn
    rw [stringBehind, hfind, findKey_member, findKey]
    by_cases he : e.Tight key
    · obtain ⟨-, hpre⟩ := hiff.mpr he
      obtain ⟨hbefore, hafter, -⟩ := (m.colonQuote_prefix_iff us).mp hpre
      rw [if_pos (hiff.mpr he), if_pos he, htext, hbefore, hafter]
      exact upTo_append_cons _ _ _
    · have hskip : Skips key [':', '"'] (Scalar.str l).tokens := skips_scalar _
      rw [if_neg (mt hiff.mp he), if_neg he, LaidMember.behindKey, hvalue]
      simp only [List.append_assoc, List.cons_append, findKey_charTokens, findKey, LaidValue.tokens]
      rw [hskip _ (m.after.endsValue hend), findKey_charTokens, hus]
      rfl

omit hkey in
/-- From a number, all of it is read; from `null`, nothing. -/
theorem takeWhile_numScalar {chars : String} (hchars : StopsAtEnd chars)
    {x : Option Numeral} (hx : ∀ numeral ∈ x, ∀ c ∈ numeral.text, c ∈ chars.toList) {ts : List Token}
    (hts : EndsValue ts) :
    (tokensText ((numScalar x).tokens ++ ts)).takeWhile (· ∈ chars.toList) = numeralText x := by
  cases x with
  | none =>
    have hnull : tokensText ((numScalar none).tokens ++ ts) = 'n' :: ("ull".toList ++ tokensText ts) := by
      simp [numScalar, Scalar.tokens]
    rw [hnull, List.takeWhile_cons_of_neg]
    · rfl
    · exact fun h => hchars.2 'n' List.mem_cons_self (of_decide_eq_true h)
  | some numeral =>
    have htext : tokensText ((numScalar (some numeral)).tokens ++ ts) = numeral.text ++ tokensText ts := by
      simp [numScalar, Scalar.tokens]
    rw [htext, List.takeWhile_append_of_pos fun c hc => decide_eq_true (hx numeral rfl c hc)]
    cases hrest : tokensText ts with
    | nil => rw [List.takeWhile_nil, List.append_nil]; rfl
    | cons c cs =>
      have hc : endsValue c = true := hts c (by rw [hrest]; rfl)
      rw [List.takeWhile_cons_of_neg, List.append_nil]
      · rfl
      · exact fun h => hchars.1 c hc (of_decide_eq_true h)

/-- With one member of the options that may have the key, the search is that on this member, and the key is
tight exactly if it is tight there. -/
theorem findKey_of_nested (suffix : List Char) {e : Encoding} {k l : Literal} {s : Scalar}
    {ms : Multiset (Literal × Scalar)} {others : Multiset (Literal × Value)}
    (h : e.content = (l, .object ((k, s) ::ₘ ms)) ::ₘ others)
    (hothers : ∀ p ∈ others, OtherMember key p) (hl : IsIdent l.value ∧ l.value ≠ key)
    (hms : ∀ q ∈ ms, IsIdent q.1.value ∧ q.1.value ≠ key) :
    ∃ n : LaidMember Scalar, n.key = k ∧ n.value = s ∧ (e.Tight key ↔ n.IsTight key) ∧
      ∃ us, EndsValue us ∧ findKey key (':' :: suffix) us = none ∧
        findKey key (':' :: suffix) e.tokens =
          findKey key (':' :: suffix) (n.tokens Scalar.tokens ++ us) := by
  obtain ⟨m, -, rfl, hv, htight, us, -, hus, hfind⟩ := findKey_of_split hkey suffix h hothers
  cases hvalue : m.value with
  | scalar s =>
    rw [hvalue] at hv
    cases hv
  | object o =>
    rw [hvalue] at hv htight
    obtain ⟨pre, n, post, hsplit, hn, hrest⟩ := LaidObject.exists_split (Value.object.inj hv)
    obtain ⟨hnkey, hnvalue⟩ := Prod.mk.inj hn
    have hpre : ∀ q ∈ pre, IsIdent q.key.value ∧ q.key.value ≠ key :=
      fun q hq => hms _ (hrest q (List.mem_append_left post hq))
    have hpost : ∀ q ∈ post, IsIdent q.key.value ∧ q.key.value ≠ key :=
      fun q hq => hms _ (hrest q (List.mem_append_right pre hq))
    have hskip {q : LaidMember Scalar} (hq : IsIdent q.key.value ∧ q.key.value ≠ key) :
        Skips key (':' :: suffix) (q.tokens Scalar.tokens) :=
      q.skips_of_ne hkey hq.1 hq.2 (skips_scalar q.value)
    obtain ⟨vs, hvs, hnone, hinner⟩ := LaidObject.findKey_tokens (':' :: suffix) hsplit
      (fun q hq => hskip (hpre q hq)) (fun q hq => hskip (hpost q hq)) (charTokens m.after.chars ++ us)
    rw [findKey_charTokens, hus] at hnone
    refine ⟨n, hnkey, hnvalue, htight.trans ⟨?_, fun hn => .inr ⟨n, ?_, hn⟩⟩, vs, hvs, hnone, ?_⟩
    · rintro (hm | ⟨q, hq, hq'⟩)
      · exact absurd hm (m.not_isTight_of_ne hkey hl.1 hl.2)
      · rw [LaidValue.members, hsplit, List.mem_append, List.mem_cons] at hq
        rcases hq with hq | rfl | hq
        · exact absurd hq' (q.not_isTight_of_ne hkey (hpre q hq).1 (hpre q hq).2)
        · exact hq'
        · exact absurd hq' (q.not_isTight_of_ne hkey (hpost q hq).1 (hpost q hq).2)
    · rw [LaidValue.members, hsplit]
      exact List.mem_append_right pre List.mem_cons_self
    · -- The search passes over the key of the options.
      rw [hfind, findKey_member, findKey, if_neg fun hends => hl.2 (Literal.value_eq hl.1 hkey hends.1).2,
        ← hinner, LaidMember.behindKey, hvalue]
      simp only [List.append_assoc, List.cons_append, findKey_charTokens, findKey, LaidValue.tokens]

/-- The number of a member is read exactly if the member is tight. -/
theorem numeralBehind_member {chars : String} (hchars : StopsAtEnd chars) {n : LaidMember Scalar}
    (hk : n.key.value = key) {x : Option Numeral} (hvalue : n.value = numScalar x)
    (hx : ∀ numeral ∈ x, ∀ c ∈ numeral.text, c ∈ chars.toList) {us : List Token} (hus : EndsValue us)
    (hnone : findKey key [':'] us = none) :
    numeralBehind chars key (n.tokens Scalar.tokens ++ us) =
      if n.IsTight key then numeralText x else [] := by
  have htext : tokensText (n.behindKey Scalar.tokens ++ us) = n.beforeColon.chars ++
      ':' :: (n.afterColon.chars ++ tokensText ((numScalar x).tokens ++
        (charTokens n.after.chars ++ us))) := by
    rw [tokensText_behindKey, hvalue]
  rw [numeralBehind, findKey_member, findKey]
  split
  · rename_i hfound
    obtain ⟨hends, hcolon⟩ := hfound
    have hbody := (Literal.value_eq (hk ▸ hkey) hkey hends).1
    have hbefore := (n.colon_prefix_iff us).mp hcolon
    rw [htext, hbefore]
    simp only [List.nil_append, List.length_singleton, List.drop_succ_cons, List.drop_zero,
      Option.map_some, Option.getD_some]
    cases hafter : n.afterColon.chars with
    | nil =>
      rw [if_pos ⟨hbody, hbefore, hafter⟩]
      exact takeWhile_numScalar hchars hx (n.after.endsValue hus)
    | cons c cs =>
      -- The number starts with a character that is not read.
      have hc : c ∈ n.afterColon.chars.head? := by rw [hafter]; rfl
      have hloose : ¬ n.IsTight key := fun ht => by
        rw [ht.2.2] at hafter
        cases hafter
      rw [if_neg hloose, List.cons_append, List.takeWhile_cons_of_neg]
      exact fun hmem => hchars.1 c (Gap.head?_endsValue hc) (of_decide_eq_true hmem)
  · rename_i hfound
    have hloose : ¬ n.IsTight key := fun ht =>
      hfound ⟨ht.1 ▸ endsAs_self key, (n.colon_prefix_iff us).mpr ht.2.1⟩
    rw [if_neg hloose, LaidMember.behindKey]
    simp only [List.append_assoc, List.cons_append, findKey_charTokens, findKey]
    rw [skips_scalar n.value _ (n.after.endsValue hus), findKey_charTokens, hnone]
    rfl

end Scanning

/-! ## What is read from an encoding -/

theorem mem_optionalMember {name : String} {α β : Type} {f : α → β} {o : Option (Key name × α)}
    {p : Literal × β} (h : p ∈ optionalMember f o) : p.1.value = name ∧ ∃ a, p.2 = f a := by
  cases o with
  | none => cases h
  | some x =>
    obtain rfl := List.mem_singleton.mp h
    exact ⟨x.1.property, x.2, rfl⟩

/-- The text of a number or of `null`. -/
theorem tokens_numScalar (x : Option Numeral) :
    ∃ cs, cs ≠ [] ∧ '"' ∉ cs ∧ (numScalar x).tokens = charTokens cs := by
  cases x with
  | none => exact ⟨"null".toList, by decide, by decide, rfl⟩
  | some numeral =>
    refine ⟨numeral.text, numeral.text_ne_nil, fun hmem => ?_, rfl⟩
    cases List.all_eq_true.mp numeral.chars _ hmem

/-- Two members with other keys. -/
theorem two_keys {key name₁ name₂ : String} {α₁ α₂ β : Type} {f₁ : α₁ → β} {f₂ : α₂ → β}
    {o₁ : Option (Key name₁ × α₁)} {o₂ : Option (Key name₂ × α₂)} (h₁ : name₁ ≠ key) (h₂ : name₂ ≠ key) :
    ∀ q ∈ optionalMember f₁ o₁ ++ optionalMember f₂ o₂, q.1.value ≠ key := by
  intro q hq
  rcases List.mem_append.mp hq with hq | hq
  · exact (mem_optionalMember hq).1.symm ▸ h₁
  · exact (mem_optionalMember hq).1.symm ▸ h₂

/-- The options have three keys, and numbers for values. -/
theorem OptionsObject.mem_members {o : OptionsObject} {q : Literal × Scalar} (h : q ∈ o.members) :
    q.1.value ∈ ["max_tokens", "temperature", "top_p"] ∧ ∃ x, q.2 = numScalar x := by
  simp only [OptionsObject.members, List.mem_append] at h
  rcases h with h | h | h
  all_goals
    obtain ⟨hname, x, hx⟩ := mem_optionalMember h
    rw [hname]
  · exact ⟨by decide, _, hx⟩
  · exact ⟨by decide, _, hx⟩
  · exact ⟨by decide, _, hx⟩

theorem isIdent_of_mem {name : String}
    (h : name ∈ ["model", "input", "options", "request_id", "max_tokens", "temperature", "top_p"]) :
    IsIdent name :=
  (by decide : ∀ name ∈ ["model", "input", "options", "request_id", "max_tokens", "temperature", "top_p"],
    IsIdent name) name h

theorem RequestObject.mem_optionalMembers {o : RequestObject} {p : Literal × Value}
    (hp : p ∈ o.optionalMembers) :
    p.1.value ∈ ["options", "request_id"] ∧
      ∀ ms, p.2 = .object ms → ∃ x ∈ o.options, ∃ options ∈ x.2, ms = options.members := by
  rcases List.mem_append.mp hp with hp | hp
  · cases ho : o.options with
    | none =>
      rw [ho] at hp
      cases hp
    | some x =>
      rw [ho] at hp
      obtain rfl := List.mem_singleton.mp hp
      refine ⟨x.1.property.symm ▸ by decide, fun ms hms => ⟨x, rfl, ?_⟩⟩
      cases hx : x.2 with
      | none =>
        simp only [hx, optionsValue] at hms
        cases hms
      | some options =>
        simp only [hx, optionsValue, Value.object.injEq] at hms
        exact ⟨options, rfl, hms.symm⟩
  · obtain ⟨hname, l, hl⟩ := mem_optionalMember hp
    refine ⟨hname.symm ▸ by decide, fun ms hms => ?_⟩
    rw [hl] at hms
    cases hms

/-- The request has four keys, and at most the options are an object. -/
theorem RequestObject.mem_members {o : RequestObject} {p : Literal × Value} (hp : p ∈ o.members) :
    p.1.value ∈ ["model", "input", "options", "request_id"] ∧
      ∀ ms, p.2 = .object ms → ∃ x ∈ o.options, ∃ options ∈ x.2, ms = options.members := by
  rcases List.mem_cons.mp hp with rfl | hp
  · exact ⟨o.model.1.property.symm ▸ by decide, fun ms hms => by cases hms⟩
  · rcases List.mem_cons.mp hp with rfl | hp
    · exact ⟨o.input.1.property.symm ▸ by decide, fun ms hms => by cases hms⟩
    · obtain ⟨hname, hinner⟩ := RequestObject.mem_optionalMembers hp
      exact ⟨List.mem_append_right ["model", "input"] hname, hinner⟩

theorem RequestObject.mem_scalarMembers {o : RequestObject} {p : Literal × Value}
    (hp : p ∈ o.scalarMembers) : ∃ s, p.2 = .scalar s := by
  rcases List.mem_cons.mp hp with rfl | hp
  · exact ⟨_, rfl⟩
  · rcases List.mem_cons.mp hp with rfl | hp
    · exact ⟨_, rfl⟩
    · obtain ⟨-, l, hl⟩ := mem_optionalMember hp
      exact ⟨_, hl⟩

/-- A member with another key, if the options do not have the key either. -/
theorem otherMember_of_ne {o : RequestObject} {p : Literal × Value} (hp : p ∈ o.members) {key : String}
    (hne : p.1.value ≠ key)
    (hinner : ∀ x ∈ o.options, ∀ options ∈ x.2, ∀ q ∈ options.members, q.1.value ≠ key) :
    OtherMember key p := by
  obtain ⟨hname, hobject⟩ := RequestObject.mem_members hp
  refine ⟨isIdent_of_mem (List.mem_append_left _ hname), hne, fun ms hms q hq => ?_⟩
  obtain ⟨x, hx, options, hoptions, rfl⟩ := hobject ms hms
  have hq := Multiset.mem_coe.mp hq
  have hqname := (OptionsObject.mem_members hq).1
  exact ⟨isIdent_of_mem (List.mem_append_right ["model", "input", "options", "request_id"] hqname),
    hinner x hx options hoptions q hq⟩

/-- None of the request's own keys is one of the options. -/
theorem inner_ne {o : RequestObject} {key : String}
    (hkey : key ∈ ["model", "input", "options", "request_id"]) :
    ∀ x ∈ o.options, ∀ options ∈ x.2, ∀ q ∈ options.members, q.1.value ≠ key := by
  intro x _ options _ q hq heq
  have hne : ∀ name ∈ ["max_tokens", "temperature", "top_p"],
      ∀ key ∈ ["model", "input", "options", "request_id"], name ≠ key := by decide
  exact hne _ (OptionsObject.mem_members hq).1 key hkey heq

/-- None of the options has a key of the request. -/
theorem outer_ne {key : String} (hkey : key ∈ ["max_tokens", "temperature", "top_p"]) :
    ∀ name ∈ ["model", "input", "options", "request_id"], name ≠ key :=
  (by decide : ∀ key ∈ ["max_tokens", "temperature", "top_p"],
    ∀ name ∈ ["model", "input", "options", "request_id"], name ≠ key) key hkey

/-- The options are the member that may have a key of theirs; the others are scalars. -/
theorem RequestObject.members_perm {o : RequestObject} {l : Key "options"} {options : OptionsObject}
    (ho : o.options = some (l, some options)) :
    o.members.Perm ((l.val, .object options.members) :: o.scalarMembers) := by
  rw [RequestObject.members, RequestObject.optionalMembers, ho]
  exact @List.perm_middle _ _ [_, _] _

/-- A scalar with a key of the request is not in the way of an option's key. -/
theorem otherMember_of_scalar {p : Literal × Value} {key : String}
    (hname : p.1.value ∈ ["model", "input", "options", "request_id"]) (hs : ∃ s, p.2 = .scalar s)
    (hkey : key ∈ ["max_tokens", "temperature", "top_p"]) : OtherMember key p := by
  refine ⟨isIdent_of_mem (List.mem_append_left _ hname), outer_ne hkey _ hname, fun ms hms => ?_⟩
  obtain ⟨s, hs⟩ := hs
  rw [hs] at hms
  cases hms

/-- Where no member has the key, there is no number behind it. -/
theorem numeralBehind_of_others (chars : String) {key : String} (hkey : IsIdent key) {e : Encoding}
    (hothers : ∀ p ∈ e.content, OtherMember key p) (text : List Char) :
    numeralBehind chars key e.tokens = if e.Tight key then text else [] := by
  obtain ⟨hnone, hloose⟩ := findKey_of_others hkey [] hothers
  rw [numeralBehind, hnone, if_neg hloose]
  rfl

section Reading

variable {e : Encoding} {o : RequestObject} (h : e.Encodes o)
include h

theorem read_model :
    stringBehind "model" e.tokens = if e.Tight "model" then upTo '"' o.model.2.body else [] := by
  unfold Encoding.Encodes RequestObject.members at h
  rw [← Multiset.cons_coe] at h
  refine stringBehind_of_split (by decide) h (fun p hp => ?_) o.model.1.property
  have hp := Multiset.mem_coe.mp hp
  refine otherMember_of_ne (List.mem_cons_of_mem _ hp) ?_ (inner_ne (by decide))
  rcases List.mem_cons.mp hp with rfl | hp
  · exact o.input.1.property.symm ▸ by decide
  · intro heq
    have := (RequestObject.mem_optionalMembers hp).1
    rw [heq] at this
    exact absurd this (by decide)

theorem read_input :
    stringBehind "input" e.tokens = if e.Tight "input" then upTo '"' o.input.2.body else [] := by
  unfold Encoding.Encodes RequestObject.members at h
  rw [← Multiset.cons_coe, ← Multiset.cons_coe, Multiset.cons_swap] at h
  refine stringBehind_of_split (by decide) h (fun p hp => ?_) o.input.1.property
  rcases Multiset.mem_cons.mp hp with rfl | hp
  · exact otherMember_of_ne List.mem_cons_self (o.model.1.property.symm ▸ by decide)
      (inner_ne (by decide))
  · have hp := Multiset.mem_coe.mp hp
    refine otherMember_of_ne (List.mem_cons_of_mem _ (List.mem_cons_of_mem _ hp)) (fun heq => ?_)
      (inner_ne (by decide))
    have := (RequestObject.mem_optionalMembers hp).1
    rw [heq] at this
    exact absurd this (by decide)

/-- A number that the options have. -/
private theorem read_present {chars key : String} (hkey : key ∈ ["max_tokens", "temperature", "top_p"])
    (hchars : StopsAtEnd chars) {l : Key "options"} {options : OptionsObject}
    (ho : o.options = some (l, some options)) {x : Key key × Option Numeral}
    {ms₁ ms₂ : List (Literal × Scalar)}
    (hmembers : options.members = ms₁ ++ (x.1.val, numScalar x.2) :: ms₂)
    (hothers : ∀ q ∈ ms₁ ++ ms₂, q.1.value ≠ key)
    (htext : ∀ numeral ∈ x.2, ∀ c ∈ numeral.text, c ∈ chars.toList) :
    numeralBehind chars key e.tokens = if e.Tight key then numeralText x.2 else [] := by
  have hident : IsIdent key :=
    isIdent_of_mem (List.mem_append_right ["model", "input", "options", "request_id"] hkey)
  have hcontent : (options.members : Multiset (Literal × Scalar)) =
      (x.1.val, numScalar x.2) ::ₘ (ms₁ ++ ms₂ : List (Literal × Scalar)) := by
    rw [hmembers, Multiset.cons_coe]
    exact Multiset.coe_eq_coe.mpr List.perm_middle
  have hsplit := RequestObject.members_perm ho
  unfold Encoding.Encodes at h
  rw [Multiset.coe_eq_coe.mpr hsplit, ← Multiset.cons_coe, hcontent] at h
  have hrest : ∀ p ∈ (o.scalarMembers : Multiset (Literal × Value)), OtherMember key p := by
    intro p hp
    have hp := Multiset.mem_coe.mp hp
    have hname := (RequestObject.mem_members (hsplit.mem_iff.mpr (List.mem_cons_of_mem _ hp))).1
    exact otherMember_of_scalar hname (RequestObject.mem_scalarMembers hp) hkey
  have hl : IsIdent l.val.value ∧ l.val.value ≠ key := by
    rw [l.property]
    exact ⟨by decide, outer_ne hkey _ (by decide)⟩
  have hms : ∀ q ∈ (ms₁ ++ ms₂ : List (Literal × Scalar)),
      IsIdent q.1.value ∧ q.1.value ≠ key := by
    intro q hq
    have hmem : q ∈ options.members := by
      rw [hmembers]
      exact List.perm_middle.mem_iff.mpr (List.mem_cons_of_mem _ hq)
    refine ⟨isIdent_of_mem ?_, hothers q hq⟩
    exact List.mem_append_right ["model", "input", "options", "request_id"]
      (OptionsObject.mem_members hmem).1
  obtain ⟨n, hnkey, hnvalue, htight, us, hus, hnone, hfind⟩ :=
    findKey_of_nested hident [] h hrest hl fun q hq => hms q (Multiset.mem_coe.mp hq)
  have hread := numeralBehind_member hident hchars (hnkey ▸ x.1.property) hnvalue htext hus hnone
  rw [numeralBehind, hfind, ← numeralBehind, hread]
  exact if_congr htight.symm rfl rfl

/-- A number of the options, if the options have it. -/
private theorem read_option {chars key : String} (hkey : key ∈ ["max_tokens", "temperature", "top_p"])
    (hchars : StopsAtEnd chars)
    (field : OptionsObject → Option (Key key × Option Numeral))
    (hmissing : ∀ options, field options = none → ∀ q ∈ options.members, q.1.value ≠ key)
    (hfield : ∀ options x, field options = some x → ∃ ms₁ ms₂, options.members =
      ms₁ ++ (x.1.val, numScalar x.2) :: ms₂ ∧ ∀ q ∈ ms₁ ++ ms₂, q.1.value ≠ key)
    (htext : ∀ options x, field options = some x → ∀ numeral ∈ x.2, ∀ c ∈ numeral.text,
      c ∈ chars.toList) :
    numeralBehind chars key e.tokens = if e.Tight key then
      numeralText (o.options.bind fun p => p.2.bind fun options => (field options).bind Prod.snd) else [] := by
  have hident : IsIdent key :=
    isIdent_of_mem (List.mem_append_right ["model", "input", "options", "request_id"] hkey)
  have habsent (hinner : ∀ x ∈ o.options, ∀ options ∈ x.2, ∀ q ∈ options.members, q.1.value ≠ key)
      (text : List Char) : numeralBehind chars key e.tokens = if e.Tight key then text else [] := by
    refine numeralBehind_of_others chars hident (fun p hp => ?_) text
    rw [h] at hp
    have hp := Multiset.mem_coe.mp hp
    exact otherMember_of_ne hp (outer_ne hkey _ (RequestObject.mem_members hp).1) hinner
  rcases ho : o.options with _ | ⟨l, _ | options⟩
  · refine habsent (fun x hx => ?_) _
    rw [ho] at hx
    cases hx
  · refine habsent (fun x hx options hoptions => ?_) _
    rw [ho] at hx
    cases hx
    cases hoptions
  · cases hf : field options with
    | none =>
      refine habsent (fun x hx options' hoptions => ?_) _
      rw [ho] at hx
      cases hx
      cases hoptions
      exact hmissing options hf
    | some x =>
      obtain ⟨ms₁, ms₂, hmembers, hothers⟩ := hfield options x hf
      rw [read_present h hkey hchars ho hmembers hothers (htext options x hf), Option.bind_some,
        Option.bind_some, hf, Option.bind_some]

theorem read_maxTokens :
    numeralBehind "0123456789-" "max_tokens" e.tokens =
      if e.Tight "max_tokens" then u32Text o.maxTokens else [] := by
  have hread := read_option h (by decide) stopsAtEnd_int
    (fun options => options.maxTokens.map fun x => (x.1, u32Numeral x.2))
    (fun options hnone => ?_) (fun options x hx => ?_) (fun options x hx numeral hnumeral => ?_)
  · rw [hread]
    refine if_congr Iff.rfl ?_ rfl
    rcases ho : o.options with _ | ⟨l, _ | options⟩
    · simp only [RequestObject.maxTokens, ho]
      rfl
    · simp only [RequestObject.maxTokens, ho]
      rfl
    · rcases hf : options.maxTokens with _ | ⟨k, _ | n⟩ <;> simp only [RequestObject.maxTokens, ho, hf,
        Option.bind_some, Option.map_some, Option.map_none, Option.bind_none] <;> rfl
  · rw [Option.map_eq_none_iff] at hnone
    rw [OptionsObject.members, hnone]
    exact two_keys (by decide) (by decide)
  · obtain ⟨y, hy, rfl⟩ := Option.map_eq_some_iff.mp hx
    exact ⟨[], _, by rw [OptionsObject.members, hy]; rfl, two_keys (by decide) (by decide)⟩
  · obtain ⟨y, hy, rfl⟩ := Option.map_eq_some_iff.mp hx
    obtain ⟨n, -, rfl⟩ := Option.map_eq_some_iff.mp hnumeral
    exact mem_intChars n.toNat

theorem read_temperature :
    numeralBehind "0123456789.-+eE" "temperature" e.tokens =
      if e.Tight "temperature" then numeralText o.temperature else [] := by
  refine read_option h (by decide) stopsAtEnd_float OptionsObject.temperature (fun options hnone => ?_)
    (fun options x hx => ?_) fun _ _ _ numeral _ => mem_floatChars numeral
  · rw [OptionsObject.members, hnone]
    exact two_keys (by decide) (by decide)
  · exact ⟨_, _, by rw [OptionsObject.members, hx]; rfl, two_keys (by decide) (by decide)⟩

theorem read_topP :
    numeralBehind "0123456789.-+eE" "top_p" e.tokens =
      if e.Tight "top_p" then numeralText o.topP else [] := by
  refine read_option h (by decide) stopsAtEnd_float OptionsObject.topP (fun options hnone => ?_)
    (fun options x hx => ?_) fun _ _ _ numeral _ => mem_floatChars numeral
  · rw [OptionsObject.members, hnone, ← List.append_assoc, optionalMember.eq_def _ none, List.append_nil]
    exact two_keys (by decide) (by decide)
  · refine ⟨_, [], by rw [OptionsObject.members, hx, ← List.append_assoc]; rfl, ?_⟩
    rw [List.append_nil]
    exact two_keys (by decide) (by decide)

/-- No string stands for `max_tokens`, so none is found. -/
theorem read_nested : nestedValue e.bytes (bytes "max_tokens") = [] := by
  have hskip : Skips "max_tokens" [':', '"'] (e.object.tokens LaidValue.tokens) := by
    refine e.object.skips fun m hm => ?_
    have hp := LaidObject.mem_content LaidValue.content hm
    unfold Encoding.Encodes Encoding.content at h
    rw [h, Multiset.mem_coe] at hp
    obtain ⟨hname, hobject⟩ := RequestObject.mem_members hp
    have hne : m.key.value ≠ "max_tokens" := fun heq => by
      rw [heq] at hname
      exact absurd hname (by decide)
    refine m.skips_of_ne (by decide) (isIdent_of_mem (List.mem_append_left _ hname)) hne ?_
    cases hv : m.value with
    | scalar s => exact skips_scalar s
    | object inner =>
      obtain ⟨x, -, options, -, hmembers⟩ := hobject _ (by rw [hv]; rfl)
      refine inner.skips fun n hn => n.skips (skips_scalar n.value) fun ts hfound => ?_
      have hq := LaidObject.mem_content id hn
      rw [hmembers, Multiset.mem_coe] at hq
      obtain ⟨-, x, hx⟩ := OptionsObject.mem_members hq
      obtain ⟨cs, hne, hquote, htokens⟩ := tokens_numScalar x
      obtain ⟨-, -, hpre⟩ := (n.colonQuote_prefix_iff ts).mp hfound.2
      have hvalue : n.value = numScalar x := hx
      rw [hvalue, htokens, tokensText_append, tokensText_charTokens] at hpre
      cases cs with
      | nil => exact hne rfl
      | cons c cs =>
        rw [(List.cons_prefix_cons.mp hpre).1] at hquote
        exact hquote List.mem_cons_self
  have hend : EndsValue (charTokens e.after.chars ++ []) := e.after.endsValue (nofun : EndsValue [])
  have hnone : findKey "max_tokens" [':', '"'] e.tokens = none := by
    rw [Encoding.tokens, findKey_charTokens, ← List.append_nil (charTokens e.after.chars), hskip _ hend,
      findKey_charTokens, findKey]
  refine nestedValue_eq_nil ?_
  rw [stringKey_bytes, keyPattern_append, Encoding.bytes, after_utf8_literalPattern (by decide)
    (by decide), after_tokensText (by decide) e.wellFormed, hnone, Option.map_none]

/-- The core's parser on an encoding of a request: what is not tight is missing. -/
theorem parseRequestBody_bytes (lib : StdFloat) :
    parseRequestBody lib e.bytes = scannedRequest lib
      (if e.Tight "model" then upTo '"' o.model.2.body else [])
      (if e.Tight "input" then upTo '"' o.input.2.body else [])
      (if e.Tight "max_tokens" then o.maxTokens else none)
      (if e.Tight "temperature" then o.temperature else none)
      (if e.Tight "top_p" then o.topP else none) := by
  have hwell := e.wellFormed
  refine parseRequestBody_of_scans lib ?_ ?_ ?_ ?_ ?_ (read_nested h)
  · rw [Encoding.bytes, quotedAfter_tokensText (by decide) hwell, read_model h]
  · rw [Encoding.bytes, quotedAfter_tokensText (by decide) hwell, read_input h]
  · rw [Encoding.bytes, intChars, numeralAfter_tokensText (by decide) hwell (by decide), read_maxTokens h]
    split <;> rfl
  · rw [Encoding.bytes, floatChars, numeralAfter_tokensText (by decide) hwell (by decide),
      read_temperature h]
    split <;> rfl
  · rw [Encoding.bytes, floatChars, numeralAfter_tokensText (by decide) hwell (by decide), read_topP h]
    split <;> rfl

end Reading

/-! ## When two encodings are parsed alike -/

/-- A field is read alike from two texts, and accepted, exactly if both texts have it or both lack it, or it
has the value that stands in for a missing one; and if it is accepted where it is read. -/
theorem exists_eq_ok_iff {α β : Type} {f : Option α → Throws β} {fallback : β} (hf : f none = .ok fallback)
    {T₁ T₂ : Prop} [Decidable T₁] [Decidable T₂] (x : Option α) :
    (∃ value, f (if T₁ then x else none) = .ok value ∧ f (if T₂ then x else none) = .ok value) ↔
      ((T₁ ↔ T₂) ∨ f x = .ok fallback) ∧ (T₁ ∨ T₂ → ∃ value, f x = .ok value) := by
  by_cases h₁ : T₁
  · by_cases h₂ : T₂
    · rw [if_pos h₁, if_pos h₂]
      exact ⟨fun ⟨v, hv, _⟩ => ⟨.inl (iff_of_true h₁ h₂), fun _ => ⟨v, hv⟩⟩,
        fun ⟨_, h⟩ => (h (.inl h₁)).imp fun _ hv => ⟨hv, hv⟩⟩
    · rw [if_pos h₁, if_neg h₂, hf]
      refine ⟨fun ⟨v, hv, heq⟩ => ⟨.inr (hv.trans heq.symm), fun _ => ⟨v, hv⟩⟩, fun ⟨h, _⟩ => ?_⟩
      exact ⟨fallback, h.resolve_left fun hiff => h₂ (hiff.mp h₁), rfl⟩
  · by_cases h₂ : T₂
    · rw [if_neg h₁, if_pos h₂, hf]
      refine ⟨fun ⟨v, heq, hv⟩ => ⟨.inr (hv.trans heq.symm), fun _ => ⟨v, hv⟩⟩, fun ⟨h, _⟩ => ?_⟩
      exact ⟨fallback, rfl, h.resolve_left fun hiff => h₁ (hiff.mpr h₂)⟩
    · rw [if_neg h₁, if_neg h₂]
      exact ⟨fun _ => ⟨.inl (iff_of_false h₁ h₂), fun h => (h.elim h₁ h₂).elim⟩,
        fun _ => ⟨fallback, hf, hf⟩⟩

theorem maxTokens_alike_iff {T₁ T₂ : Prop} [Decidable T₁] [Decidable T₂] (x : Option UInt32) :
    (∃ m, parsedMaxTokens (if T₁ then x else none) = .ok m ∧
      parsedMaxTokens (if T₂ then x else none) = .ok m) ↔
    ∀ n ∈ x, ((T₁ ↔ T₂) ∨ n = 0 ∨ n = 32) ∧ (T₁ ∨ T₂ → n.toNat < 2 ^ 31) := by
  rw [exists_eq_ok_iff (show parsedMaxTokens none = .ok 32 from rfl), parsedMaxTokens_returns_iff]
  cases x with
  | none => exact ⟨fun _ => nofun, fun _ => ⟨.inr rfl, fun _ => nofun⟩⟩
  | some n =>
    have hfallback : parsedMaxTokens (some n) = .ok 32 ↔ n = 0 ∨ n = 32 := by
      rw [parsedMaxTokens]
      split
      · by_cases hzero : n = 0
        · simp [hzero]
        · have h32 : (n.toNat : ℤ) = 32 ↔ n = 32 := by
            rw [← UInt32.toNat_inj]
            exact Int.natCast_inj
          rw [if_neg hzero, Except.ok.injEq, h32]
          exact ⟨.inr, fun h => h.resolve_left hzero⟩
      · rename_i hlarge
        constructor
        · intro h
          cases h
        · rintro (rfl | rfl) <;> exact absurd (by decide) hlarge
    simp only [hfallback, Option.mem_some_iff, forall_eq']

theorem float_alike_iff {lib : StdFloat} {fallback : F32} {T₁ T₂ : Prop} [Decidable T₁] [Decidable T₂]
    (x : Option Numeral) :
    (∃ value, parsedFloat lib fallback (if T₁ then x else none) = .ok value ∧
      parsedFloat lib fallback (if T₂ then x else none) = .ok value) ↔
    ∀ t ∈ x, ((T₁ ↔ T₂) ∨ ∃ value, lib.stof (utf8 t.text) = .ok value ∧
      (value.leZero = true ∨ value = fallback)) ∧
      (T₁ ∨ T₂ → ∃ value, lib.stof (utf8 t.text) = .ok value) := by
  rw [exists_eq_ok_iff (show parsedFloat lib fallback none = .ok fallback from rfl),
    parsedFloat_returns_iff]
  cases x with
  | none => exact ⟨fun _ => nofun, fun _ => ⟨.inr rfl, fun _ => nofun⟩⟩
  | some t =>
    have hfallback : parsedFloat lib fallback (some t) = .ok fallback ↔
        ∃ value, lib.stof (utf8 t.text) = .ok value ∧ (value.leZero = true ∨ value = fallback) := by
      rw [parsedFloat]
      cases lib.stof (utf8 t.text) with
      | error e =>
        constructor
        · intro h
          cases h
        · rintro ⟨_, h, -⟩
          cases h
      | ok value =>
        simp only [Except.map, Except.ok.injEq, exists_eq_left']
        by_cases hzero : value.leZero = true <;> simp [hzero]
    simp only [hfallback, Option.mem_some_iff, forall_eq']

theorem text_alike_iff {fallback : String} {T₁ T₂ : Prop} [Decidable T₁] [Decidable T₂]
    (text : List Char) :
    ((if (if T₁ then text else []) = [] then bytes fallback else utf8 (if T₁ then text else [])) =
      if (if T₂ then text else []) = [] then bytes fallback else utf8 (if T₂ then text else [])) ↔
    (T₁ ↔ T₂) ∨ text = [] ∨ text = fallback.toList := by
  have htext : (if text = [] then bytes fallback else utf8 text) = bytes fallback ↔
      text = [] ∨ text = fallback.toList := by
    by_cases hempty : text = []
    · simp [hempty]
    · rw [if_neg hempty, bytes, utf8_injective.eq_iff]
      exact ⟨.inr, fun h => h.resolve_left hempty⟩
  by_cases h₁ : T₁
  · by_cases h₂ : T₂
    · rw [if_pos h₁, if_pos h₂]
      exact ⟨fun _ => .inl (iff_of_true h₁ h₂), fun _ => rfl⟩
    · rw [if_pos h₁, if_neg h₂, if_pos rfl, htext]
      exact ⟨.inr, fun h => h.resolve_left fun hiff => h₂ (hiff.mp h₁)⟩
  · by_cases h₂ : T₂
    · rw [if_neg h₁, if_pos h₂, if_pos rfl, eq_comm, htext]
      exact ⟨.inr, fun h => h.resolve_left fun hiff => h₁ (hiff.mpr h₂)⟩
    · rw [if_neg h₁, if_neg h₂]
      exact ⟨fun _ => .inl (iff_of_false h₁ h₂), fun _ => rfl⟩

/-- Each field of the request is tight in both encodings or in neither, or has the value that stands in for
a missing one; and the numbers that are tight are accepted. -/
structure ReadAlike (lib : StdFloat) (o : RequestObject) (e₁ e₂ : Encoding) : Prop where
  model : (e₁.Tight "model" ↔ e₂.Tight "model") ∨
    upTo '"' o.model.2.body = [] ∨ upTo '"' o.model.2.body = "llama-7b".toList
  input : (e₁.Tight "input" ↔ e₂.Tight "input") ∨
    upTo '"' o.input.2.body = [] ∨ upTo '"' o.input.2.body = "hello world".toList
  maxTokens : ∀ n ∈ o.maxTokens,
    ((e₁.Tight "max_tokens" ↔ e₂.Tight "max_tokens") ∨ n = 0 ∨ n = 32) ∧
      (e₁.Tight "max_tokens" ∨ e₂.Tight "max_tokens" → n.toNat < 2 ^ 31)
  temperature : ∀ t ∈ o.temperature,
    ((e₁.Tight "temperature" ↔ e₂.Tight "temperature") ∨
      ∃ value, lib.stof (utf8 t.text) = .ok value ∧ (value.leZero = true ∨ value = defaultTemperature)) ∧
      (e₁.Tight "temperature" ∨ e₂.Tight "temperature" → ∃ value, lib.stof (utf8 t.text) = .ok value)
  topP : ∀ t ∈ o.topP,
    ((e₁.Tight "top_p" ↔ e₂.Tight "top_p") ∨
      ∃ value, lib.stof (utf8 t.text) = .ok value ∧ (value.leZero = true ∨ value = defaultTopP)) ∧
      (e₁.Tight "top_p" ∨ e₂.Tight "top_p" → ∃ value, lib.stof (utf8 t.text) = .ok value)

/-- Two encodings of one request are parsed to the same result exactly if each field is tight in both or in
neither or has the value that stands in for a missing one, and the tight numbers are accepted. -/
theorem sameParse_iff (lib : StdFloat) (o : RequestObject) (e₁ e₂ : Encoding) (h₁ : e₁.Encodes o)
    (h₂ : e₂.Encodes o) : SameParse lib e₁ e₂ ↔ ReadAlike lib o e₁ e₂ := by
  simp only [SameParse, parseRequestBody_bytes h₁, parseRequestBody_bytes h₂, scannedRequest_eq_ok]
  constructor
  · rintro ⟨request, ⟨hn₁, ht₁, hp₁, hm₁, hi₁⟩, hn₂, ht₂, hp₂, hm₂, hi₂⟩
    exact {
      model := (text_alike_iff _).mp (hm₁.symm.trans hm₂)
      input := (text_alike_iff _).mp (hi₁.symm.trans hi₂)
      maxTokens := (maxTokens_alike_iff _).mp ⟨_, hn₁, hn₂⟩
      temperature := (float_alike_iff _).mp ⟨_, ht₁, ht₂⟩
      topP := (float_alike_iff _).mp ⟨_, hp₁, hp₂⟩ }
  · intro h
    obtain ⟨n, hn₁, hn₂⟩ := (maxTokens_alike_iff _).mpr h.maxTokens
    obtain ⟨t, ht₁, ht₂⟩ := (float_alike_iff _).mpr h.temperature
    obtain ⟨p, hp₁, hp₂⟩ := (float_alike_iff _).mpr h.topP
    exact ⟨⟨_, _, n, t, p⟩, ⟨hn₁, ht₁, hp₁, rfl, rfl⟩, hn₂, ht₂, hp₂,
      (text_alike_iff _).mpr h.model, (text_alike_iff _).mpr h.input⟩

/-! ### One request, written by two serializers -/

/-- The literal of a name. -/
def plainKey (name : String) : Key name := ⟨.ofString name, rfl⟩

/-- A request for 64 tokens. -/
def chatRequest : RequestObject where
  model := (plainKey "model", .ofString "gpt-x")
  input := (plainKey "input", .ofString "hi")
  options := some (plainKey "options",
    some { maxTokens := some (plainKey "max_tokens", some 64), temperature := none, topP := none })
  requestId := none

/-- A member with a gap before its key and behind its colon. -/
def dumpedMember {α : Type} (before afterColon : Gap) (name : String) (value : α) : LaidMember α :=
  ⟨before, .ofString name, .none, afterColon, value, .none⟩

/-- The text of the request with a gap behind every comma and colon: none as compact serializers write it, a
blank as `json.dumps` of Python does. -/
def dumped (gap : Gap) : Encoding where
  before := .none
  object := ⟨.none,
    [dumpedMember .none gap "model" (.scalar (.str (.ofString "gpt-x"))),
     dumpedMember gap gap "input" (.scalar (.str (.ofString "hi"))),
     dumpedMember gap gap "options"
       (.object ⟨.none, [dumpedMember .none gap "max_tokens" (.num (Numeral.ofNat 64))]⟩)]⟩
  after := .none

/-- The compact text with its members in the opposite order. -/
def reversed : Encoding where
  before := .none
  object := ⟨.none, (dumped .none).object.members.reverse⟩
  after := .none

/-- A blank. -/
def blank : Gap := ⟨[' '], rfl⟩

theorem sameParse_iff_reversed : SameParse halfFloat (dumped .none) reversed :=
  (sameParse_iff halfFloat chatRequest (dumped .none) reversed rfl (Multiset.coe_eq_coe.mpr (by decide))).mpr
    { model := .inl (by decide)
      input := .inl (by decide)
      maxTokens := fun n hn => ⟨.inl (by decide), fun _ => by cases hn; decide⟩
      temperature := nofun
      topP := nofun }

/-- The compact text is read, and of the text with blanks nothing is. -/
theorem dumped_not_sameParse :
    (dumped .none).Encodes chatRequest ∧ (dumped blank).Encodes chatRequest ∧
      tokensText (dumped blank).tokens =
        "\x7b\"model\": \"gpt-x\", \"input\": \"hi\", \"options\": \x7b\"max_tokens\": 64\x7d\x7d".toList ∧
      parseRequestBody halfFloat (dumped .none).bytes =
        .ok { model := bytes "gpt-x", input := bytes "hi", maxTokens := 64 } ∧
      parseRequestBody halfFloat (dumped blank).bytes = .ok {} ∧
      ¬ SameParse halfFloat (dumped .none) (dumped blank) := by
  have hcompact : parseRequestBody halfFloat (dumped .none).bytes =
      .ok { model := bytes "gpt-x", input := bytes "hi", maxTokens := 64 } := by decide +kernel
  have hblank : parseRequestBody halfFloat (dumped blank).bytes = .ok {} := by decide +kernel
  refine ⟨rfl, rfl, by decide, hcompact, hblank, fun ⟨request, h₁, h₂⟩ => ?_⟩
  have heq := Except.ok.inj ((hcompact.symm.trans h₁).trans (h₂.symm.trans hblank))
  exact absurd (congrArg InferenceRequest.maxTokens heq) (by decide)

end InferenceGateway.Wire
