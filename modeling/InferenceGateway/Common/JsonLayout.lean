import InferenceGateway.Common.JsonTokens

/-!
# Laid-out JSON objects

An object as it is written: its members in some order, with any insignificant whitespace between its
tokens and with strings escaped in any way. The content of the object is what remains if the order and the
whitespace are forgotten: the multiset of its members. A member is tight if its key is written without
escapes and no whitespace stands on either side of its colon; these are the members that a scanner finds.
-/

namespace InferenceGateway.Common

/-! ## Gaps -/

/-- An insignificant character. -/
def isWhitespace (c : Char) : Bool := c == ' ' || c == '\t' || c == '\n' || c == '\r'

/-- The whitespace between two tokens. -/
structure Gap where
  chars : List Char
  ok : chars.all isWhitespace = true
deriving DecidableEq

/-- No whitespace. -/
def Gap.none : Gap := ⟨[], rfl⟩

/-- A text outside of literals. -/
def charTokens (cs : List Char) : List Token := cs.map .char

@[simp] theorem tokensText_charTokens (cs : List Char) : tokensText (charTokens cs) = cs := by
  induction cs with
  | nil => rfl
  | cons c cs ih => exact congrArg (c :: ·) ih

@[simp] theorem findKey_charTokens (key : String) (suffix cs : List Char) (ts : List Token) :
    findKey key suffix (charTokens cs ++ ts) = findKey key suffix ts := by
  induction cs with
  | nil => rfl
  | cons c cs ih => exact ih

theorem wellFormed_charTokens {cs : List Char} (h : '"' ∉ cs) {ts : List Token} (hts : WellFormed ts) :
    WellFormed (charTokens cs ++ ts) := by
  induction cs with
  | nil => exact hts
  | cons c cs ih =>
    rw [List.mem_cons, not_or] at h
    exact ⟨fun heq => h.1 heq.symm, ih h.2⟩

/-- A character that may stand directly behind a value. -/
def endsValue (c : Char) : Bool := isWhitespace c || c == ',' || c == ']' || c == '}'

theorem endsValue_cases {c : Char} (h : endsValue c = true) :
    c ∈ [' ', '\t', '\n', '\r', ',', ']', '}'] := by
  simp only [endsValue, isWhitespace, Bool.or_eq_true, beq_iff_eq] at h
  simp only [List.mem_cons, List.not_mem_nil, or_false]
  tauto

/-- What may stand directly behind a value. -/
def EndsValue (ts : List Token) : Prop := ∀ c ∈ (tokensText ts).head?, endsValue c = true

theorem EndsValue.not_joinsLiteral {ts : List Token} (h : EndsValue ts) :
    ∀ c ∈ (tokensText ts).head?, joinsLiteral c = false := by
  intro c hc
  have hmem := endsValue_cases (h c hc)
  simp only [List.mem_cons, List.not_mem_nil, or_false] at hmem
  rcases hmem with rfl | rfl | rfl | rfl | rfl | rfl | rfl <;> rfl

theorem endsValue_char {c : Char} (h : endsValue c = true) (ts : List Token) :
    EndsValue (.char c :: ts) := fun d hd => by
  rw [tokensText_char, List.head?_cons, Option.mem_some_iff] at hd
  exact hd ▸ h

theorem Gap.quote_not_mem (gap : Gap) : '"' ∉ gap.chars := fun h => by
  cases List.all_eq_true.mp gap.ok _ h

theorem Gap.head? {gap : Gap} {c : Char} (h : c ∈ gap.chars.head?) : isWhitespace c = true :=
  List.all_eq_true.mp gap.ok c (List.mem_of_head? h)

theorem Gap.head?_endsValue {gap : Gap} {c : Char} (h : c ∈ gap.chars.head?) : Common.endsValue c = true := by
  rw [Common.endsValue, Gap.head? h, Bool.true_or, Bool.true_or, Bool.true_or]

theorem Gap.endsValue (gap : Gap) {ts : List Token} (h : EndsValue ts) :
    EndsValue (charTokens gap.chars ++ ts) := by
  intro c hc
  rw [tokensText_append, tokensText_charTokens, List.head?_append] at hc
  cases hg : gap.chars.head? with
  | none =>
    rw [hg, Option.none_or] at hc
    exact h c hc
  | some d =>
    rw [hg, Option.some_or, Option.mem_some_iff] at hc
    exact hc ▸ Gap.head?_endsValue hg

/-! ## Literals -/

private theorem quote_not_mem_hex4 {a b c d : Char} {n : ℕ} (h : hex4 a b c d = some n) :
    '"' ∉ [a, b, c, d] := by
  simp only [hex4, Option.bind_eq_bind, Option.bind_eq_some_iff] at h
  obtain ⟨_, ha, _, hb, _, hc, _, hd, -⟩ := h
  intro hmem
  simp only [List.mem_cons, List.not_mem_nil, or_false] at hmem
  rcases hmem with rfl | rfl | rfl | rfl
  · cases ha
  · cases hb
  · cases hc
  · cases hd

/-- A text up to the closing quote of a literal that stands for `s`, and the text behind it. -/
private def ReadsTo (cs s rest : List Char) : Prop :=
  ∃ body, cs = body ++ '"' :: rest ∧ EscapesQuotes body ∧ ('"' ∈ body → '"' ∈ s)

private theorem ReadsTo.prepend {p cs rest : List Char} {x : Char} {o : Option (List Char × List Char)}
    {s : List Char} (hp : EscapesQuotes p) (hquote : '"' ∈ p → x = '"')
    (ih : ∀ {s}, o = some (s, rest) → ReadsTo cs s rest)
    (h : (o.map fun r => (x :: r.1, r.2)) = some (s, rest)) : ReadsTo (p ++ cs) s rest := by
  obtain ⟨⟨t, u⟩, ho, hr⟩ := Option.map_eq_some_iff.mp h
  obtain ⟨rfl, rfl⟩ := Prod.mk.inj hr
  obtain ⟨body, rfl, hbody, hmem⟩ := ih ho
  refine ⟨p ++ body, by rw [List.append_assoc], hp.append hbody, fun hin => ?_⟩
  rcases List.mem_append.mp hin with hin | hin
  · rw [hquote hin]
    exact List.mem_cons_self
  · exact List.mem_cons_of_mem x (hmem hin)

private theorem readsTo_of_parseString {cs s rest : List Char} (h : parseString cs = some (s, rest)) :
    ReadsTo cs s rest := by
  fun_induction parseString cs generalizing s with
  | case2 =>
    obtain ⟨rfl, rfl⟩ := Prod.mk.inj (Option.some.inj h)
    exact ⟨[], rfl, escapesQuotes_of_not_mem List.not_mem_nil, fun h => h⟩
  | case6 a b c d n hn _ _ a' b' c' d' cs m hm _ ih =>
    -- A surrogate pair.
    have hquote : '"' ∉ ['\\', 'u', a, b, c, d, '\\', 'u', a', b', c', d'] := by
      have h₁ := quote_not_mem_hex4 hn
      have h₂ := quote_not_mem_hex4 hm
      simp only [List.mem_cons, List.not_mem_nil, or_false, not_or] at h₁ h₂ ⊢
      exact ⟨by decide, by decide, h₁.1, h₁.2.1, h₁.2.2.1, h₁.2.2.2, by decide, by decide, h₂⟩
    exact ReadsTo.prepend (escapesQuotes_of_not_mem hquote) (fun h => absurd h hquote) ih h
  | case9 a b c d cs n hn _ _ ih =>
    have hquote : '"' ∉ ['\\', 'u', a, b, c, d] := by
      have h₁ := quote_not_mem_hex4 hn
      simp only [List.mem_cons, List.not_mem_nil, or_false, not_or] at h₁ ⊢
      exact ⟨by decide, by decide, h₁⟩
    exact ReadsTo.prepend (escapesQuotes_of_not_mem hquote) (fun h => absurd h hquote) ih h
  | case11 c cs _ x hx ih =>
    by_cases hc : c = '"'
    · subst hc
      obtain rfl : '"' = x := Option.some.inj hx
      exact ReadsTo.prepend escapesQuotes_escapedQuote (fun _ => rfl) ih h
    · have hquote : '"' ∉ ['\\', c] := by
        simp only [List.mem_cons, List.not_mem_nil, or_false, not_or]
        exact ⟨by decide, fun heq => hc heq.symm⟩
      exact ReadsTo.prepend (escapesQuotes_of_not_mem hquote) (fun h => absurd h hquote) ih h
  | case13 c cs hc _ _ _ ih =>
    have hquote : '"' ∉ [c] := fun hmem => hc (List.mem_singleton.mp hmem).symm
    exact ReadsTo.prepend (escapesQuotes_of_not_mem hquote) (fun h => absurd h hquote) ih h
  | _ => cases h

/-- A string literal as it is written, and the string that it stands for. -/
structure Literal where
  body : List Char
  value : String
  reads : parseString (body ++ ['"']) = some (value.toList, [])
deriving DecidableEq

theorem Literal.readsTo (l : Literal) :
    EscapesQuotes l.body ∧ ('"' ∈ l.body → '"' ∈ l.value.toList) := by
  obtain ⟨body, hbody, h⟩ := readsTo_of_parseString l.reads
  exact List.append_cancel_right hbody ▸ h

/-- The literal of a string with the usual escapes. -/
def Literal.ofString (s : String) : Literal where
  body := escape s.toList
  value := s
  reads := parseString_escape s.toList []

/-- A literal that ends as a key does and stands for an identifier is the key, and stands for it. -/
theorem Literal.value_eq {l : Literal} (hident : IsIdent l.value) {key : String} (hkey : IsIdent key)
    (h : EndsAs key l.body) : l.body = key.toList ∧ l.value = key := by
  have hquote : '"' ∉ l.body := fun hmem => by cases hident _ (l.readsTo.2 hmem)
  have hbody := (endsAs_iff_of_not_mem hquote).mp h
  have hreads := l.reads
  rw [hbody, ← escape_of_isIdent hkey, parseString_escape] at hreads
  exact ⟨hbody, String.toList_injective (Prod.mk.inj (Option.some.inj hreads)).1.symm⟩

/-! ## Objects -/

/-- A member with the whitespace in its gaps. -/
structure LaidMember (α : Type) where
  before : Gap
  key : Literal
  beforeColon : Gap
  afterColon : Gap
  value : α
  after : Gap

/-- The members of an object in their order; the gap is for an object without members. -/
structure LaidObject (α : Type) where
  gap : Gap
  members : List (LaidMember α)

/-- The key is written plainly, and its colon stands between the key and the value without whitespace. -/
def LaidMember.IsTight {α : Type} (m : LaidMember α) (key : String) : Prop :=
  m.key.body = key.toList ∧ m.beforeColon.chars = [] ∧ m.afterColon.chars = []

instance {α : Type} (m : LaidMember α) (key : String) : Decidable (m.IsTight key) :=
  inferInstanceAs (Decidable (_ ∧ _ ∧ _))

/-- An object without the order of its members and without whitespace. -/
def LaidObject.content {α β : Type} (f : α → β) (o : LaidObject α) : Multiset (Literal × β) :=
  (o.members.map fun m => (m.key, f m.value) : List (Literal × β))

theorem LaidObject.mem_content {α β : Type} (f : α → β) {o : LaidObject α} {m : LaidMember α}
    (h : m ∈ o.members) : (m.key, f m.value) ∈ o.content f := by
  rw [LaidObject.content, Multiset.mem_coe]
  exact List.mem_map_of_mem (f := fun m => (m.key, f m.value)) h

/-- An object whose content is one member and others has that member between the others. -/
theorem LaidObject.exists_split {α β : Type} {f : α → β} {o : LaidObject α} {x : Literal × β}
    {others : Multiset (Literal × β)} (h : o.content f = x ::ₘ others) :
    ∃ pre m post, o.members = pre ++ m :: post ∧ (m.key, f m.value) = x ∧
      ∀ n ∈ pre ++ post, (n.key, f n.value) ∈ others := by
  have hx : x ∈ o.members.map fun m => (m.key, f m.value) := by
    have hmem : x ∈ o.content f := by
      rw [h]
      exact Multiset.mem_cons_self x others
    exact Multiset.mem_coe.mp hmem
  obtain ⟨m, hm, hmx⟩ := List.mem_map.mp hx
  obtain ⟨pre, post, hsplit⟩ := List.append_of_mem hm
  refine ⟨pre, m, post, hsplit, hmx, fun n hn => ?_⟩
  have hperm : o.members.Perm (m :: (pre ++ post)) := hsplit ▸ List.perm_middle
  have hothers : ((pre ++ post).map fun m => (m.key, f m.value) : Multiset (Literal × β)) = others := by
    have hcontent : o.content f = x ::ₘ ((pre ++ post).map fun m => (m.key, f m.value)) := by
      rw [LaidObject.content, Multiset.coe_eq_coe.mpr (hperm.map _), List.map_cons, hmx]
      rfl
    exact (Multiset.cons_inj_right x).mp (hcontent.symm.trans h)
  rw [← hothers, Multiset.mem_coe]
  exact List.mem_map_of_mem (f := fun m => (m.key, f m.value)) hn

section Objects

variable {α : Type} (tok : α → List Token)

/-- The tokens of a member behind its key. -/
def LaidMember.behindKey (m : LaidMember α) : List Token :=
  charTokens m.beforeColon.chars ++
    .char ':' :: (charTokens m.afterColon.chars ++ (tok m.value ++ charTokens m.after.chars))

/-- The tokens of a member. -/
def LaidMember.tokens (m : LaidMember α) : List Token :=
  charTokens m.before.chars ++ .lit m.key.body :: m.behindKey tok

/-- Members, each behind a character that separates it from what stands before. -/
def membersTokens : Char → List (LaidMember α) → List Token
  | _, [] => []
  | c, m :: ms => .char c :: (m.tokens tok ++ membersTokens ',' ms)

/-- The tokens of an object. -/
def LaidObject.tokens (o : LaidObject α) : List Token :=
  match o.members with
  | [] => .char '{' :: (charTokens o.gap.chars ++ [.char '}'])
  | m :: ms => membersTokens tok '{' (m :: ms) ++ [.char '}']

/-! ### Well-formed text -/

/-- The values are well-formed text. -/
def ValuesWellFormed : Prop := ∀ a ts, WellFormed ts → EndsValue ts → WellFormed (tok a ++ ts)

variable {tok}

theorem LaidMember.wellFormed (htok : ValuesWellFormed tok) (m : LaidMember α) {ts : List Token}
    (hts : WellFormed ts) (hend : EndsValue ts) : WellFormed (m.tokens tok ++ ts) := by
  have hvalue : WellFormed (charTokens m.afterColon.chars ++ (tok m.value ++
      (charTokens m.after.chars ++ ts))) :=
    wellFormed_charTokens m.afterColon.quote_not_mem
      (htok _ _ (wellFormed_charTokens m.after.quote_not_mem hts) (m.after.endsValue hend))
  have hbehind : WellFormed (m.behindKey tok ++ ts) := by
    simp only [behindKey, List.append_assoc, List.cons_append]
    exact wellFormed_charTokens m.beforeColon.quote_not_mem ⟨by decide, hvalue⟩
  have hhead : ∀ c ∈ (tokensText (m.behindKey tok ++ ts)).head?, joinsLiteral c = false := by
    intro c hc
    simp only [behindKey, List.append_assoc, List.cons_append, tokensText_append,
      tokensText_charTokens, tokensText_char, List.head?_append, List.head?_cons] at hc
    cases hg : m.beforeColon.chars.head? with
    | none =>
      rw [hg, Option.none_or, Option.mem_some_iff] at hc
      rw [← hc]
      decide
    | some d =>
      rw [hg, Option.some_or, Option.mem_some_iff] at hc
      rw [← hc]
      have hend : EndsValue [.char d] := endsValue_char (Gap.head?_endsValue hg) []
      exact hend.not_joinsLiteral d rfl
  simp only [tokens, List.append_assoc, List.cons_append]
  exact wellFormed_charTokens m.before.quote_not_mem ⟨m.key.readsTo.1, hhead, hbehind⟩

theorem endsValue_membersTokens (ms : List (LaidMember α)) {ts : List Token} (hend : EndsValue ts) :
    EndsValue (membersTokens tok ',' ms ++ ts) := by
  cases ms with
  | nil => exact hend
  | cons m ms => exact endsValue_char (by decide) _

theorem wellFormed_membersTokens (htok : ValuesWellFormed tok) {c : Char} (hc : c ≠ '"')
    (ms : List (LaidMember α)) {ts : List Token} (hts : WellFormed ts) (hend : EndsValue ts) :
    WellFormed (membersTokens tok c ms ++ ts) := by
  induction ms generalizing c with
  | nil => exact hts
  | cons m ms ih =>
    rw [membersTokens, List.cons_append, List.append_assoc]
    exact ⟨hc, m.wellFormed htok (ih (by decide)) (endsValue_membersTokens ms hend)⟩

theorem LaidObject.wellFormed (htok : ValuesWellFormed tok) (o : LaidObject α) {ts : List Token}
    (hts : WellFormed ts) : WellFormed (o.tokens tok ++ ts) := by
  have hclose : WellFormed (.char '}' :: ts) := ⟨by decide, hts⟩
  unfold LaidObject.tokens
  split
  · rw [List.cons_append, List.append_assoc]
    exact ⟨by decide, wellFormed_charTokens o.gap.quote_not_mem hclose⟩
  · rw [List.append_assoc]
    exact wellFormed_membersTokens htok (by decide) _ hclose (endsValue_char (by decide) _)

/-! ### What a search passes over -/

/-- The search for a key passes over the tokens, in front of anything that may stand behind a value. -/
def Skips (key : String) (suffix : List Char) (us : List Token) : Prop :=
  ∀ ts, EndsValue ts → findKey key suffix (us ++ ts) = findKey key suffix ts

variable {key : String} {suffix : List Char}

theorem skips_charTokens (cs : List Char) : Skips key suffix (charTokens cs) :=
  fun ts _ => findKey_charTokens key suffix cs ts

/-- A literal that is a value is not found, since no colon follows. -/
theorem skips_lit (body : List Char) : Skips key (':' :: suffix) [.lit body] := by
  intro ts hts
  rw [List.singleton_append, findKey, if_neg]
  rintro ⟨-, tail, htail⟩
  have := hts ':' (by rw [← htail]; rfl)
  cases this

theorem findKey_member (m : LaidMember α) (ts : List Token) :
    findKey key suffix (m.tokens tok ++ ts) = findKey key suffix (.lit m.key.body :: (m.behindKey tok ++ ts)) := by
  simp only [LaidMember.tokens, List.append_assoc, List.cons_append, findKey_charTokens]

/-- A text that does not start with whitespace comes behind a gap only if the gap is empty. -/
theorem Gap.prefix_iff (gap : Gap) {c : Char} (hc : isWhitespace c = false) {cs rest : List Char} :
    c :: cs <+: gap.chars ++ rest ↔ gap.chars = [] ∧ c :: cs <+: rest := by
  cases hg : gap.chars with
  | nil => simp
  | cons d ds =>
    refine ⟨fun h => ?_, fun h => absurd h.1 (List.cons_ne_nil d ds)⟩
    have hd : isWhitespace d = true := Gap.head? (by rw [hg]; rfl)
    rw [← (List.cons_prefix_cons.mp h).1, hc] at hd
    cases hd

theorem tokensText_behindKey (m : LaidMember α) (ts : List Token) :
    tokensText (m.behindKey tok ++ ts) =
      m.beforeColon.chars ++ ':' :: (m.afterColon.chars ++ tokensText (tok m.value ++
        (charTokens m.after.chars ++ ts))) := by
  simp [LaidMember.behindKey]

/-- The colon follows the key directly exactly if the gap before it is empty. -/
theorem LaidMember.colon_prefix_iff (m : LaidMember α) (ts : List Token) :
    [':'] <+: tokensText (m.behindKey tok ++ ts) ↔ m.beforeColon.chars = [] := by
  rw [tokensText_behindKey, m.beforeColon.prefix_iff (by decide)]
  simp

/-- The colon and a quote follow the key directly exactly if both gaps are empty and the value is a
string. -/
theorem LaidMember.colonQuote_prefix_iff (m : LaidMember α) (ts : List Token) :
    [':', '"'] <+: tokensText (m.behindKey tok ++ ts) ↔
      m.beforeColon.chars = [] ∧ m.afterColon.chars = [] ∧
        ['"'] <+: tokensText (tok m.value ++ (charTokens m.after.chars ++ ts)) := by
  rw [tokensText_behindKey, m.beforeColon.prefix_iff (by decide), List.cons_prefix_cons,
    m.afterColon.prefix_iff (by decide)]
  simp

/-- A member is passed over if its key is another one, or if other characters follow the key. -/
theorem LaidMember.skips (m : LaidMember α) (hvalue : Skips key suffix (tok m.value))
    (h : ∀ ts, ¬ (EndsAs key m.key.body ∧ suffix <+: tokensText (m.behindKey tok ++ ts))) :
    Skips key suffix (m.tokens tok) := by
  intro ts hts
  rw [findKey_member, findKey, if_neg (h ts), behindKey]
  simp only [List.append_assoc, List.cons_append, findKey_charTokens, findKey]
  rw [hvalue _ (m.after.endsValue hts), findKey_charTokens]

/-- A member whose key stands for another identifier is passed over. -/
theorem LaidMember.skips_of_ne (hkey : IsIdent key) (m : LaidMember α) (hident : IsIdent m.key.value)
    (hne : m.key.value ≠ key) (hvalue : Skips key suffix (tok m.value)) :
    Skips key suffix (m.tokens tok) :=
  m.skips hvalue fun _ h => hne (Literal.value_eq hident hkey h.1).2

theorem LaidMember.not_isTight_of_ne (hkey : IsIdent key) (m : LaidMember α)
    (hident : IsIdent m.key.value) (hne : m.key.value ≠ key) : ¬ m.IsTight key :=
  fun h => hne (Literal.value_eq hident hkey (h.1 ▸ endsAs_self key)).2

theorem skips_membersTokens {c : Char} {ms : List (LaidMember α)}
    (h : ∀ m ∈ ms, Skips key suffix (m.tokens tok)) : Skips key suffix (membersTokens tok c ms) := by
  induction ms generalizing c with
  | nil => exact fun ts _ => rfl
  | cons m ms ih =>
    obtain ⟨hm, hms⟩ := List.forall_mem_cons.mp h
    intro ts hts
    rw [membersTokens, List.cons_append, List.append_assoc, findKey,
      hm _ (endsValue_membersTokens ms hts), ih hms ts hts]

/-- An object of members that are passed over. -/
theorem LaidObject.skips (o : LaidObject α) (h : ∀ m ∈ o.members, Skips key suffix (m.tokens tok)) :
    Skips key suffix (o.tokens tok) := by
  intro ts _
  have hclose : EndsValue (.char '}' :: ts) := endsValue_char (by decide) ts
  unfold LaidObject.tokens
  split
  · simp only [List.cons_append, List.append_assoc, findKey, findKey_charTokens, List.nil_append]
  · rename_i m ms hms
    rw [hms] at h
    rw [List.append_assoc]
    exact skips_membersTokens h _ hclose

/-- Members that are passed over in front of another one. -/
theorem findKey_membersTokens_append {c : Char} {pre : List (LaidMember α)}
    (hpre : ∀ n ∈ pre, Skips key suffix (n.tokens tok)) (m : LaidMember α) (post : List (LaidMember α))
    {ts : List Token} (hts : EndsValue ts) :
    findKey key suffix (membersTokens tok c (pre ++ m :: post) ++ ts) =
      findKey key suffix (m.tokens tok ++ (membersTokens tok ',' post ++ ts)) := by
  induction pre generalizing c with
  | nil => rw [List.nil_append, membersTokens, List.cons_append, List.append_assoc, findKey]
  | cons n pre ih =>
    obtain ⟨hn, hpre⟩ := List.forall_mem_cons.mp hpre
    rw [List.cons_append, membersTokens, List.cons_append, List.append_assoc, findKey,
      hn _ (endsValue_membersTokens _ hts), ih hpre]

/-- The search reaches the one member that is not passed over. -/
theorem LaidObject.findKey_tokens (suffix : List Char) {o : LaidObject α} {pre post : List (LaidMember α)} {m : LaidMember α}
    (ho : o.members = pre ++ m :: post) (hpre : ∀ n ∈ pre, Skips key suffix (n.tokens tok))
    (hpost : ∀ n ∈ post, Skips key suffix (n.tokens tok)) (ts : List Token) :
    ∃ us, EndsValue us ∧ findKey key suffix us = findKey key suffix ts ∧
      findKey key suffix (o.tokens tok ++ ts) = findKey key suffix (m.tokens tok ++ us) := by
  have hclose : EndsValue (.char '}' :: ts) := endsValue_char (by decide) ts
  refine ⟨membersTokens tok ',' post ++ .char '}' :: ts, endsValue_membersTokens post hclose, ?_, ?_⟩
  · rw [skips_membersTokens hpost _ hclose]
    rfl
  · have htokens : o.tokens tok = membersTokens tok '{' (pre ++ m :: post) ++ [.char '}'] := by
      unfold LaidObject.tokens
      cases pre <;> rw [ho] <;> rfl
    rw [htokens, List.append_assoc]
    exact findKey_membersTokens_append hpre m post hclose

end Objects

end InferenceGateway.Common
