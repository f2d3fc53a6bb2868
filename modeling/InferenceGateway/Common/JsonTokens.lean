import InferenceGateway.Common.JsonParse
import InferenceGateway.Common.JsonSearch

/-!
# JSON texts as tokens

A JSON text, with whatever whitespace, is a list of tokens: string literals, and characters between them.
A literal is given by what stands between its quotes, escapes and all. A scanner that searches the text
for `"key"` and some characters behind it finds a literal that ends as the key does, quotes included, and
that these characters follow: `findKey` is this search on the tokens, and `after_tokensText` says that it
is the search on the text.
-/

namespace InferenceGateway.Common

/-! ## Literals -/

/-- Every quote in the text directly follows a backslash. -/
def EscapesQuotes (body : List Char) : Prop := ∀ u v, body = u ++ '"' :: v → u.getLast? = some '\\'

theorem escapesQuotes_of_not_mem {body : List Char} (h : '"' ∉ body) : EscapesQuotes body := by
  rintro u v rfl
  exact absurd (List.mem_append_right u List.mem_cons_self) h

theorem EscapesQuotes.append {p q : List Char} (hp : EscapesQuotes p) (hq : EscapesQuotes q) :
    EscapesQuotes (p ++ q) := by
  intro u v h
  rcases List.append_eq_append_iff.mp h with ⟨w, rfl, hw⟩ | ⟨w, rfl, hw⟩
  · -- The quote is in the second part.
    rw [List.getLast?_append, hq w v hw, Option.some_or]
  · cases w with
    | nil =>
      have := hq [] v hw.symm
      cases this
    | cons c w =>
      rw [List.cons_append, List.cons.injEq] at hw
      exact hp u w (by rw [hw.1])

theorem escapesQuotes_escapedQuote : EscapesQuotes ['\\', '"'] := by
  intro u v h
  match u, h with
  | [c], h =>
    rw [List.singleton_append, List.cons.injEq] at h
    rw [← h.1]
    rfl
  | c :: d :: u, h => simp at h

/-! ## Tokens -/

/-- A string literal, by the text between its quotes, or a character outside of literals. -/
inductive Token
  | lit (body : List Char)
  | char (c : Char)
deriving DecidableEq

/-- The text of a token. -/
def Token.text : Token → List Char
  | .lit body => '"' :: (body ++ ['"'])
  | .char c => [c]

/-- The text of a list of tokens. -/
def tokensText (ts : List Token) : List Char := ts.flatMap Token.text

@[simp] theorem tokensText_nil : tokensText [] = [] := rfl

@[simp] theorem tokensText_char (c : Char) (ts : List Token) :
    tokensText (.char c :: ts) = c :: tokensText ts := rfl

@[simp] theorem tokensText_lit (body : List Char) (ts : List Token) :
    tokensText (.lit body :: ts) = '"' :: (body ++ '"' :: tokensText ts) := by
  rw [tokensText, List.flatMap_cons, Token.text, List.cons_append, List.append_assoc]
  rfl

@[simp] theorem tokensText_append (ts us : List Token) :
    tokensText (ts ++ us) = tokensText ts ++ tokensText us := List.flatMap_append

/-- A character that cannot stand directly behind a literal: that of an identifier, or a quote. -/
def joinsLiteral (c : Char) : Bool := c == '"' || isIdentChar c

/-- Tokens of which a JSON text may consist. -/
def WellFormed : List Token → Prop
  | [] => True
  | .char c :: ts => c ≠ '"' ∧ WellFormed ts
  | .lit body :: ts =>
    EscapesQuotes body ∧ (∀ c ∈ (tokensText ts).head?, joinsLiteral c = false) ∧ WellFormed ts

/-- A text that starts with a quote starts with a literal. -/
theorem exists_lit_of_text {ts : List Token} (hts : WellFormed ts) {rest : List Char}
    (h : tokensText ts = '"' :: rest) :
    ∃ body us, ts = .lit body :: us ∧ rest = body ++ '"' :: tokensText us := by
  match ts, hts, h with
  | .lit body :: us, _, h =>
    rw [tokensText_lit, List.cons.injEq] at h
    exact ⟨body, us, rfl, h.2.symm⟩
  | .char c :: us, hts, h =>
    rw [tokensText_char, List.cons.injEq] at h
    exact absurd h.1 hts.1

/-! ## The search for a key -/

/-- A quote, the key, a quote and what follows it. -/
def literalPattern (key : String) (suffix : List Char) : List Char := '"' :: (key.toList ++ '"' :: suffix)

theorem keyPattern_append (key : String) (suffix : List Char) :
    keyPattern key ++ suffix = literalPattern key (':' :: suffix) := by
  simp [keyPattern, literalPattern]

/-- A literal ends as the key does, the quote before the key included: it is the key, or the key stands
behind a quote at its end. -/
def EndsAs (key : String) (body : List Char) : Prop := '"' :: key.toList <:+ '"' :: body

instance (key : String) (body : List Char) : Decidable (EndsAs key body) :=
  inferInstanceAs (Decidable (_ <:+ _))

theorem endsAs_self (key : String) : EndsAs key key.toList := List.suffix_rfl

/-- A literal without quotes ends as a key does only if it is the key. -/
theorem endsAs_iff_of_not_mem {key : String} {body : List Char} (h : '"' ∉ body) :
    EndsAs key body ↔ body = key.toList := by
  constructor
  · rintro ⟨pre, hpre⟩
    cases pre with
    | nil => exact (List.cons.inj hpre).2.symm
    | cons c pre =>
      rw [List.cons_append, List.cons.injEq] at hpre
      exact absurd (hpre.2 ▸ List.mem_append_right pre List.mem_cons_self) h
  · rintro rfl
    exact endsAs_self key

/-- From a quote of a literal on, the pattern is spelled exactly if the rest of the literal is the key and
what follows fits. -/
theorem literalPattern_prefix_iff {key : String} (hkey : IsIdent key) {body u w : List Char}
    (hbody : EscapesQuotes body) (hsplit : '"' :: body = u ++ '"' :: w) {suffix rest : List Char} :
    literalPattern key suffix <+: '"' :: (w ++ '"' :: rest) ↔ w = key.toList ∧ suffix <+: rest := by
  have hquote : '"' ∉ key.toList := fun hmem => by cases hkey _ hmem
  constructor
  · intro h
    obtain ⟨tail, htail⟩ := (List.cons_prefix_cons.mp h).2
    rw [List.append_assoc, List.cons_append] at htail
    by_cases hw : '"' ∈ w
    · -- A quote behind the key would have to be escaped by a letter of the key.
      exfalso
      obtain ⟨w₁, w₂, rfl, hw₁⟩ := List.eq_append_cons_of_mem hw
      rw [List.append_assoc, List.cons_append] at htail
      obtain rfl := eq_of_append_cons_eq hquote hw₁ htail
      cases u with
      | nil =>
        rw [List.nil_append, List.cons.injEq] at hsplit
        have := hbody _ _ hsplit.2
        cases hkey _ (List.mem_of_getLast? this)
      | cons d u =>
        rw [List.cons_append, List.cons.injEq] at hsplit
        have := hbody (u ++ '"' :: key.toList) w₂ (by rw [hsplit.2]; simp)
        rw [List.getLast?_append_cons] at this
        rcases List.mem_cons.mp (List.mem_of_getLast? this) with heq | hmem
        · cases heq
        · cases hkey _ hmem
    · obtain rfl := eq_of_append_cons_eq hquote hw htail
      rw [List.append_cancel_left_eq, List.cons.injEq] at htail
      exact ⟨rfl, tail, htail.2⟩
  · rintro ⟨rfl, tail, rfl⟩
    exact ⟨tail, by simp [literalPattern]⟩

/-- Behind a literal, no pattern starts at its closing quote. -/
private theorem not_literalPattern_prefix {key : String} (hkey : IsIdent key) {suffix rest : List Char}
    (hrest : ∀ c ∈ rest.head?, joinsLiteral c = false) : ¬ literalPattern key suffix <+: '"' :: rest := by
  intro h
  have h := (List.cons_prefix_cons.mp h).2
  cases hk : key.toList with
  | nil =>
    rw [hk] at h
    obtain ⟨tail, rfl⟩ := h
    cases hrest '"' rfl
  | cons c cs =>
    rw [hk] at h
    obtain ⟨tail, rfl⟩ := h
    have hc : joinsLiteral c = false := hrest c rfl
    rw [joinsLiteral, hkey c (hk ▸ List.mem_cons_self), Bool.or_true] at hc
    cases hc

/-- No pattern starts in a literal that does not end as the key does, or that other characters follow. -/
theorem noStart_literal {key : String} (hkey : IsIdent key) {body suffix rest : List Char}
    (hbody : EscapesQuotes body) (hrest : ∀ c ∈ rest.head?, joinsLiteral c = false)
    (h : ¬ (EndsAs key body ∧ suffix <+: rest)) :
    NoStart (literalPattern key suffix) (Token.lit body).text rest := by
  rw [Token.text, ← List.cons_append, noStart_append]
  refine ⟨noStart_iff.mpr fun u c w hsplit hpre => ?_, not_literalPattern_prefix hkey hrest, trivial⟩
  obtain rfl := (List.cons_prefix_cons.mp hpre).1
  obtain ⟨rfl, hsuffix⟩ := (literalPattern_prefix_iff hkey hbody hsplit).mp hpre
  exact h ⟨⟨u, hsplit.symm⟩, hsuffix⟩

/-- In a literal that ends as the key does and that the right characters follow, the pattern starts at the
quote before the key. -/
theorem literal_split {key : String} (hkey : IsIdent key) {body : List Char} (hbody : EscapesQuotes body)
    (hends : EndsAs key body) (suffix rest : List Char) :
    ∃ pre, (Token.lit body).text ++ (suffix ++ rest) = pre ++ (literalPattern key suffix ++ rest) ∧
      NoStart (literalPattern key suffix) pre (literalPattern key suffix ++ rest) := by
  obtain ⟨pre, hpre⟩ := hends
  refine ⟨pre, ?_, noStart_iff.mpr fun u c v hsplit hprefix => ?_⟩
  · rw [Token.text, ← List.cons_append, ← hpre]
    simp [literalPattern]
  · -- An earlier start would make the rest of the literal longer than the key.
    obtain rfl := (List.cons_prefix_cons.mp hprefix).1
    rw [hsplit, List.append_assoc] at hpre
    have htext : v ++ (literalPattern key suffix ++ rest) =
        (v ++ '"' :: key.toList) ++ '"' :: (suffix ++ rest) := by simp [literalPattern]
    rw [htext] at hprefix
    have heq : v ++ '"' :: key.toList = key.toList :=
      ((literalPattern_prefix_iff hkey hbody hpre.symm).mp hprefix).1
    have hlen := congrArg List.length heq
    rw [List.length_append, List.length_cons] at hlen
    omega

/-- The text behind the first literal that ends as the key does and that `suffix` follows. -/
def findKey (key : String) (suffix : List Char) : List Token → Option (List Char)
  | [] => none
  | .char _ :: ts => findKey key suffix ts
  | .lit body :: ts =>
    if EndsAs key body ∧ suffix <+: tokensText ts then some ((tokensText ts).drop suffix.length)
    else findKey key suffix ts

theorem findKey_eq_some {key : String} (hkey : IsIdent key) {suffix rest : List Char} {ts : List Token}
    (hts : WellFormed ts) (h : findKey key suffix ts = some rest) :
    ∃ pre, tokensText ts = pre ++ (literalPattern key suffix ++ rest) ∧
      NoStart (literalPattern key suffix) pre (literalPattern key suffix ++ rest) := by
  induction ts with
  | nil => cases h
  | cons t ts ih =>
    cases t with
    | char c =>
      obtain ⟨pre, htext, hpre⟩ := ih hts.2 h
      refine ⟨c :: pre, by rw [tokensText_char, htext, List.cons_append], ?_, hpre⟩
      exact fun hprefix => hts.1 (List.cons_prefix_cons.mp hprefix).1.symm
    | lit body =>
      obtain ⟨hbody, hhead, hts⟩ := hts
      have hsplit : tokensText (.lit body :: ts) = (Token.lit body).text ++ tokensText ts := rfl
      rw [findKey] at h
      split at h
      · rename_i hfound
        obtain ⟨hends, tail, htail⟩ := hfound
        obtain rfl : tail = rest := by rw [← htail, List.drop_left] at h; exact Option.some.inj h
        rw [hsplit, ← htail]
        exact literal_split hkey hbody hends suffix tail
      · rename_i hfound
        obtain ⟨pre, htext, hpre⟩ := ih hts h
        refine ⟨(Token.lit body).text ++ pre, by rw [hsplit, htext, List.append_assoc], ?_⟩
        rw [noStart_append, ← htext]
        exact ⟨noStart_literal hkey hbody hhead hfound, hpre⟩

theorem findKey_eq_none {key : String} (hkey : IsIdent key) {suffix : List Char} {ts : List Token}
    (hts : WellFormed ts) (h : findKey key suffix ts = none) :
    NoStart (literalPattern key suffix) (tokensText ts) [] := by
  induction ts with
  | nil => trivial
  | cons t ts ih =>
    cases t with
    | char c => exact ⟨fun hpre => hts.1 (List.cons_prefix_cons.mp hpre).1.symm, ih hts.2 h⟩
    | lit body =>
      obtain ⟨hbody, hhead, hts⟩ := hts
      rw [findKey] at h
      split at h
      · cases h
      · rename_i hfound
        have hsplit : tokensText (.lit body :: ts) = (Token.lit body).text ++ tokensText ts := rfl
        rw [hsplit, noStart_append, List.append_nil]
        exact ⟨noStart_literal hkey hbody hhead hfound, ih hts h⟩

theorem ascii_literalPattern {key : String} (hkey : IsIdent key) {suffix : List Char} (h : Ascii suffix) :
    Ascii (literalPattern key suffix) := by
  intro c hc
  simp only [literalPattern, List.mem_cons, List.mem_append] at hc
  rcases hc with rfl | hc | rfl | hc
  · decide
  · exact toNat_lt_of_isIdentChar (hkey c hc)
  · decide
  · exact h c hc

/-- The search for a key in a text is the search on its tokens. -/
theorem after_tokensText {key : String} (hkey : IsIdent key) {suffix : List Char} {ts : List Token}
    (hts : WellFormed ts) :
    after (literalPattern key suffix) (tokensText ts) = findKey key suffix ts := by
  cases hfind : findKey key suffix ts with
  | none => exact after_eq_none (List.cons_ne_nil _ _) (findKey_eq_none hkey hts hfind)
  | some rest =>
    obtain ⟨pre, htext, hpre⟩ := findKey_eq_some hkey hts hfind
    rw [htext]
    exact after_of_noStart hpre

/-- The search for a key in an encoded text is the search in the text. -/
theorem after_utf8_literalPattern {key : String} (hkey : IsIdent key) {suffix : List Char}
    (hsuffix : Ascii suffix) (cs : List Char) :
    after (utf8 (literalPattern key suffix)) (utf8 cs) = (after (literalPattern key suffix) cs).map utf8 :=
  after_utf8_map (ascii_literalPattern hkey hsuffix) cs

/-- The search in a text behind the opening quote of its first literal: the literal is not found unless it
only ends as the key does. -/
theorem after_literal_tail {key : String} (hkey : IsIdent key) (suffix : List Char) {body : List Char}
    {ts : List Token} (hts : WellFormed (.lit body :: ts)) :
    after (literalPattern key suffix) (body ++ '"' :: tokensText ts) =
      if body = key.toList then findKey key suffix ts else findKey key suffix (.lit body :: ts) := by
  split
  · rename_i hbody
    -- There is no quote in the key, and no pattern starts at the one that ends it.
    have hquote : '"' ∉ body := fun hmem => by cases hkey _ (hbody ▸ hmem)
    have hskip : NoStart (literalPattern key suffix) (body ++ ['"']) (tokensText ts) := by
      rw [noStart_append]
      exact ⟨noStart_of_head_not_mem hquote, not_literalPattern_prefix hkey hts.2.1, trivial⟩
    rw [← after_tokensText hkey hts.2.2, ← after_skip hskip]
    simp
  · rename_i hbody
    have hskip : NoStart (literalPattern key suffix) ['"'] (body ++ '"' :: tokensText ts) :=
      ⟨fun h => hbody ((literalPattern_prefix_iff hkey hts.1 (List.nil_append _).symm).mp h).1, trivial⟩
    rw [← after_tokensText hkey hts, tokensText_lit, ← after_skip hskip]
    rfl

end InferenceGateway.Common
