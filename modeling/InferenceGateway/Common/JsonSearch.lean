import InferenceGateway.Common.Json
import InferenceGateway.Common.Utf8

/-!
# Searching a JSON text for a key

A scanner that searches a JSON text for `"key":` without parsing it can only be led astray if the pattern
occurs within a string literal. It does not. A quote inside a literal is the opening one, an escaped one,
or the closing one. From either of the first two, the letters of the key would have to be followed by a
quote that no backslash precedes: only the closing quote is such a one, and what comes behind it is a
comma or a bracket and never a colon. Behind the closing quote there is no letter of a key.

`Json.Free` says that a value has no member that a pattern is meant for, and `noStart_compact` that the
pattern then starts nowhere in the text of the value.
-/

namespace InferenceGateway.Common

/-! ## Keys -/

/-- A letter of an identifier. -/
def isIdentChar (c : Char) : Bool := c.isAlphanum || c == '_'

/-- A key that is an identifier; it is written without escapes. -/
def IsIdent (key : String) : Prop := ∀ c ∈ key.toList, isIdentChar c = true

instance (key : String) : Decidable (IsIdent key) := List.decidableBAll _ key.toList

theorem toNat_lt_of_isIdentChar {c : Char} (h : isIdentChar c = true) : c.toNat < 128 := by
  simp only [isIdentChar, Char.isAlphanum, Char.isAlpha, Char.isUpper, Char.isLower, Char.isDigit,
    Bool.or_eq_true, Bool.and_eq_true, decide_eq_true_eq, beq_iff_eq, ge_iff_le,
    UInt32.le_iff_toNat_le] at h
  rcases h with ((h | h) | h) | rfl
  · exact Nat.lt_of_le_of_lt h.2 (by decide)
  · exact Nat.lt_of_le_of_lt h.2 (by decide)
  · exact Nat.lt_of_le_of_lt h.2 (by decide)
  · decide

/-- `"key":`. -/
def keyPattern (key : String) : List Char := '"' :: (key.toList ++ ['"', ':'])

/-- A text that may stand behind a value: a comma, a bracket or nothing. -/
def ClosesValue (rest : List Char) : Prop := ∀ c ∈ rest.head?, c = ',' ∨ c = ']' ∨ c = '}'

theorem closesValue_cons {c : Char} {rest : List Char} (h : c = ',' ∨ c = ']' ∨ c = '}') :
    ClosesValue (c :: rest) := fun d hd => by
  rw [List.head?_cons, Option.mem_some_iff] at hd
  exact hd ▸ h

/-! ## Within a string literal -/

/-- Only the escape of a quote has a quote in it. -/
theorem quote_not_mem_escapeChar {c : Char} (h : c ≠ '"') : '"' ∉ escapeChar c := by
  have hhex : ∀ n < 16, Nat.digitChar n ≠ '"' := by decide
  rw [escapeChar, if_neg h]
  split_ifs with _ _ _ _ _ _ hctl
  all_goals try decide
  · simp only [List.mem_cons, List.not_mem_nil, or_false, not_or]
    exact ⟨by decide, by decide, by decide, by decide, (hhex _ (by omega)).symm,
      (hhex _ (by omega)).symm⟩
  · simpa using Ne.symm h

/-- From a quote inside of a literal on, no key is spelled. -/
private theorem not_key_prefix_escape {key rest : List Char}
    (hkey : ∀ c ∈ key, isIdentChar c = true) (hrest : ClosesValue rest) (cs : List Char) :
    ¬ key ++ ['"', ':'] <+: escape cs ++ '"' :: rest := by
  induction key generalizing cs with
  | nil =>
    intro h
    -- The key is used up, so its closing quote would have to be the quote that ends the literal.
    cases cs with
    | nil =>
      obtain ⟨tail, htail⟩ := (List.cons_prefix_cons.mp h).2
      exact absurd (hrest ':' (by rw [← htail]; rfl)) (by decide)
    | cons c cs =>
      cases hneeds : needsEscape c with
      | true =>
        obtain ⟨d, tail, hesc⟩ := escapeChar_of_needsEscape hneeds
        rw [escape_cons, hesc] at h
        cases (List.cons_prefix_cons.mp h).1
      | false =>
        rw [escape_cons, escapeChar_of_not_needsEscape hneeds] at h
        rw [← (List.cons_prefix_cons.mp h).1] at hneeds
        cases hneeds
  | cons k key ih =>
    obtain ⟨hk, hkey⟩ := List.forall_mem_cons.mp hkey
    intro h
    cases cs with
    | nil =>
      rw [(List.cons_prefix_cons.mp h).1] at hk
      cases hk
    | cons c cs =>
      cases hneeds : needsEscape c with
      | true =>
        obtain ⟨d, tail, hesc⟩ := escapeChar_of_needsEscape hneeds
        rw [escape_cons, hesc] at h
        rw [(List.cons_prefix_cons.mp h).1] at hk
        cases hk
      | false =>
        rw [escape_cons, escapeChar_of_not_needsEscape hneeds] at h
        exact ih hkey cs (List.cons_prefix_cons.mp h).2

/-- Behind a quote that no letter follows, no key is spelled. -/
private theorem not_keyPattern_prefix {key : String} (hkey : IsIdent key) {rest : List Char}
    (hrest : ∀ c ∈ rest.head?, c ≠ '"' ∧ isIdentChar c = false) : ¬ keyPattern key <+: '"' :: rest := by
  intro h
  have h := (List.cons_prefix_cons.mp h).2
  cases hs : key.toList with
  | nil =>
    rw [hs] at h
    obtain ⟨tail, rfl⟩ := h
    exact (hrest '"' rfl).1 rfl
  | cons c cs =>
    rw [hs] at h
    obtain ⟨tail, rfl⟩ := h
    have hc := hkey c (hs ▸ List.mem_cons_self)
    rw [(hrest c rfl).2] at hc
    cases hc

/-- No key pattern starts in a string literal that is a value. -/
theorem noStart_quoted {key : String} (hkey : IsIdent key) {rest : List Char} (hrest : ClosesValue rest)
    (s : String) : NoStart (keyPattern key) (quoted s) rest := by
  have hcontent (cs : List Char) : NoStart (keyPattern key) (escape cs) ('"' :: rest) := by
    induction cs with
    | nil => trivial
    | cons c cs ih =>
      rw [escape_cons, noStart_append]
      refine ⟨?_, ih⟩
      -- Only an escaped quote has a quote in its text, as its second character.
      by_cases hquote : c = '"'
      · subst hquote
        refine ⟨fun h => ?_, fun h => ?_, trivial⟩
        · cases (List.cons_prefix_cons.mp h).1
        · exact not_key_prefix_escape hkey hrest cs (List.cons_prefix_cons.mp h).2
      · exact noStart_of_head_not_mem (quote_not_mem_escapeChar hquote)
  rw [quoted, noStart_append]
  refine ⟨⟨fun h => ?_, hcontent s.toList⟩, not_keyPattern_prefix hkey fun c hc => ?_, trivial⟩
  · exact not_key_prefix_escape hkey hrest s.toList (List.cons_prefix_cons.mp h).2
  · rcases hrest c hc with rfl | rfl | rfl <;> decide

/-! ## Members -/

private theorem eq_of_prefix {key k tail rest : List Char} (hkey : ∀ c ∈ key, isIdentChar c = true)
    (hk : ∀ c ∈ k, isIdentChar c = true) (h : key ++ '"' :: tail <+: k ++ '"' :: rest) :
    key = k ∧ tail <+: rest := by
  induction key generalizing k with
  | nil =>
    cases k with
    | nil => exact ⟨rfl, (List.cons_prefix_cons.mp h).2⟩
    | cons c k =>
      have hc := hk c List.mem_cons_self
      rw [← (List.cons_prefix_cons.mp h).1] at hc
      cases hc
  | cons c key ih =>
    obtain ⟨hc, hkey⟩ := List.forall_mem_cons.mp hkey
    cases k with
    | nil =>
      rw [(List.cons_prefix_cons.mp h).1] at hc
      cases hc
    | cons d k =>
      obtain ⟨rfl, hpre⟩ := List.cons_prefix_cons.mp h
      obtain ⟨rfl, htail⟩ := ih hkey (List.forall_mem_cons.mp hk).2 hpre
      exact ⟨rfl, htail⟩

/-- A pattern for one key starts at this key only, and only if what follows the colon fits. -/
theorem noStart_keyPattern {key k : String} (hkey : IsIdent key) (hk : IsIdent k)
    {suffix rest : List Char} (h : key = k → ¬ suffix <+: rest) :
    NoStart (keyPattern key ++ suffix) (keyPattern k) rest := by
  have hquote : '"' ∉ k.toList := fun hmem => by cases hk _ hmem
  rw [keyPattern.eq_def k, ← List.cons_append, noStart_append]
  refine ⟨⟨fun hpre => ?_, ?_⟩, fun hpre => ?_, fun hpre => ?_, trivial⟩
  · rw [keyPattern, List.cons_append] at hpre
    have hpre := (List.cons_prefix_cons.mp hpre).2
    simp only [List.append_assoc, List.cons_append, List.nil_append] at hpre
    obtain ⟨hlist, hpre⟩ := eq_of_prefix hkey hk hpre
    exact h (String.toList_injective hlist) (List.cons_prefix_cons.mp hpre).2
  · exact noStart_of_head_not_mem hquote
  · have hcolon : ∀ c ∈ (':' :: rest).head?, c ≠ '"' ∧ isIdentChar c = false := by
      intro c hc
      cases hc
      decide
    exact not_keyPattern_prefix hkey hcolon ((List.prefix_append _ _).trans hpre)
  · cases (List.cons_prefix_cons.mp hpre).1

/-- A pattern for one key does not start at another one. -/
theorem noStart_keyPattern_of_ne {key k : String} (hkey : IsIdent key) (hk : IsIdent k) (hne : key ≠ k)
    (suffix rest : List Char) : NoStart (keyPattern key ++ suffix) (keyPattern k) rest :=
  noStart_keyPattern hkey hk fun h => absurd h hne

/-- A member at which the pattern for a key and a suffix does not start: it has another key, or its value
starts with another letter than the suffix. -/
structure MemberFree (key : String) (suffix : List Char) (k : String) (x : Json) : Prop where
  ident : IsIdent k
  differs : key = k → ∃ c tail d, suffix = c :: tail ∧ x.compact.head? = some d ∧ c ≠ d

theorem MemberFree.of_ne {key k : String} (hk : IsIdent k) (hne : key ≠ k) (suffix : List Char) (x : Json) :
    MemberFree key suffix k x := ⟨hk, fun h => absurd h hne⟩

/-- A number is no string. -/
theorem MemberFree.num {key k : String} (hk : IsIdent k) (literal : Numeral) :
    MemberFree key ['"'] k (.num literal) := by
  refine ⟨hk, fun _ => ?_⟩
  cases ht : literal.text with
  | nil => exact absurd ht literal.text_ne_nil
  | cons d rest =>
    refine ⟨'"', [], d, rfl, by rw [Json.compact, ht, List.head?_cons], ?_⟩
    rintro rfl
    exact absurd (List.all_eq_true.mp literal.chars '"' (ht ▸ List.mem_cons_self)) (by decide)

mutual

/-- No member of the value is one for which the pattern is meant. -/
def Json.Free (key : String) (suffix : List Char) : Json → Prop
  | .arr items => itemsFree key suffix items
  | .obj members => membersFree key suffix members
  | _ => True

/-- The items of an array are free. -/
def itemsFree (key : String) (suffix : List Char) : List Json → Prop
  | [] => True
  | x :: xs => x.Free key suffix ∧ itemsFree key suffix xs

/-- The members of an object are free. -/
def membersFree (key : String) (suffix : List Char) : List (String × Json) → Prop
  | [] => True
  | (k, x) :: ms => MemberFree key suffix k x ∧ x.Free key suffix ∧ membersFree key suffix ms

end

theorem not_needsEscape_of_isIdentChar {c : Char} (h : isIdentChar c = true) :
    needsEscape c = false := by
  simp only [needsEscape, Bool.or_eq_false_iff, beq_eq_false_iff_ne, decide_eq_false_iff_not]
  refine ⟨⟨fun heq => ?_, fun heq => ?_⟩, fun hlt => ?_⟩
  · rw [heq] at h; cases h
  · rw [heq] at h; cases h
  · have hctl := forall_of_toNat_lt (isIdentChar · = false) (by decide) hlt
    rw [h] at hctl
    cases hctl

theorem escape_of_isIdent {k : String} (hk : IsIdent k) : escape k.toList = k.toList :=
  escape_eq_self_iff.mpr fun c hc => not_needsEscape_of_isIdentChar (hk c hc)

theorem quoted_of_isIdent {k : String} (hk : IsIdent k) : quoted k = '"' :: (k.toList ++ ['"']) := by
  rw [quoted, escape_of_isIdent hk, List.cons_append]

/-- The text of a member whose key is an identifier. -/
theorem quoted_append_colon {k : String} (hk : IsIdent k) (rest : List Char) :
    quoted k ++ ':' :: rest = keyPattern k ++ rest := by
  simp [quoted_of_isIdent hk, keyPattern]

private theorem noStart_member {key k : String} (hkey : IsIdent key) {suffix rest : List Char} {x : Json}
    (hmember : MemberFree key suffix k x) (hx : NoStart (keyPattern key ++ suffix) x.compact rest) :
    NoStart (keyPattern key ++ suffix) (quoted k ++ ':' :: x.compact) rest := by
  rw [quoted_append_colon hmember.ident, noStart_append]
  refine ⟨noStart_keyPattern hkey hmember.ident fun heq hpre => ?_, hx⟩
  obtain ⟨c, tail, d, rfl, hd, hne⟩ := hmember.differs heq
  obtain ⟨cs, hcs⟩ := List.head?_eq_some_iff.mp hd
  rw [hcs] at hpre
  exact hne (List.cons_prefix_cons.mp hpre).1

/-- A stretch without quotes. -/
theorem noStart_of_quote_not_mem {key : String} {suffix pre : List Char} (h : '"' ∉ pre)
    (rest : List Char) : NoStart (keyPattern key ++ suffix) pre rest := noStart_of_head_not_mem h

private theorem noStart_separator {key : String} {suffix pre rest : List Char} {c : Char} (hc : c ≠ '"')
    (h : NoStart (keyPattern key ++ suffix) pre rest) :
    NoStart (keyPattern key ++ suffix) (c :: pre) rest :=
  ⟨fun hpre => hc (List.cons_prefix_cons.mp hpre).1.symm, h⟩

theorem closesValue_compactItems (xs : List Json) {rest : List Char} (h : ClosesValue rest) :
    ClosesValue (compactItems xs ++ rest) := by
  cases xs with
  | nil => exact h
  | cons x xs => exact closesValue_cons (.inl rfl)

theorem closesValue_compactMembers (ms : List (String × Json)) {rest : List Char}
    (h : ClosesValue rest) : ClosesValue (compactMembers ms ++ rest) := by
  cases ms with
  | nil => exact h
  | cons m ms => exact closesValue_cons (.inl rfl)

mutual

/-- The pattern for a key starts nowhere in the text of a value that is free of it. -/
theorem noStart_compact {key : String} (hkey : IsIdent key) {suffix : List Char} : ∀ (v : Json)
    (rest : List Char), v.Free key suffix → ClosesValue rest →
      NoStart (keyPattern key ++ suffix) v.compact rest
  | .null, rest, _, _ => noStart_of_quote_not_mem (by decide) rest
  | .bool true, rest, _, _ => noStart_of_quote_not_mem (by decide) rest
  | .bool false, rest, _, _ => noStart_of_quote_not_mem (by decide) rest
  | .num literal, rest, _, _ => by
    refine noStart_of_quote_not_mem (fun hmem => ?_) rest
    cases List.all_eq_true.mp literal.chars _ hmem
  | .str s, rest, _, hrest => (noStart_quoted hkey hrest s).extend suffix
  | .arr [], rest, _, _ => noStart_of_quote_not_mem (by decide) rest
  | .arr (x :: xs), rest, hfree, _ => by
    rw [Json.Free, itemsFree] at hfree
    have hclose : ClosesValue (']' :: rest) := closesValue_cons (by decide)
    rw [Json.compact, noStart_append, noStart_append]
    refine ⟨⟨noStart_separator (by decide) ?_, ?_⟩, noStart_of_quote_not_mem (by decide) rest⟩
    · exact noStart_compact hkey x _ hfree.1 (closesValue_compactItems xs hclose)
    · exact noStart_compactItems hkey xs _ hfree.2 hclose
  | .obj [], rest, _, _ => noStart_of_quote_not_mem (by decide) rest
  | .obj ((k, x) :: ms), rest, hfree, _ => by
    rw [Json.Free, membersFree] at hfree
    have hclose : ClosesValue ('}' :: rest) := closesValue_cons (by decide)
    have hx := noStart_compact hkey x _ hfree.2.1 (closesValue_compactMembers ms hclose)
    have hms := noStart_compactMembers hkey ms _ hfree.2.2 hclose
    rw [Json.compact, noStart_append, noStart_append]
    exact ⟨⟨noStart_separator (by decide) (noStart_member hkey hfree.1 hx), hms⟩,
      noStart_of_quote_not_mem (by decide) rest⟩

/-- The same for the items of an array behind the first one. -/
theorem noStart_compactItems {key : String} (hkey : IsIdent key) {suffix : List Char} :
    ∀ (xs : List Json) (rest : List Char), itemsFree key suffix xs → ClosesValue rest →
      NoStart (keyPattern key ++ suffix) (compactItems xs) rest
  | [], _, _, _ => trivial
  | x :: xs, rest, hfree, hrest => by
    rw [itemsFree] at hfree
    have hx := noStart_compact hkey x _ hfree.1 (closesValue_compactItems xs hrest)
    rw [compactItems, noStart_append]
    exact ⟨noStart_separator (by decide) hx, noStart_compactItems hkey xs rest hfree.2 hrest⟩

/-- The same for the members of an object behind the first one. -/
theorem noStart_compactMembers {key : String} (hkey : IsIdent key) {suffix : List Char} :
    ∀ (ms : List (String × Json)) (rest : List Char), membersFree key suffix ms → ClosesValue rest →
      NoStart (keyPattern key ++ suffix) (compactMembers ms) rest
  | [], _, _, _ => trivial
  | (k, x) :: ms, rest, hfree, hrest => by
    rw [membersFree] at hfree
    have hx := noStart_compact hkey x _ hfree.2.1 (closesValue_compactMembers ms hrest)
    rw [compactMembers, noStart_append]
    exact ⟨noStart_separator (by decide) (noStart_member hkey hfree.1 hx),
      noStart_compactMembers hkey ms rest hfree.2.2 hrest⟩

end

/-! ## Where a member is found -/

/-- The text of an object before one of its members. -/
def textBefore : List (String × Json) → List Char
  | [] => ['{']
  | (k, x) :: ms => '{' :: (quoted k ++ ':' :: (x.compact ++ (compactMembers ms ++ [','])))

private theorem compactMembers_append (ms₁ ms₂ : List (String × Json)) :
    compactMembers (ms₁ ++ ms₂) = compactMembers ms₁ ++ compactMembers ms₂ := by
  induction ms₁ with
  | nil => rw [compactMembers]; rfl
  | cons m ms₁ ih => rw [List.cons_append, compactMembers, compactMembers, ih, ← List.append_assoc]

/-- The text of an object, cut at one of its members. -/
theorem compact_obj_append (ms₁ : List (String × Json)) (k : String) (hk : IsIdent k) (x : Json)
    (ms₂ : List (String × Json)) :
    (Json.obj (ms₁ ++ (k, x) :: ms₂)).compact =
      textBefore ms₁ ++ (keyPattern k ++ (x.compact ++ (compactMembers ms₂ ++ ['}']))) := by
  rw [← quoted_append_colon hk]
  cases ms₁ with
  | nil => simp [Json.compact, textBefore]
  | cons m ms₁ => simp [Json.compact, textBefore, compactMembers_append, compactMembers]

/-- The pattern for a key does not start before the first member that it is meant for. -/
theorem noStart_textBefore {key : String} (hkey : IsIdent key) {suffix : List Char}
    (ms : List (String × Json)) (hfree : membersFree key suffix ms) (rest : List Char) :
    NoStart (keyPattern key ++ suffix) (textBefore ms) rest := by
  cases ms with
  | nil => exact noStart_of_quote_not_mem (by decide) rest
  | cons m ms =>
    rw [membersFree] at hfree
    have hclose : ClosesValue (',' :: rest) := closesValue_cons (by decide)
    have hx := noStart_compact hkey m.2 _ hfree.2.1 (closesValue_compactMembers ms hclose)
    have hms := noStart_compactMembers hkey ms _ hfree.2.2 hclose
    have htext : textBefore (m :: ms) =
        '{' :: ((quoted m.1 ++ ':' :: m.2.compact) ++ (compactMembers ms ++ [','])) := by
      simp [textBefore]
    rw [htext]
    refine noStart_separator (by decide) ?_
    rw [noStart_append, noStart_append (p := compactMembers ms), List.append_assoc]
    exact ⟨noStart_member hkey hfree.1 hx, hms, noStart_of_quote_not_mem (by decide) rest⟩

/-- The text of an object in an object, cut at one of the members of the inner one. -/
theorem compact_nested (ms₁ : List (String × Json)) (outer : String) (houter : IsIdent outer)
    (ns₁ : List (String × Json)) (k : String) (hk : IsIdent k) (x : Json)
    (ns₂ ms₂ : List (String × Json)) :
    (Json.obj (ms₁ ++ (outer, .obj (ns₁ ++ (k, x) :: ns₂)) :: ms₂)).compact =
      (textBefore ms₁ ++ (keyPattern outer ++ textBefore ns₁)) ++
        (keyPattern k ++
          (x.compact ++ (compactMembers ns₂ ++ '}' :: (compactMembers ms₂ ++ ['}'])))) := by
  rw [compact_obj_append ms₁ outer houter, compact_obj_append ns₁ k hk]
  simp

/-- The pattern for a key does not start before the first member of an inner object that it is meant
for. -/
theorem noStart_nested {key outer : String} (hkey : IsIdent key) (houter : IsIdent outer)
    (hne : key ≠ outer) {suffix : List Char} {ms ns : List (String × Json)}
    (hms : membersFree key suffix ms) (hns : membersFree key suffix ns) (rest : List Char) :
    NoStart (keyPattern key ++ suffix) (textBefore ms ++ (keyPattern outer ++ textBefore ns)) rest := by
  rw [noStart_append, noStart_append]
  exact ⟨noStart_textBefore hkey ms hms _, noStart_keyPattern_of_ne hkey houter hne _ _,
    noStart_textBefore hkey ns hns _⟩

/-- Key patterns with an ASCII suffix are ASCII. -/
theorem ascii_keyPattern {key : String} (hkey : IsIdent key) {suffix : List Char} (h : Ascii suffix) :
    Ascii (keyPattern key ++ suffix) := by
  intro c hc
  simp only [keyPattern, List.cons_append, List.append_assoc, List.nil_append, List.mem_cons,
    List.mem_append] at hc
  rcases hc with rfl | hc | rfl | rfl | hc
  · decide
  · exact toNat_lt_of_isIdentChar (hkey c hc)
  · decide
  · decide
  · exact h c hc

/-- The first occurrence of a key pattern in encoded text. -/
theorem after_keyPattern {key : String} (hkey : IsIdent key) {suffix pre rest : List Char}
    (hsuffix : Ascii suffix)
    (h : NoStart (keyPattern key ++ suffix) pre (keyPattern key ++ suffix ++ rest)) :
    after (utf8 (keyPattern key ++ suffix)) (utf8 (pre ++ (keyPattern key ++ suffix ++ rest))) =
      some (utf8 rest) :=
  after_utf8 (ascii_keyPattern hkey hsuffix) h

/-- A key pattern that does not occur. -/
theorem after_keyPattern_eq_none {key : String} (hkey : IsIdent key) {suffix cs : List Char}
    (hsuffix : Ascii suffix) (h : NoStart (keyPattern key ++ suffix) cs []) :
    after (utf8 (keyPattern key ++ suffix)) (utf8 cs) = none :=
  after_utf8_eq_none (ascii_keyPattern hkey hsuffix) h

/-! ## What is read up to the next quote -/

/-- The escaped text of a string up to the first quote in it. -/
def rawText (s : String) : List Char := upTo '"' (escape s.toList)

/-- From a string literal, behind its opening quote, the raw text is read. -/
theorem upTo_quoted_tail (s : String) (rest : List Char) :
    upTo '"' (escape s.toList ++ '"' :: rest) = rawText s := upTo_append_cons _ _ _

theorem quote_not_mem_rawText (s : String) : '"' ∉ rawText s := fun h => by
  have := List.mem_takeWhile_imp h
  simp at this

/-- The raw text is the string itself exactly if no character of it has to be escaped. -/
theorem rawText_eq_iff (s : String) :
    rawText s = s.toList ↔ IsPlain s.toList := by
  rw [← escape_eq_self_iff, rawText]
  constructor
  · intro h
    have hquote : '"' ∉ escape s.toList := by
      rw [escape, List.mem_flatMap]
      rintro ⟨c, hc, hmem⟩
      refine quote_not_mem_escapeChar (fun heq => ?_) hmem
      rw [heq, ← h] at hc
      exact quote_not_mem_rawText s hc
    -- No quote is escaped, so nothing was cut off.
    have hall : upTo '"' (escape s.toList) = escape s.toList :=
      List.takeWhile_eq_self_iff.mpr fun c hc => decide_eq_true fun heq => hquote (heq ▸ hc)
    rwa [hall] at h
  · intro h
    rw [h, upTo, List.takeWhile_eq_self_iff]
    intro c hc
    have := escape_eq_self_iff.mp h c hc
    refine decide_eq_true fun heq => ?_
    rw [heq] at this
    cases this

/-- The raw text is empty for the empty string only. -/
theorem rawText_eq_nil_iff (s : String) : rawText s = [] ↔ s = "" := by
  constructor
  · intro h
    rw [rawText] at h
    cases hs : s.toList with
    | nil => exact String.toList_injective hs
    | cons c cs =>
      exfalso
      rw [hs, escape_cons] at h
      cases hneeds : needsEscape c with
      | true =>
        obtain ⟨d, rest, hesc⟩ := escapeChar_of_needsEscape hneeds
        rw [hesc, List.cons_append, upTo, List.takeWhile_cons_of_pos (by decide)] at h
        cases h
      | false =>
        have hc : c ≠ '"' := fun heq => by rw [heq] at hneeds; cases hneeds
        rw [escapeChar_of_not_needsEscape hneeds, List.singleton_append, upTo,
          List.takeWhile_cons_of_pos (by simpa using hc)] at h
        cases h
  · rintro rfl
    rfl

end InferenceGateway.Common
