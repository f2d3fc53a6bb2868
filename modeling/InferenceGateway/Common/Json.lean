import Mathlib

/-!
# JSON values and their text

A number keeps its literal text: which numeric type it denotes is the decision of whoever reads it.
Object members keep the order of the text. The compact text of a value has no whitespace and escapes in
strings what has to be escaped: quotes, backslashes and control characters, with the short escapes where
there are any and `\u00XX` otherwise. The spaced text has whitespace behind commas and colons.
-/

namespace InferenceGateway.Common

/-! ## Numerals -/

/-- A character that occurs in a number. -/
def isNumberChar (c : Char) : Bool := c.isDigit || c == '-' || c == '+' || c == '.' || c == 'e' || c == 'E'

/-- An exponent, or nothing. -/
def isExponent : List Char → Bool
  | [] => true
  | c :: rest =>
    let digits := match rest with
      | '+' :: digits => digits
      | '-' :: digits => digits
      | digits => digits
    (c == 'e' || c == 'E') && !digits.isEmpty && digits.all Char.isDigit

/-- A fraction followed by an exponent, each or both of which may be missing. -/
def isFraction : List Char → Bool
  | '.' :: rest => !(rest.takeWhile Char.isDigit).isEmpty && isExponent (rest.dropWhile Char.isDigit)
  | rest => isExponent rest

/-- A number without its minus sign: an integer without leading zeros and what follows it. -/
def isUnsignedNumber : List Char → Bool
  | '0' :: rest => isFraction rest
  | c :: rest => c.isDigit && isFraction (rest.dropWhile Char.isDigit)
  | [] => false

/-- The grammar of numbers. -/
def isNumber : List Char → Bool
  | '-' :: rest => isUnsignedNumber rest
  | text => isUnsignedNumber text

/-- The literal text of a number. -/
structure Numeral where
  text : List Char
  chars : text.all isNumberChar = true
  ok : isNumber text = true
deriving DecidableEq

theorem Numeral.text_ne_nil (literal : Numeral) : literal.text ≠ [] := fun h => by
  have := literal.ok
  rw [h] at this
  cases this

theorem isDigit_toDigits (n : ℕ) : ∀ c ∈ Nat.toDigits 10 n, c.isDigit = true :=
  fun _ hc => Nat.isDigit_of_mem_toDigits (by decide) (by decide) hc

/-- Decimal texts have no leading zero. -/
theorem toDigits_head (n : ℕ) (h : 0 < n) : ∃ c rest, Nat.toDigits 10 n = c :: rest ∧ c ≠ '0' := by
  induction n using Nat.strongRecOn with
  | ind n ih =>
    rw [Nat.toDigits_eq_if (by decide)]
    split_ifs with hlt
    · refine ⟨_, [], rfl, ?_⟩
      interval_cases n <;> decide
    · obtain ⟨c, rest, hc, hne⟩ := ih (n / 10) (by omega) (by omega)
      exact ⟨c, rest ++ [Nat.digitChar (n % 10)], by rw [hc, List.cons_append], hne⟩

private theorem isUnsignedNumber_of_digits {c : Char} {rest : List Char} (hc : c.isDigit = true)
    (hzero : c ≠ '0') (hrest : ∀ d ∈ rest, d.isDigit = true) :
    isUnsignedNumber (c :: rest) = true := by
  rw [isUnsignedNumber.eq_def]
  split
  · rename_i h
    cases h
    exact absurd rfl hzero
  · rename_i h
    cases h
    rw [hc, List.dropWhile_eq_nil_iff.mpr hrest]
    rfl
  · rename_i h
    cases h

theorem isNumber_toDigits (n : ℕ) : isNumber (Nat.toDigits 10 n) = true := by
  rcases Nat.eq_zero_or_pos n with rfl | hpos
  · decide
  · obtain ⟨c, rest, hc, hne⟩ := toDigits_head n hpos
    have hdigits := isDigit_toDigits n
    rw [hc] at hdigits ⊢
    have hunsigned := isUnsignedNumber_of_digits (hdigits c List.mem_cons_self) hne
      fun d hd => hdigits d (List.mem_cons_of_mem c hd)
    rw [isNumber.eq_def]
    split
    · rename_i h
      cases h
      exact absurd (hdigits '-' List.mem_cons_self) (by decide)
    · exact hunsigned

/-- The decimal numeral of a natural number. -/
def Numeral.ofNat (n : ℕ) : Numeral where
  text := Nat.toDigits 10 n
  chars := List.all_eq_true.mpr fun c hc => by rw [isNumberChar, isDigit_toDigits n c hc]; rfl
  ok := isNumber_toDigits n

theorem isNumber_neg_toDigits (n : ℕ) : isNumber ('-' :: Nat.toDigits 10 n) = true := by
  have h := isNumber_toDigits n
  rw [isNumber.eq_def] at h ⊢
  split at h
  · -- A decimal text has no sign of its own.
    rename_i rest htext
    have := isDigit_toDigits n '-' (by rw [htext]; exact List.mem_cons_self)
    cases this
  · exact h

theorem all_isNumberChar_toDigits (n : ℕ) : (Nat.toDigits 10 n).all isNumberChar = true :=
  List.all_eq_true.mpr fun c hc => by rw [isNumberChar, isDigit_toDigits n c hc]; rfl

/-- The decimal numeral of an integer. -/
def Numeral.ofInt (n : ℤ) : Numeral where
  text := if n < 0 then '-' :: Nat.toDigits 10 n.natAbs else Nat.toDigits 10 n.natAbs
  chars := by
    split
    · rw [List.all_cons, all_isNumberChar_toDigits]
      rfl
    · exact all_isNumberChar_toDigits _
  ok := by
    split
    · exact isNumber_neg_toDigits _
    · exact isNumber_toDigits _

theorem Numeral.ofInt_natCast (n : ℕ) : Numeral.ofInt n = Numeral.ofNat n := by
  simp [Numeral.ofInt, Numeral.ofNat]

theorem isDigit_of_isUnsignedNumber {c : Char} {rest : List Char}
    (h : isUnsignedNumber (c :: rest) = true) : c.isDigit = true := by
  rw [isUnsignedNumber.eq_def] at h
  split at h
  · rename_i heq
    cases heq
    rfl
  · rename_i heq
    cases heq
    exact (Bool.and_eq_true_iff.mp h).1
  · cases h

/-- A number starts with a digit or a minus sign. -/
theorem Numeral.text_eq_cons (literal : Numeral) :
    ∃ c rest, literal.text = c :: rest ∧ (c.isDigit = true ∨ c = '-') := by
  have hok := literal.ok
  cases htext : literal.text with
  | nil => exact absurd htext literal.text_ne_nil
  | cons c rest =>
    refine ⟨c, rest, rfl, ?_⟩
    rw [htext, isNumber.eq_def] at hok
    split at hok
    · rename_i heq
      cases heq
      exact .inr rfl
    · exact .inl (isDigit_of_isUnsignedNumber hok)

/-- The number that an integer without sign, fraction and exponent spells. -/
def Numeral.toNat? (literal : Numeral) : Option ℕ :=
  if literal.text.all Char.isDigit then some (Nat.ofDigitChars 10 literal.text 0) else none

@[simp] theorem Numeral.toNat?_ofNat (n : ℕ) : (Numeral.ofNat n).toNat? = some n := by
  have hdigits : (Numeral.ofNat n).text.all Char.isDigit = true :=
    List.all_eq_true.mpr (isDigit_toDigits n)
  rw [toNat?, if_pos hdigits]
  exact congrArg some Nat.ofDigitChars_ten_toDigits

/-! ## Values -/

/-- A JSON value. -/
inductive Json
  | null
  | bool (b : Bool)
  | num (literal : Numeral)
  | str (s : String)
  | arr (items : List Json)
  | obj (members : List (String × Json))

/-! ## Escaping -/

/-- A character that cannot stand for itself in a string literal. -/
def needsEscape (c : Char) : Bool := c == '"' || c == '\\' || decide (c.toNat < 32)

/-- A character as it is written in a string literal. -/
def escapeChar (c : Char) : List Char :=
  if c = '"' then ['\\', '"']
  else if c = '\\' then ['\\', '\\']
  else if c = '\x08' then ['\\', 'b']
  else if c = '\t' then ['\\', 't']
  else if c = '\n' then ['\\', 'n']
  else if c = '\x0c' then ['\\', 'f']
  else if c = '\r' then ['\\', 'r']
  else if c.toNat < 32 then
    ['\\', 'u', '0', '0', Nat.digitChar (c.toNat / 16), Nat.digitChar (c.toNat % 16)]
  else [c]

/-- A text as it stands between the quotes of a string literal. -/
def escape (cs : List Char) : List Char := cs.flatMap escapeChar

/-- The string literal of a text. -/
def quoted (s : String) : List Char := '"' :: escape s.toList ++ ['"']

theorem escapeChar_of_not_needsEscape {c : Char} (h : needsEscape c = false) : escapeChar c = [c] := by
  simp only [needsEscape, Bool.or_eq_false_iff, beq_eq_false_iff_ne, decide_eq_false_iff_not] at h
  obtain ⟨⟨hquote, hback⟩, hctl⟩ := h
  have hne (d : Char) (hd : d.toNat < 32) : c ≠ d := fun h => hctl (h ▸ hd)
  rw [escapeChar, if_neg hquote, if_neg hback, if_neg (hne _ (by decide)), if_neg (hne _ (by decide)),
    if_neg (hne _ (by decide)), if_neg (hne _ (by decide)), if_neg (hne _ (by decide)), if_neg hctl]

/-- An escaped character starts with a backslash and is not the character itself. -/
theorem escapeChar_of_needsEscape {c : Char} (h : needsEscape c = true) :
    ∃ d rest, escapeChar c = '\\' :: d :: rest := by
  simp only [needsEscape, Bool.or_eq_true, beq_iff_eq, decide_eq_true_eq] at h
  rcases h with (rfl | rfl) | hctl
  · exact ⟨_, _, rfl⟩
  · exact ⟨_, _, rfl⟩
  · unfold escapeChar
    rw [if_pos hctl]
    -- Whatever its short escape is, there is one.
    repeat' split
    all_goals exact ⟨_, _, rfl⟩

theorem escapeChar_of_le {c : Char} (h : 128 ≤ c.toNat) : escapeChar c = [c] := by
  have hne (d : Char) (hd : d.toNat < 128) : c ≠ d := fun heq => by rw [heq] at h; omega
  refine escapeChar_of_not_needsEscape ?_
  simp only [needsEscape, Bool.or_eq_false_iff, beq_eq_false_iff_ne, decide_eq_false_iff_not]
  exact ⟨⟨hne _ (by decide), hne _ (by decide)⟩, by omega⟩

theorem escape_cons (c : Char) (cs : List Char) : escape (c :: cs) = escapeChar c ++ escape cs := rfl

theorem length_le_length_escape (cs : List Char) : cs.length ≤ (escape cs).length := by
  induction cs with
  | nil => exact le_rfl
  | cons c cs ih =>
    have hpos : 1 ≤ (escapeChar c).length := by
      cases hneeds : needsEscape c with
      | true =>
        obtain ⟨d, rest, hesc⟩ := escapeChar_of_needsEscape hneeds
        simp [hesc]
      | false => simp [escapeChar_of_not_needsEscape hneeds]
    rw [escape_cons, List.length_append, List.length_cons]
    omega

/-- No character of the text has to be escaped. -/
def IsPlain (cs : List Char) : Prop := ∀ c ∈ cs, needsEscape c = false

instance (cs : List Char) : Decidable (IsPlain cs) := List.decidableBAll _ cs

/-- A text is its own escape exactly if it is plain. -/
theorem escape_eq_self_iff {cs : List Char} : escape cs = cs ↔ IsPlain cs := by
  induction cs with
  | nil => exact ⟨fun _ => nofun, fun _ => rfl⟩
  | cons c cs ih =>
    rw [IsPlain, List.forall_mem_cons, escape_cons]
    cases hneeds : needsEscape c with
    | true =>
      obtain ⟨d, rest, hesc⟩ := escapeChar_of_needsEscape hneeds
      have hle := length_le_length_escape cs
      refine ⟨fun h => ?_, fun h => nomatch h.1⟩
      have hlen := congrArg List.length h
      simp only [hesc, List.length_append, List.length_cons] at hlen
      omega
    | false =>
      rw [escapeChar_of_not_needsEscape hneeds, List.singleton_append, List.cons.injEq, ih,
        IsPlain]
      simp

/-! ## Compact text -/

mutual

/-- The compact text of a value. -/
def Json.compact : Json → List Char
  | .null => "null".toList
  | .bool true => "true".toList
  | .bool false => "false".toList
  | .num literal => literal.text
  | .str s => quoted s
  | .arr [] => "[]".toList
  | .arr (x :: xs) => '[' :: x.compact ++ compactItems xs ++ [']']
  | .obj [] => "{}".toList
  | .obj ((key, x) :: ms) => '{' :: quoted key ++ ':' :: x.compact ++ compactMembers ms ++ ['}']

/-- The items behind the first one, with their commas. -/
def compactItems : List Json → List Char
  | [] => []
  | x :: xs => ',' :: x.compact ++ compactItems xs

/-- The members behind the first one, with their commas. -/
def compactMembers : List (String × Json) → List Char
  | [] => []
  | (key, x) :: ms => ',' :: quoted key ++ ':' :: x.compact ++ compactMembers ms

end

/-! ## Spaced text -/

mutual

/-- The text of a value with a gap behind every comma and colon. -/
def Json.spaced (gap : List Char) : Json → List Char
  | .null => "null".toList
  | .bool true => "true".toList
  | .bool false => "false".toList
  | .num literal => literal.text
  | .str s => quoted s
  | .arr [] => "[]".toList
  | .arr (x :: xs) => '[' :: x.spaced gap ++ spacedItems gap xs ++ [']']
  | .obj [] => "{}".toList
  | .obj ((key, x) :: ms) =>
    '{' :: quoted key ++ ':' :: (gap ++ x.spaced gap) ++ spacedMembers gap ms ++ ['}']

/-- The items behind the first one, with their commas and gaps. -/
def spacedItems (gap : List Char) : List Json → List Char
  | [] => []
  | x :: xs => ',' :: (gap ++ x.spaced gap) ++ spacedItems gap xs

/-- The members behind the first one, with their commas and gaps. -/
def spacedMembers (gap : List Char) : List (String × Json) → List Char
  | [] => []
  | (key, x) :: ms =>
    ',' :: (gap ++ quoted key) ++ ':' :: (gap ++ x.spaced gap) ++ spacedMembers gap ms

end

mutual

/-- Without gaps the text is compact. -/
theorem spaced_nil : ∀ v : Json, v.spaced [] = v.compact
  | .null | .bool true | .bool false | .num _ | .str _ | .arr [] | .obj [] => by
    simp only [Json.spaced, Json.compact]
  | .arr (x :: xs) => by rw [Json.spaced, Json.compact, spaced_nil x, spacedItems_nil xs]
  | .obj ((key, x) :: ms) => by
    rw [Json.spaced, Json.compact, List.nil_append, spaced_nil x, spacedMembers_nil ms]

theorem spacedItems_nil : ∀ xs : List Json, spacedItems [] xs = compactItems xs
  | [] => by rw [spacedItems, compactItems]
  | x :: xs => by rw [spacedItems, compactItems, List.nil_append, spaced_nil x, spacedItems_nil xs]

theorem spacedMembers_nil : ∀ ms : List (String × Json), spacedMembers [] ms = compactMembers ms
  | [] => by rw [spacedMembers, compactMembers]
  | (key, x) :: ms => by
    rw [spacedMembers, compactMembers, List.nil_append, List.nil_append, spaced_nil x, spacedMembers_nil ms]

end

end InferenceGateway.Common
