import InferenceGateway.Common.Json

/-!
# Parsing JSON

A parser for the grammar of RFC 8259 on decoded text. It takes fuel, one unit for each value or
separator it enters; the length of the text is always enough. `parse_spaced` and `parse_compact` are the
round trips with the printers.
-/

namespace InferenceGateway.Common

/-! ## Strings -/

/-- The value of a hexadecimal digit. -/
def hexValue (c : Char) : Option ℕ :=
  if c.isDigit then some (c.toNat - 48)
  else if 'a' ≤ c ∧ c ≤ 'f' then some (c.toNat - 87)
  else if 'A' ≤ c ∧ c ≤ 'F' then some (c.toNat - 55)
  else none

/-- The value of four hexadecimal digits. -/
def hex4 (a b c d : Char) : Option ℕ := do
  let a ← hexValue a
  let b ← hexValue b
  let c ← hexValue c
  let d ← hexValue d
  return a * 4096 + b * 256 + c * 16 + d

/-- The character of a one-letter escape. -/
def shortEscape (c : Char) : Option Char :=
  if c = '"' then some '"'
  else if c = '\\' then some '\\'
  else if c = '/' then some '/'
  else if c = 'b' then some '\x08'
  else if c = 'f' then some '\x0c'
  else if c = 'n' then some '\n'
  else if c = 'r' then some '\r'
  else if c = 't' then some '\t'
  else none

/-- The content of a string literal behind its opening quote, and the text behind its closing quote.
A surrogate that is not part of a pair is an error. -/
def parseString : List Char → Option (List Char × List Char)
  | [] => none
  | '"' :: rest => some ([], rest)
  | '\\' :: 'u' :: a :: b :: c :: d :: rest =>
    match hex4 a b c d with
    | none => none
    | some n =>
      if 0xdc00 ≤ n ∧ n ≤ 0xdfff then none
      else if 0xd800 ≤ n ∧ n ≤ 0xdbff then
        match rest with
        | '\\' :: 'u' :: a :: b :: c :: d :: rest =>
          match hex4 a b c d with
          | none => none
          | some m =>
            if 0xdc00 ≤ m ∧ m ≤ 0xdfff then
              (parseString rest).map fun p =>
                (Char.ofNat (0x10000 + (n - 0xd800) * 0x400 + (m - 0xdc00)) :: p.1, p.2)
            else none
        | _ => none
      else (parseString rest).map fun p => (Char.ofNat n :: p.1, p.2)
  | '\\' :: c :: rest =>
    match shortEscape c with
    | none => none
    | some c => (parseString rest).map fun p => (c :: p.1, p.2)
  | c :: rest =>
    if c.toNat < 32 ∨ c = '\\' then none else (parseString rest).map fun p => (c :: p.1, p.2)

/-! ## Values -/

/-- Skip whitespace. -/
def skipWs (cs : List Char) : List Char :=
  cs.dropWhile fun c => c == ' ' || c == '\t' || c == '\n' || c == '\r'

/-- A number. -/
def parseNumber (cs : List Char) : Option (Json × List Char) :=
  let text := cs.takeWhile isNumberChar
  if h : isNumber text = true then
    some (.num ⟨text, List.all_takeWhile, h⟩, cs.dropWhile isNumberChar)
  else none

mutual

/-- A value and the text behind it. -/
def parseValue : ℕ → List Char → Option (Json × List Char)
  | 0, _ => none
  | fuel + 1, cs =>
    match skipWs cs with
    | 'n' :: 'u' :: 'l' :: 'l' :: rest => some (.null, rest)
    | 't' :: 'r' :: 'u' :: 'e' :: rest => some (.bool true, rest)
    | 'f' :: 'a' :: 'l' :: 's' :: 'e' :: rest => some (.bool false, rest)
    | '"' :: rest => (parseString rest).map fun p => (.str (String.ofList p.1), p.2)
    | '[' :: rest =>
      match skipWs rest with
      | ']' :: rest => some (.arr [], rest)
      | rest =>
        (parseValue fuel rest).bind fun p =>
          (parseItems fuel p.2).map fun q => (.arr (p.1 :: q.1), q.2)
    | '{' :: rest =>
      match skipWs rest with
      | '}' :: rest => some (.obj [], rest)
      | rest =>
        (parseMember fuel rest).bind fun p =>
          (parseMembers fuel p.2).map fun q => (.obj (p.1 :: q.1), q.2)
    | rest => parseNumber rest

/-- The items of an array behind the first one, up to the closing bracket. -/
def parseItems : ℕ → List Char → Option (List Json × List Char)
  | 0, _ => none
  | fuel + 1, cs =>
    match skipWs cs with
    | ']' :: rest => some ([], rest)
    | ',' :: rest =>
      (parseValue fuel rest).bind fun p =>
        (parseItems fuel p.2).map fun q => (p.1 :: q.1, q.2)
    | _ => none

/-- A member of an object. -/
def parseMember : ℕ → List Char → Option ((String × Json) × List Char)
  | 0, _ => none
  | fuel + 1, cs =>
    match skipWs cs with
    | '"' :: rest =>
      (parseString rest).bind fun p =>
        match skipWs p.2 with
        | ':' :: rest =>
          (parseValue fuel rest).map fun q => ((String.ofList p.1, q.1), q.2)
        | _ => none
    | _ => none

/-- The members of an object behind the first one, up to the closing brace. -/
def parseMembers : ℕ → List Char → Option (List (String × Json) × List Char)
  | 0, _ => none
  | fuel + 1, cs =>
    match skipWs cs with
    | '}' :: rest => some ([], rest)
    | ',' :: rest =>
      (parseMember fuel rest).bind fun p =>
        (parseMembers fuel p.2).map fun q => (p.1 :: q.1, q.2)
    | _ => none

end

/-- Parse a whole text. -/
def Json.parse (cs : List Char) : Option Json :=
  match parseValue (cs.length + 1) cs with
  | some (value, rest) => if skipWs rest = [] then some value else none
  | none => none

/-! ## Strings are read back -/

theorem hexValue_digitChar (n : ℕ) (h : n < 16) : hexValue (Nat.digitChar n) = some n := by
  interval_cases n <;> decide

/-- The escape of a control character spells its code. -/
theorem hex4_digitChar {n : ℕ} (h : n < 32) :
    hex4 '0' '0' (Nat.digitChar (n / 16)) (Nat.digitChar (n % 16)) = some n := by
  rw [hex4, hexValue_digitChar _ (by omega), hexValue_digitChar _ (by omega)]
  have hzero : hexValue '0' = some 0 := by decide
  simp only [hzero, bind, Option.bind, pure]
  congr 1
  omega

/-- A character that needs no escape stands for itself. -/
theorem parseString_plain {c : Char} (h : needsEscape c = false) (rest : List Char) :
    parseString (c :: rest) = (parseString rest).map fun p => (c :: p.1, p.2) := by
  simp only [needsEscape, Bool.or_eq_false_iff, beq_eq_false_iff_ne, decide_eq_false_iff_not] at h
  obtain ⟨⟨hquote, hback⟩, hctl⟩ := h
  rw [parseString.eq_def]
  split
  · rename_i h; cases h
  · rename_i h; cases h; exact absurd rfl hquote
  · rename_i h; cases h; exact absurd rfl hback
  · rename_i h; cases h; exact absurd rfl hback
  · rename_i h
    cases h
    rw [if_neg (not_or.mpr ⟨hctl, hback⟩)]

/-- A control character cannot stand for itself. -/
theorem parseString_control {c : Char} (h : c.toNat < 32) (rest : List Char) :
    parseString (c :: rest) = none := by
  rw [parseString.eq_def]
  split
  · rename_i heq; cases heq
  · rename_i heq; cases heq; exact absurd h (by decide)
  · rename_i heq; cases heq; exact absurd h (by decide)
  · rename_i heq; cases heq; exact absurd h (by decide)
  · rename_i heq
    cases heq
    exact if_pos (.inl h)

theorem parseString_escapeChar (c : Char) (rest : List Char) :
    parseString (escapeChar c ++ rest) = (parseString rest).map fun p => (c :: p.1, p.2) := by
  cases hneeds : needsEscape c with
  | false => rw [escapeChar_of_not_needsEscape hneeds]; exact parseString_plain hneeds rest
  | true =>
    unfold escapeChar
    split_ifs with h₁ h₂ h₃ h₄ h₅ h₆ h₇ h₈
    -- The short escapes, one by one.
    · subst h₁; simp [parseString, shortEscape]
    · subst h₂; simp [parseString, shortEscape]
    · subst h₃; simp [parseString, shortEscape]
    · subst h₄; simp [parseString, shortEscape]
    · subst h₅; simp [parseString, shortEscape]
    · subst h₆; simp [parseString, shortEscape]
    · subst h₇; simp [parseString, shortEscape]
    · simp only [List.cons_append, List.nil_append, parseString, hex4_digitChar h₈]
      rw [if_neg (by omega), if_neg (by omega), Char.ofNat_toNat]
    · simp [needsEscape, h₁, h₂, h₈] at hneeds

theorem parseString_escape (cs rest : List Char) :
    parseString (escape cs ++ '"' :: rest) = some (cs, rest) := by
  induction cs with
  | nil => rfl
  | cons c cs ih => rw [escape_cons, List.append_assoc, parseString_escapeChar, ih, Option.map_some]

/-! ## Values are read back -/

/-- The text does not go on like a number. -/
def NoNumberHead (rest : List Char) : Prop := ∀ c ∈ rest.head?, isNumberChar c = false

theorem noNumberHead_cons {c : Char} {rest : List Char} (h : isNumberChar c = false) :
    NoNumberHead (c :: rest) := by
  intro d hd
  rw [List.head?_cons, Option.mem_some_iff] at hd
  exact hd ▸ h

theorem parseNumber_text (literal : Numeral) {rest : List Char} (h : NoNumberHead rest) :
    parseNumber (literal.text ++ rest) = some (.num literal, rest) := by
  have hall := List.all_eq_true.mp literal.chars
  have htake : (literal.text ++ rest).takeWhile isNumberChar = literal.text := by
    rw [List.takeWhile_append_of_pos hall]
    cases rest with
    | nil => simp
    | cons c rest => rw [List.takeWhile_cons_of_neg (by rw [h c rfl]; decide), List.append_nil]
  have hdrop : (literal.text ++ rest).dropWhile isNumberChar = rest := by
    rw [List.dropWhile_append_of_pos hall]
    cases rest with
    | nil => rfl
    | cons c rest => rw [List.dropWhile_cons_of_neg (by rw [h c rfl]; decide)]
  simp only [parseNumber, htake, hdrop, literal.ok, dif_pos]

/-- A character at which a value or a separator starts. -/
def isToken (c : Char) : Bool := !(c == ' ' || c == '\t' || c == '\n' || c == '\r')

theorem skipWs_cons {c : Char} (h : isToken c = true) (cs : List Char) : skipWs (c :: cs) = c :: cs := by
  rw [skipWs, List.dropWhile_cons_of_neg]
  simpa [isToken] using h

theorem isToken_of_isNumberChar {c : Char} (h : isNumberChar c = true) : isToken c = true := by
  rw [isToken, Bool.not_eq_true']
  refine Bool.eq_false_iff.mpr fun hws => ?_
  simp only [Bool.or_eq_true, beq_iff_eq] at hws
  rcases hws with ((rfl | rfl) | rfl) | rfl <;> exact absurd h (by decide)

theorem parseValue_number {c : Char} (h : isNumberChar c = true) (fuel : ℕ) (cs : List Char) :
    parseValue (fuel + 1) (c :: cs) = parseNumber (c :: cs) := by
  rw [parseValue, skipWs_cons (isToken_of_isNumberChar h)]
  split
  all_goals first | rfl | (rename_i heq; cases heq; exact absurd h (by decide))

/-- A value starts with a token that closes nothing. -/
theorem spaced_head (gap : List Char) (v : Json) :
    ∃ c cs, v.spaced gap = c :: cs ∧ isToken c = true ∧ c ≠ ']' ∧ c ≠ '}' := by
  cases v with
  | null => exact ⟨_, _, rfl, by decide, by decide, by decide⟩
  | bool b => cases b <;> exact ⟨_, _, rfl, by decide, by decide, by decide⟩
  | str s => exact ⟨_, _, rfl, by decide, by decide, by decide⟩
  | arr xs => cases xs <;> exact ⟨_, _, rfl, by decide, by decide, by decide⟩
  | obj ms => cases ms <;> exact ⟨_, _, rfl, by decide, by decide, by decide⟩
  | num literal =>
    cases ht : literal.text with
    | nil => exact absurd ht literal.text_ne_nil
    | cons c cs =>
      have hc := List.all_eq_true.mp literal.chars c (ht ▸ List.mem_cons_self)
      refine ⟨c, cs, ht, isToken_of_isNumberChar hc, ?_, ?_⟩ <;>
        (rintro rfl; exact absurd hc (by decide))

/-! ### What the first character decides -/

theorem parseValue_quote (fuel : ℕ) (rest : List Char) :
    parseValue (fuel + 1) ('"' :: rest) =
      (parseString rest).map fun p => (.str (String.ofList p.1), p.2) := rfl

theorem parseValue_bracket {c : Char} (fuel : ℕ) {rest : List Char} (htoken : isToken c = true)
    (hclose : c ≠ ']') :
    parseValue (fuel + 1) ('[' :: c :: rest) =
      (parseValue fuel (c :: rest)).bind fun p =>
        (parseItems fuel p.2).map fun q => (.arr (p.1 :: q.1), q.2) := by
  have hskip : skipWs ('[' :: c :: rest) = '[' :: c :: rest := rfl
  rw [parseValue, hskip]
  simp only [skipWs_cons htoken]
  split
  · rename_i h; cases h; exact absurd rfl hclose
  · rfl

theorem parseValue_brace {c : Char} (fuel : ℕ) {rest : List Char} (htoken : isToken c = true)
    (hclose : c ≠ '}') :
    parseValue (fuel + 1) ('{' :: c :: rest) =
      (parseMember fuel (c :: rest)).bind fun p =>
        (parseMembers fuel p.2).map fun q => (.obj (p.1 :: q.1), q.2) := by
  have hskip : skipWs ('{' :: c :: rest) = '{' :: c :: rest := rfl
  rw [parseValue, hskip]
  simp only [skipWs_cons htoken]
  split
  · rename_i h; cases h; exact absurd rfl hclose
  · rfl

theorem parseItems_close (fuel : ℕ) (rest : List Char) :
    parseItems (fuel + 1) (']' :: rest) = some ([], rest) := rfl

theorem parseItems_comma (fuel : ℕ) (rest : List Char) :
    parseItems (fuel + 1) (',' :: rest) =
      (parseValue fuel rest).bind fun p =>
        (parseItems fuel p.2).map fun q => (p.1 :: q.1, q.2) := rfl

theorem parseMembers_close (fuel : ℕ) (rest : List Char) :
    parseMembers (fuel + 1) ('}' :: rest) = some ([], rest) := rfl

theorem parseMembers_comma (fuel : ℕ) (rest : List Char) :
    parseMembers (fuel + 1) (',' :: rest) =
      (parseMember fuel rest).bind fun p =>
        (parseMembers fuel p.2).map fun q => (p.1 :: q.1, q.2) := rfl

/-! ### Gaps

The texts that are read back have the same gap behind every comma and colon. -/

section

variable {gap : List Char} (hgap : ∀ c ∈ gap, isToken c = false)
include hgap

theorem skipWs_gap (cs : List Char) : skipWs (gap ++ cs) = skipWs cs := by
  refine List.dropWhile_append_of_pos fun c hc => ?_
  have htoken := hgap c hc
  rwa [isToken, Bool.not_eq_false'] at htoken

theorem parseValue_gap (fuel : ℕ) (cs : List Char) :
    parseValue fuel (gap ++ cs) = parseValue fuel cs := by
  cases fuel with
  | zero => rw [parseValue, parseValue]
  | succ fuel => rw [parseValue, parseValue, skipWs_gap hgap]

theorem parseMember_gap (fuel : ℕ) (cs : List Char) :
    parseMember fuel (gap ++ cs) = parseMember fuel cs := by
  cases fuel with
  | zero => rw [parseMember, parseMember]
  | succ fuel => rw [parseMember, parseMember, skipWs_gap hgap]

theorem parseMember_of_value {key : String} {x : Json} {fuel : ℕ} {cs rest : List Char}
    (h : parseValue fuel cs = some (x, rest)) :
    parseMember (fuel + 1) (quoted key ++ ':' :: (gap ++ cs)) = some ((key, x), rest) := by
  have hquote (cs : List Char) : parseMember (fuel + 1) ('"' :: cs) =
      (parseString cs).bind fun p =>
        match skipWs p.2 with
        | ':' :: rest => (parseValue fuel rest).map fun q => ((String.ofList p.1, q.1), q.2)
        | _ => none := rfl
  have hcolon : skipWs (':' :: (gap ++ cs)) = ':' :: (gap ++ cs) := rfl
  rw [quoted, List.cons_append, List.cons_append, hquote, List.append_assoc, List.singleton_append,
    parseString_escape, Option.bind_some]
  simp only [hcolon, parseValue_gap hgap, h, Option.map_some, String.ofList_toList]

omit hgap in
private theorem length_spaced_pos (gap : List Char) (v : Json) : 0 < (v.spaced gap).length := by
  obtain ⟨c, cs, h, -⟩ := spaced_head gap v
  rw [h]
  exact Nat.succ_pos _

mutual

/-- The value in front of a text is read back. The fuel is bounded by the length of its own text, so the
recursion may hand each part what is left after the brackets and commas around it. -/
theorem parseValue_spaced : ∀ (v : Json) (fuel : ℕ) (rest : List Char),
    (v.spaced gap).length ≤ fuel → NoNumberHead rest →
      parseValue fuel (v.spaced gap ++ rest) = some (v, rest)
  | v, 0, rest, hfuel, _ => by
    have := length_spaced_pos gap v
    omega
  | .null, fuel + 1, rest, _, _ => by
    rw [parseValue, Json.spaced]
    simp [skipWs]
  | .bool true, fuel + 1, rest, _, _ => by
    rw [parseValue, Json.spaced]
    simp [skipWs]
  | .bool false, fuel + 1, rest, _, _ => by
    rw [parseValue, Json.spaced]
    simp [skipWs]
  | .num literal, fuel + 1, rest, _, hrest => by
    rw [Json.spaced]
    cases ht : literal.text with
    | nil => exact absurd ht literal.text_ne_nil
    | cons c cs =>
      have hc := List.all_eq_true.mp literal.chars c (ht ▸ List.mem_cons_self)
      rw [List.cons_append, parseValue_number hc, ← List.cons_append, ← ht, parseNumber_text literal hrest]
  | .str s, fuel + 1, rest, _, _ => by
    rw [Json.spaced, quoted, List.cons_append, List.cons_append, parseValue_quote, List.append_assoc,
      List.singleton_append, parseString_escape, Option.map_some, String.ofList_toList]
  | .arr [], fuel + 1, rest, _, _ => by
    rw [parseValue, Json.spaced]
    simp [skipWs]
  | .arr (x :: xs), fuel + 1, rest, hfuel, _ => by
    have hpos := length_spaced_pos gap x
    simp only [Json.spaced, List.length_append, List.length_cons, List.length_nil] at hfuel
    have hx := parseValue_spaced x fuel (spacedItems gap xs ++ ']' :: rest) (by omega) (by
      cases xs <;> exact noNumberHead_cons (by decide))
    have hxs := parseItems_spaced xs fuel rest (by omega)
    obtain ⟨c, cs, hc, htoken, hclose, -⟩ := spaced_head gap x
    have htext : (Json.arr (x :: xs)).spaced gap ++ rest =
        '[' :: c :: (cs ++ (spacedItems gap xs ++ ']' :: rest)) := by
      rw [Json.spaced, hc]
      simp
    rw [htext, parseValue_bracket fuel htoken hclose, ← List.cons_append, ← hc, hx, Option.bind_some,
      hxs, Option.map_some]
  | .obj [], fuel + 1, rest, _, _ => by
    rw [parseValue, Json.spaced]
    simp [skipWs]
  | .obj ((key, x) :: ms), fuel + 1, rest, hfuel, _ => by
    have hpos := length_spaced_pos gap x
    simp only [Json.spaced, List.length_append, List.length_cons, List.length_nil, quoted] at hfuel
    -- A member takes one more unit of fuel than its value.
    obtain ⟨fuel, rfl⟩ := Nat.exists_eq_succ_of_ne_zero (show fuel ≠ 0 by omega)
    have hx := parseValue_spaced x fuel (spacedMembers gap ms ++ '}' :: rest) (by omega) (by
      cases ms <;> exact noNumberHead_cons (by decide))
    have hms := parseMembers_spaced ms (fuel + 1) rest (by omega)
    have htext : (Json.obj ((key, x) :: ms)).spaced gap ++ rest =
        '{' :: (quoted key ++ ':' :: (gap ++ (x.spaced gap ++ (spacedMembers gap ms ++ '}' :: rest)))) := by
      rw [Json.spaced]
      simp
    have hmember : parseMember (fuel + 1) (quoted key ++ ':' :: (gap ++ _)) = some ((key, x), _) :=
      parseMember_of_value hgap hx
    rw [quoted, List.cons_append, List.cons_append] at htext hmember
    rw [htext, parseValue_brace (fuel + 1) (by decide) (by decide), hmember, Option.bind_some, hms,
      Option.map_some]

/-- The items behind the first one are read back. -/
theorem parseItems_spaced : ∀ (xs : List Json) (fuel : ℕ) (rest : List Char),
    (spacedItems gap xs).length < fuel →
      parseItems fuel (spacedItems gap xs ++ ']' :: rest) = some (xs, rest)
  | xs, 0, rest, hfuel => by omega
  | [], fuel + 1, rest, _ => by
    rw [spacedItems, List.nil_append, parseItems_close]
  | x :: xs, fuel + 1, rest, hfuel => by
    have hpos := length_spaced_pos gap x
    simp only [spacedItems, List.length_append, List.length_cons] at hfuel
    have hx := parseValue_spaced x fuel (spacedItems gap xs ++ ']' :: rest) (by omega) (by
      cases xs <;> exact noNumberHead_cons (by decide))
    have hxs := parseItems_spaced xs fuel rest (by omega)
    have htext : spacedItems gap (x :: xs) ++ ']' :: rest =
        ',' :: (gap ++ (x.spaced gap ++ (spacedItems gap xs ++ ']' :: rest))) := by
      rw [spacedItems]
      simp
    rw [htext, parseItems_comma, parseValue_gap hgap, hx, Option.bind_some, hxs, Option.map_some]

/-- The members behind the first one are read back. -/
theorem parseMembers_spaced : ∀ (ms : List (String × Json)) (fuel : ℕ) (rest : List Char),
    (spacedMembers gap ms).length < fuel →
      parseMembers fuel (spacedMembers gap ms ++ '}' :: rest) = some (ms, rest)
  | ms, 0, rest, hfuel => by omega
  | [], fuel + 1, rest, _ => by
    rw [spacedMembers, List.nil_append, parseMembers_close]
  | (key, x) :: ms, fuel + 1, rest, hfuel => by
    have hpos := length_spaced_pos gap x
    simp only [spacedMembers, List.length_append, List.length_cons, quoted] at hfuel
    obtain ⟨fuel, rfl⟩ := Nat.exists_eq_succ_of_ne_zero (show fuel ≠ 0 by omega)
    have hx := parseValue_spaced x fuel (spacedMembers gap ms ++ '}' :: rest) (by omega) (by
      cases ms <;> exact noNumberHead_cons (by decide))
    have hms := parseMembers_spaced ms (fuel + 1) rest (by omega)
    have htext : spacedMembers gap ((key, x) :: ms) ++ '}' :: rest = ',' :: (gap ++
        (quoted key ++ ':' :: (gap ++ (x.spaced gap ++ (spacedMembers gap ms ++ '}' :: rest))))) := by
      rw [spacedMembers]
      simp
    rw [htext, parseMembers_comma, parseMember_gap hgap, parseMember_of_value hgap hx, Option.bind_some,
      hms, Option.map_some]

end

/-- The spaced text of a value is read back as the value. -/
theorem parse_spaced (v : Json) : Json.parse (v.spaced gap) = some v := by
  have h := parseValue_spaced hgap v ((v.spaced gap).length + 1) [] (Nat.le_succ _)
    (by simp [NoNumberHead])
  rw [List.append_nil] at h
  rw [Json.parse, h]
  rfl

end

/-- The compact text of a value is read back as the value. -/
theorem parse_compact (v : Json) : Json.parse v.compact = some v := by
  rw [← spaced_nil]
  exact parse_spaced (fun c hc => absurd hc List.not_mem_nil) v

end InferenceGateway.Common
