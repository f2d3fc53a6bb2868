import InferenceGateway.Common.JsonParse
import InferenceGateway.Common.Utf8

/-!
# JSON in Python

The values that `json.loads` makes of JSON, the few operations that programs perform on them, and
`json.dumps` with `ensure_ascii=False`. What Python prints for floats, errors and values that are no
strings, and how it decodes UTF-16 and UTF-32, is left to a `Python`.
-/

namespace InferenceGateway.Common

/-! ## Values -/

/-- A value that `json.loads` returns. A float keeps the literal it was read from. -/
inductive PyValue
  | none
  | bool (b : Bool)
  | int (n : ℤ)
  | float (literal : Numeral)
  | str (s : String)
  | list (items : List PyValue)
  | dict (members : List (String × PyValue))

/-- What stops a function that does not return. -/
inductive PyError
  | attributeError
  | typeError
  | valueError
  | unicodeDecodeError
  | jsonDecodeError (text : String)
deriving DecidableEq

/-- The encodings that `json.detect_encoding` tells apart. -/
inductive TextEncoding
  | utf8
  | utf8Sig
  | utf16
  | utf16be
  | utf16le
  | utf32
  | utf32be
  | utf32le
deriving DecidableEq

/-- The parts of Python's library that are not spelled out. -/
structure Python where
  /-- How `json.dumps` prints a float. -/
  floatRepr : Numeral → List Char
  /-- Whether a float is zero. -/
  floatIsZero : Numeral → Bool
  /-- `format` of a value that is no string. -/
  formatOther : PyValue → String
  /-- The text of the `JSONDecodeError` for a text. -/
  decodeError : List Char → String
  /-- Decoding of UTF-16 and UTF-32. -/
  decodeWide : TextEncoding → List UInt8 → Option (List Char)

variable (py : Python)

/-- Truth of a value. -/
def PyValue.truthy : PyValue → Bool
  | .none => false
  | .bool b => b
  | .int n => n ≠ 0
  | .float literal => !py.floatIsZero literal
  | .str s => s ≠ ""
  | .list items => !items.isEmpty
  | .dict members => !members.isEmpty

/-- The `get` of a `dict`; no other value has one. -/
def PyValue.get (v : PyValue) (key : String) (fallback : PyValue) : Except PyError PyValue :=
  match v with
  | .dict members => .ok ((members.lookup key).getD fallback)
  | _ => .error .attributeError

/-- `s + v` for a string `s`. -/
def PyValue.appendTo (s : String) : PyValue → Except PyError String
  | .str t => .ok (s ++ t)
  | _ => .error .typeError

/-- What an f-string writes for a value. -/
def PyValue.format : PyValue → String
  | .str s => s
  | v => py.formatOther v

/-! ## `int` -/

/-- The characters up to `U+00FF` that `str.strip` removes. -/
def isPySpace (c : Char) : Bool :=
  c ∈ ['\t', '\n', '\x0b', '\x0c', '\r', '\x1c', '\x1d', '\x1e', '\x1f', ' ', '\x85', '\xa0']

/-- Digits, with single underscores between them. -/
def isDigitGroups : List Char → Bool
  | [] => false
  | [c] => c.isDigit
  | c :: '_' :: rest => c.isDigit && isDigitGroups rest
  | c :: rest => c.isDigit && isDigitGroups rest

/-- The value of grouped digits. -/
def groupedValue (text : List Char) : Option ℕ :=
  if isDigitGroups text then some (Nat.ofDigitChars 10 (text.filter Char.isDigit) 0) else none

/-- `int` of a text of characters up to `U+00FF`, of which no more are digits than `int` takes. -/
def pyInt (text : List Char) : Option ℤ :=
  match ((text.dropWhile isPySpace).reverse.dropWhile isPySpace).reverse with
  | '-' :: digits => (groupedValue digits).map fun n => -(n : ℤ)
  | '+' :: digits => (groupedValue digits).map Int.ofNat
  | digits => (groupedValue digits).map Int.ofNat

/-! ## `json.loads` -/

/-- `json.detect_encoding`. -/
def detectEncoding (b : List UInt8) : TextEncoding :=
  if [0x00, 0x00, 0xfe, 0xff].isPrefixOf b ∨ [0xff, 0xfe, 0x00, 0x00].isPrefixOf b then .utf32
  else if [0xfe, 0xff].isPrefixOf b ∨ [0xff, 0xfe].isPrefixOf b then .utf16
  else if [0xef, 0xbb, 0xbf].isPrefixOf b then .utf8Sig
  else match b with
    | b₀ :: b₁ :: b₂ :: b₃ :: _ =>
      if b₀ = 0 then if b₁ ≠ 0 then .utf16be else .utf32be
      else if b₁ = 0 then if b₂ ≠ 0 ∨ b₃ ≠ 0 then .utf16le else .utf32le
      else .utf8
    | [b₀, b₁] => if b₀ = 0 then .utf16be else if b₁ = 0 then .utf16le else .utf8
    | _ => .utf8

/-- `b.decode(encoding, "surrogatepass")`, which decodes encoded surrogates where `fromUtf8` fails. -/
def Python.decode (encoding : TextEncoding) (b : List UInt8) : Option (List Char) :=
  match encoding with
  | .utf8 => fromUtf8 b
  | .utf8Sig => fromUtf8 (b.drop 3)
  | _ => py.decodeWide encoding b

/-- `d[key] = value`. -/
def dictSet (key : String) (value : PyValue) : List (String × PyValue) → List (String × PyValue)
  | [] => [(key, value)]
  | (k, v) :: rest => if k = key then (k, value) :: rest else (k, v) :: dictSet key value rest

/-- `dict(pairs)`. -/
def toDict (pairs : List (String × PyValue)) : List (String × PyValue) :=
  pairs.foldl (fun d p => dictSet p.1 p.2 d) []

/-- An integer, or a float if there is a fraction or an exponent. -/
def Numeral.toPython (literal : Numeral) : PyValue :=
  match literal.text with
  | '-' :: digits =>
    if digits.all Char.isDigit then .int (-(Nat.ofDigitChars 10 digits 0 : ℕ)) else .float literal
  | digits => if digits.all Char.isDigit then .int (Nat.ofDigitChars 10 digits 0) else .float literal

mutual

/-- The value of a JSON value. -/
def Json.toPython : Json → PyValue
  | .null => .none
  | .bool b => .bool b
  | .num literal => literal.toPython
  | .str s => .str s
  | .arr items => .list (itemsToPython items)
  | .obj members => .dict (toDict (membersToPython members))

def itemsToPython : List Json → List PyValue
  | [] => []
  | x :: xs => x.toPython :: itemsToPython xs

def membersToPython : List (String × Json) → List (String × PyValue)
  | [] => []
  | (key, x) :: ms => (key, x.toPython) :: membersToPython ms

end

/-- `sys.int_info.default_max_str_digits`. -/
def maxStrDigits : ℕ := 4300

/-- The literal is a float, or an integer of no more digits than Python converts. -/
def Numeral.converts (literal : Numeral) : Bool :=
  match literal.toPython with
  | .int _ => literal.text.countP Char.isDigit ≤ maxStrDigits
  | _ => true

mutual

/-- Every number converts. -/
def Json.converts : Json → Bool
  | .num literal => literal.converts
  | .arr items => itemsConvert items
  | .obj members => membersConvert members
  | _ => true

def itemsConvert : List Json → Bool
  | [] => true
  | x :: xs => x.converts && itemsConvert xs

def membersConvert : List (String × Json) → Bool
  | [] => true
  | (_, x) :: ms => x.converts && membersConvert ms

end

/-- `json.loads(b)`. Python also reads lone surrogates and the literals `NaN` and `Infinity`, gives up on very
deep nesting, and on a long integer even where the text behind it is no JSON. -/
def loads (b : List UInt8) : Except PyError PyValue :=
  match py.decode (detectEncoding b) b with
  | none => .error .unicodeDecodeError
  | some text =>
    match Json.parse text with
    | none => .error (.jsonDecodeError (py.decodeError text))
    | some v => if v.converts then .ok v.toPython else .error .valueError

/-! ## `json.dumps` -/

mutual

/-- `json.dumps(v, ensure_ascii=False)`. -/
def dumps : PyValue → List Char
  | .none => "null".toList
  | .bool true => "true".toList
  | .bool false => "false".toList
  | .int n => (Numeral.ofInt n).text
  | .float literal => py.floatRepr literal
  | .str s => quoted s
  | .list [] => "[]".toList
  | .list (x :: xs) => '[' :: dumps x ++ dumpsItems xs ++ [']']
  | .dict [] => "{}".toList
  | .dict ((key, x) :: ms) => '{' :: quoted key ++ ':' :: ' ' :: dumps x ++ dumpsMembers ms ++ ['}']

def dumpsItems : List PyValue → List Char
  | [] => []
  | x :: xs => ',' :: ' ' :: dumps x ++ dumpsItems xs

def dumpsMembers : List (String × PyValue) → List Char
  | [] => []
  | (key, x) :: ms => ',' :: ' ' :: quoted key ++ ':' :: ' ' :: dumps x ++ dumpsMembers ms

end

/-! ## Looking up members -/

theorem lookup_cons_eq_ite {α : Type} (key : String) (p : String × α) (d : List (String × α)) :
    (p :: d).lookup key = if key = p.1 then some p.2 else d.lookup key := by
  rw [List.lookup_cons]
  by_cases h : key = p.1
  · rw [if_pos h, h, beq_self_eq_true]
  · rw [if_neg h, beq_eq_false_iff_ne.mpr h]

theorem lookup_dictSet (key k : String) (value : PyValue) (d : List (String × PyValue)) :
    (dictSet k value d).lookup key = if key = k then some value else d.lookup key := by
  induction d with
  | nil => rw [dictSet, lookup_cons_eq_ite]
  | cons p d ih =>
    obtain ⟨k', v⟩ := p
    rw [dictSet]
    split
    · rename_i heq
      subst heq
      rw [lookup_cons_eq_ite, lookup_cons_eq_ite]
      by_cases h : key = k'
      · rw [if_pos h, if_pos h]
      · rw [if_neg h, if_neg h, if_neg h]
    · rename_i hne
      rw [lookup_cons_eq_ite, lookup_cons_eq_ite, ih]
      by_cases h : key = k'
      · rw [if_pos h, if_neg (h ▸ hne), if_pos h]
      · rw [if_neg h, if_neg h]

/-- The last of the pairs with a key counts. -/
theorem lookup_toDict (key : String) (pairs : List (String × PyValue)) :
    (toDict pairs).lookup key = pairs.reverse.lookup key := by
  induction pairs using List.reverseRecOn with
  | nil => rfl
  | append_singleton pairs p ih =>
    have hset : toDict (pairs ++ [p]) = dictSet p.1 p.2 (toDict pairs) := by
      rw [toDict, List.foldl_append]
      rfl
    rw [hset, lookup_dictSet, ih, List.reverse_append, List.reverse_singleton, List.singleton_append,
      lookup_cons_eq_ite]

theorem membersToPython_eq_map (ms : List (String × Json)) :
    membersToPython ms = ms.map fun p => (p.1, p.2.toPython) := by
  induction ms with
  | nil => rw [membersToPython, List.map_nil]
  | cons p ms ih => rw [membersToPython, List.map_cons, ih]

theorem lookup_map_toPython (key : String) (ms : List (String × Json)) :
    (ms.map fun p => (p.1, p.2.toPython)).lookup key = (ms.lookup key).map Json.toPython := by
  induction ms with
  | nil => rfl
  | cons p ms ih =>
    rw [List.map_cons, List.lookup_cons, List.lookup_cons, ih]
    split <;> rfl

/-- The members of an object as its `dict` holds them. -/
theorem lookup_members (key : String) (ms : List (String × Json)) :
    (toDict (membersToPython ms)).lookup key = (ms.reverse.lookup key).map Json.toPython := by
  rw [lookup_toDict, membersToPython_eq_map, ← List.map_reverse, lookup_map_toPython]

theorem lookup_append {α : Type} (key : String) (xs ys : List (String × α)) :
    (xs ++ ys).lookup key = (xs.lookup key).or (ys.lookup key) := by
  simp only [List.lookup_eq_findSome?, List.findSome?_append]

theorem get_dict (members : List (String × PyValue)) (key : String) (fallback : PyValue) :
    (PyValue.dict members).get key fallback = .ok ((members.lookup key).getD fallback) := rfl

/-- An empty `dict` may be replaced by another one. -/
theorem get_or_empty (members : List (String × PyValue)) (key : String) (fallback : PyValue) :
    (if (PyValue.dict members).truthy py then PyValue.dict members else .dict []).get key fallback =
      .ok ((members.lookup key).getD fallback) := by
  split
  · rfl
  · rename_i h
    rw [PyValue.truthy, Bool.not_eq_true, Bool.not_eq_false', List.isEmpty_iff] at h
    rw [h]
    rfl

/-! ## Numbers -/

theorem all_isDigit_toDigits (n : ℕ) : (Nat.toDigits 10 n).all Char.isDigit = true :=
  List.all_eq_true.mpr (isDigit_toDigits n)

theorem toPython_ofNat (n : ℕ) : (Numeral.ofNat n).toPython = .int n := by
  have hdigits := all_isDigit_toDigits n
  rw [Numeral.toPython, show (Numeral.ofNat n).text = Nat.toDigits 10 n from rfl]
  split
  · rename_i digits htext
    rw [htext] at hdigits
    cases hdigits
  · rw [if_pos hdigits, Nat.ofDigitChars_ten_toDigits]

theorem converts_ofNat {n : ℕ} (h : n < 10 ^ maxStrDigits) : (Numeral.ofNat n).converts = true := by
  have hlength : (Nat.toDigits 10 n).length ≤ maxStrDigits :=
    (Nat.length_toDigits_le_iff (by decide) (by decide)).mpr h
  rw [Numeral.converts, toPython_ofNat, decide_eq_true_eq]
  exact List.countP_le_length.trans hlength

theorem membersConvert_eq_all (ms : List (String × Json)) :
    membersConvert ms = ms.all fun p => p.2.converts := by
  induction ms with
  | nil => rw [membersConvert, List.all_nil]
  | cons p ms ih => rw [membersConvert, List.all_cons, ih]

theorem isDigitGroups_of_digits {digits : List Char} (hne : digits ≠ [])
    (h : ∀ c ∈ digits, c.isDigit = true) : isDigitGroups digits = true := by
  induction digits using isDigitGroups.induct with
  | case1 => exact absurd rfl hne
  | case2 c => exact h c List.mem_cons_self
  | case3 c rest ih => exact absurd (h '_' (by simp)) (by decide)
  | case4 c rest hne' hrest ih =>
    rw [isDigitGroups.eq_4 c rest hne' hrest, h c List.mem_cons_self,
      ih hne' fun d hd => h d (List.mem_cons_of_mem c hd)]
    rfl

theorem isPySpace_of_isDigit {c : Char} (h : c.isDigit = true) : isPySpace c = false := by
  refine Bool.eq_false_iff.mpr fun hspace => ?_
  simp only [isPySpace, List.mem_cons, List.not_mem_nil, or_false, decide_eq_true_eq] at hspace
  rcases hspace with rfl | rfl | rfl | rfl | rfl | rfl | rfl | rfl | rfl | rfl | rfl | rfl <;> cases h

theorem dropWhile_isPySpace_of_digits {digits : List Char} (h : ∀ c ∈ digits, c.isDigit = true) :
    digits.dropWhile isPySpace = digits := by
  cases digits with
  | nil => rfl
  | cons c rest =>
    rw [List.dropWhile_cons_of_neg (by simp [isPySpace_of_isDigit (h c List.mem_cons_self)])]

/-- A decimal number is read back. -/
theorem pyInt_toDigits (n : ℕ) : pyInt (Nat.toDigits 10 n) = some (n : ℤ) := by
  have hdigits := isDigit_toDigits n
  have hvalue : groupedValue (Nat.toDigits 10 n) = some n := by
    have hne : Nat.toDigits 10 n ≠ [] := (Numeral.ofNat n).text_ne_nil
    rw [groupedValue, if_pos (isDigitGroups_of_digits hne hdigits),
      List.filter_eq_self.mpr hdigits, Nat.ofDigitChars_ten_toDigits]
  rw [pyInt, dropWhile_isPySpace_of_digits hdigits,
    dropWhile_isPySpace_of_digits fun c hc => hdigits c (List.mem_reverse.mp hc), List.reverse_reverse]
  split
  · rename_i digits htext
    exact absurd (hdigits '-' (htext ▸ List.mem_cons_self)) (by decide)
  · rename_i digits htext
    exact absurd (hdigits '+' (htext ▸ List.mem_cons_self)) (by decide)
  · rw [hvalue]
    rfl

/-! ## Reading -/

/-- An object with a member is taken for UTF-8. -/
theorem detectEncoding_object (bs : List UInt8) : detectEncoding (0x7b :: 0x22 :: bs) = .utf8 := by
  rcases bs with _ | ⟨b, _ | ⟨b', bs⟩⟩ <;> rfl

/-- The compact text of an object with a member is read back, unless it has a number that is too long. -/
theorem loads_object (p : String × Json) (ms : List (String × Json)) :
    loads py (utf8 (Json.obj (p :: ms)).compact) =
      if membersConvert (p :: ms) then .ok (.dict (toDict (membersToPython (p :: ms))))
      else .error .valueError := by
  have hparse := parse_compact (.obj (p :: ms))
  obtain ⟨text, htext⟩ : ∃ text, (Json.obj (p :: ms)).compact = '{' :: '"' :: text := by
    rw [Json.compact, quoted]
    exact ⟨_, rfl⟩
  have hutf8 : utf8 ('{' :: '"' :: text) = 0x7b :: 0x22 :: utf8 text := rfl
  have hdecode : py.decode .utf8 (utf8 ('{' :: '"' :: text)) = some ('{' :: '"' :: text) :=
    fromUtf8_utf8 _
  rw [htext] at hparse ⊢
  rw [loads, hutf8, detectEncoding_object, ← hutf8, hdecode]
  dsimp only
  rw [hparse]
  dsimp only
  rw [Json.converts, Json.toPython]

/-! ## Printing -/

theorem dumps_int (n : ℕ) : dumps py (.int n) = (Numeral.ofNat n).text := by
  rw [dumps, Numeral.ofInt_natCast]

end InferenceGateway.Common
