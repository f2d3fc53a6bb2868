import InferenceGateway.Common.Json
import InferenceGateway.Common.Utf8

/-! # `std::string` and its numeric conversions

Reference: the members of `std::string` and the functions of `<string>` and `<cctype>` that
`inference_core.cpp` uses.

A `std::string` is a sequence of bytes. `npos` is `none`, in a result as well as in an argument. The
integer types are those of an LP64 platform.
-/

namespace InferenceGateway.Core

open Common

/-- A `std::string`. -/
abbrev StdString := List UInt8

/-- The exceptions that `std::string` and the conversions throw. -/
inductive StdException
  | outOfRange (what : String)
  | invalidArgument (what : String)
deriving DecidableEq, Repr

/-- A call that returns or throws. -/
abbrev Throws (α : Type) := Except StdException α

/-- A sequence of calls returns if each of them does. -/
theorem bind_eq_ok {ε α β : Type} {x : Except ε α} {f : α → Except ε β} {b : β} :
    x >>= f = .ok b ↔ ∃ a, x = .ok a ∧ f a = .ok b := by
  cases x with
  | error e => exact ⟨nofun, fun ⟨_, h, _⟩ => nomatch h⟩
  | ok a => exact ⟨fun h => ⟨a, rfl, h⟩, fun ⟨_, h, hf⟩ => by cases h; exact hf⟩

/-! ## Members of `std::string` -/

/-- `s.substr(pos, count)`. -/
def substr (s : StdString) (pos : ℕ) (count : Option ℕ) : Throws StdString :=
  if s.length < pos then .error (.outOfRange "basic_string::substr")
  else .ok ((s.drop pos).take (count.getD s.length))

/-- `s.find(pattern, pos)`. -/
def find (s pattern : StdString) (pos : ℕ) : Option ℕ :=
  if s.length < pos then none else (indexOf pattern (s.drop pos)).map (· + pos)

/-- `s.find_first_not_of(chars, pos)`. -/
def findFirstNotOf (s chars : StdString) (pos : ℕ) : Option ℕ :=
  ((s.drop pos).findIdx? (· ∉ chars)).map (· + pos)

/-- `s.find_last_not_of(chars)`. -/
def findLastNotOf (s chars : StdString) : Option ℕ :=
  (s.reverse.findIdx? (· ∉ chars)).map fun i => s.length - 1 - i

/-- `substr` throws for a position behind the end only. -/
theorem substr_of_le {s : StdString} {pos : ℕ} (h : pos ≤ s.length) (count : Option ℕ) :
    substr s pos count = .ok ((s.drop pos).take (count.getD s.length)) :=
  if_neg (Nat.not_lt.mpr h)

theorem substr_none {s : StdString} {pos : ℕ} (h : pos ≤ s.length) :
    substr s pos none = .ok (s.drop pos) := by
  rw [substr_of_le h, Option.getD_none, List.take_of_length_le (by simp)]

theorem find_zero (s pattern : StdString) : find s pattern 0 = indexOf pattern s := by
  simp [find]

/-- The range of a found pattern lies in the string. -/
theorem find_add_le {s pattern : StdString} {pos i : ℕ} (h : find s pattern pos = some i) :
    i + pattern.length ≤ s.length := by
  simp only [find] at h
  split at h
  · cases h
  · obtain ⟨j, hj, rfl⟩ := Option.map_eq_some_iff.mp h
    have := add_length_le_of_indexOf_eq_some hj
    rw [List.length_drop] at this
    omega

/-- Nothing found: the character does not occur behind the position. -/
theorem not_mem_of_find_eq_none {s : StdString} {c : UInt8} {pos : ℕ} (hpos : pos ≤ s.length)
    (h : find s [c] pos = none) : c ∉ s.drop pos := by
  rw [find, if_neg (Nat.not_lt.mpr hpos)] at h
  exact indexOf_singleton_eq_none (Option.map_eq_none_iff.mp h)

/-- Something found: the text up to there. -/
theorem substr_of_find {s : StdString} {c : UInt8} {pos i : ℕ} (hpos : pos ≤ s.length)
    (h : find s [c] pos = some i) :
    c ∈ s.drop pos ∧ substr s pos (some (i - pos)) = .ok (upTo c (s.drop pos)) := by
  rw [find, if_neg (Nat.not_lt.mpr hpos)] at h
  obtain ⟨j, hj, rfl⟩ := Option.map_eq_some_iff.mp h
  refine ⟨mem_of_indexOf_singleton hj, ?_⟩
  rw [substr_of_le hpos, Option.getD_some, Nat.add_sub_cancel, take_of_indexOf_singleton hj]

/-- Cutting at a pattern, or at the end if the pattern is not found. -/
theorem substr_find {s : StdString} (pattern : StdString) {pos : ℕ} (hpos : pos ≤ s.length) :
    substr s pos ((find s pattern pos).map (· - pos)) = .ok (before pattern (s.drop pos)) := by
  rw [find, if_neg (Nat.not_lt.mpr hpos), before]
  cases indexOf pattern (s.drop pos) with
  | none => exact substr_none hpos
  | some i =>
    rw [Option.map_some, Option.map_some, Nat.add_sub_cancel]
    exact substr_of_le hpos _

/-- Cutting at the first occurrence of a pattern. -/
theorem substr_before (s pattern : StdString) :
    substr s 0 (find s pattern 0) = .ok (before pattern s) := by
  have h := substr_find pattern (Nat.zero_le s.length)
  simp only [Nat.sub_zero, Option.map_id', List.drop_zero] at h
  exact h

/-- The text behind a found pattern. -/
theorem substr_after {s pattern : StdString} {i : ℕ} (h : find s pattern 0 = some i) :
    ∃ rest, after pattern s = some rest ∧ substr s (i + pattern.length) none = .ok rest := by
  have hle := find_add_le h
  rw [find_zero] at h
  exact ⟨_, by rw [after, h, Option.map_some], substr_none hle⟩

/-- The text of characters from `chars`, as the scanners of numbers cut it out. -/
theorem substr_findFirstNotOf {s : StdString} (chars : StdString) {pos : ℕ} (hpos : pos ≤ s.length) :
    substr s pos (some ((findFirstNotOf s chars pos).getD s.length - pos)) =
      .ok ((s.drop pos).takeWhile (· ∈ chars)) := by
  have hidx : (findFirstNotOf s chars pos).getD s.length - pos =
      (s.drop pos).findIdx (· ∉ chars) := by
    rw [findFirstNotOf, List.findIdx_eq_getD_findIdx?]
    cases (s.drop pos).findIdx? (· ∉ chars) with
    | none => rw [Option.map_none, Option.getD_none, Option.getD_none, List.length_drop]
    | some i => rw [Option.map_some, Option.getD_some, Option.getD_some, Nat.add_sub_cancel]
  rw [substr_of_le hpos, hidx, Option.getD_some, List.takeWhile_eq_take_findIdx_not]
  simp

/-! ## Conversions -/

/-- `std::isspace` in the "C" locale. -/
def isspace (c : UInt8) : Bool := c == 32 || (9 ≤ c && c ≤ 13)

/-- A decimal digit. -/
def isdigit (c : UInt8) : Bool := 48 ≤ c && c ≤ 57

/-- `std::toupper` in the "C" locale. -/
def toupper (c : UInt8) : UInt8 := if 97 ≤ c ∧ c ≤ 122 then c - 32 else c

/-- What `strtol` and `strtoul` read in base 10: whether there is a minus sign, and the digits. -/
def scanDecimal (s : StdString) : Bool × StdString :=
  match s.dropWhile isspace with
  | [] => (false, [])
  | c :: rest =>
    if c = 45 then (true, rest.takeWhile isdigit)
    else if c = 43 then (false, rest.takeWhile isdigit)
    else (false, (c :: rest).takeWhile isdigit)

/-- The number that a text of digits spells. -/
def decimalValue (digits : StdString) : ℕ :=
  digits.foldl (fun value c => 10 * value + (c.toNat - 48)) 0

/-- `std::stoi`. -/
def stoi (s : StdString) : Throws ℤ :=
  let (negative, digits) := scanDecimal s
  if digits.isEmpty then .error (.invalidArgument "stoi")
  else
    let value : ℤ := if negative then -decimalValue digits else decimalValue digits
    if value < -2 ^ 31 ∨ 2 ^ 31 ≤ value then .error (.outOfRange "stoi") else .ok value

/-- `std::stoul`; a minus sign negates modulo 2^64. -/
def stoul (s : StdString) : Throws ℕ :=
  let (negative, digits) := scanDecimal s
  if digits.isEmpty then .error (.invalidArgument "stoul")
  else
    let value := decimalValue digits
    if 2 ^ 64 ≤ value then .error (.outOfRange "stoul")
    else .ok (if negative then (2 ^ 64 - value) % 2 ^ 64 else value)

/-- The text starts, behind whitespace and a sign, with digits whose value fits an `int`. -/
def IsInt (text : StdString) : Prop :=
  let (negative, digits) := scanDecimal text
  digits ≠ [] ∧ if negative then decimalValue digits ≤ 2 ^ 31 else decimalValue digits < 2 ^ 31

/-- The text starts, behind whitespace and a sign, with digits whose value fits an `unsigned long`. -/
def IsULong (text : StdString) : Prop :=
  let (_, digits) := scanDecimal text
  digits ≠ [] ∧ decimalValue digits < 2 ^ 64

instance (text : StdString) : Decidable (IsInt text) := inferInstanceAs (Decidable (_ ∧ ite _ _ _))

theorem stoi_returns_iff {text : StdString} : (∃ value, stoi text = .ok value) ↔ IsInt text := by
  rw [stoi, IsInt]
  rcases scanDecimal text with ⟨negative, digits⟩
  simp only [List.isEmpty_iff]
  by_cases hdigits : digits = []
  · rw [if_pos hdigits]
    exact ⟨fun ⟨_, h⟩ => (nomatch h), fun h => absurd hdigits h.1⟩
  · rw [if_neg hdigits]
    have hrange : ((if negative then -decimalValue digits else decimalValue digits : ℤ) < -2 ^ 31 ∨
        2 ^ 31 ≤ (if negative then -decimalValue digits else decimalValue digits : ℤ)) ↔
        ¬ if negative then decimalValue digits ≤ 2 ^ 31 else decimalValue digits < 2 ^ 31 := by
      cases negative <;> simp only [Bool.false_eq_true, if_true, if_false] <;> omega
    by_cases hfits : if negative then decimalValue digits ≤ 2 ^ 31 else decimalValue digits < 2 ^ 31
    · rw [if_neg (fun h => hrange.mp h hfits)]
      exact ⟨fun _ => ⟨hdigits, hfits⟩, fun _ => ⟨_, rfl⟩⟩
    · rw [if_pos (hrange.mpr hfits)]
      exact ⟨fun ⟨_, h⟩ => (nomatch h), fun h => absurd h.2 hfits⟩

theorem stoul_returns_iff {text : StdString} : (∃ value, stoul text = .ok value) ↔ IsULong text := by
  rw [stoul, IsULong]
  rcases scanDecimal text with ⟨negative, digits⟩
  simp only [List.isEmpty_iff]
  by_cases hdigits : digits = []
  · rw [if_pos hdigits]
    exact ⟨fun ⟨_, h⟩ => (nomatch h), fun h => absurd hdigits h.1⟩
  · rw [if_neg hdigits]
    by_cases hrange : 2 ^ 64 ≤ decimalValue digits
    · rw [if_pos hrange]
      exact ⟨fun ⟨_, h⟩ => (nomatch h), fun h => absurd h.2 (Nat.not_lt.mpr hrange)⟩
    · rw [if_neg hrange]
      exact ⟨fun _ => ⟨hdigits, Nat.not_le.mp hrange⟩, fun _ => ⟨_, rfl⟩⟩

/-! ### Converted numbers -/

theorem isdigit_of_mem_scanDecimal {text : StdString} {d : UInt8} (h : d ∈ (scanDecimal text).2) :
    isdigit d = true := by
  rw [scanDecimal] at h
  split at h
  · cases h
  · split at h
    · exact List.mem_takeWhile_imp h
    · split at h
      · exact List.mem_takeWhile_imp h
      · exact List.mem_takeWhile_imp h

/-- A text of digits spells a positive number exactly if one of them is not zero. -/
theorem decimalValue_pos_iff {digits : StdString} (h : ∀ d ∈ digits, isdigit d = true) :
    0 < decimalValue digits ↔ ∃ d ∈ digits, d ≠ asciiByte '0' := by
  suffices hfold : ∀ value : ℕ, 0 < digits.foldl (fun value c => 10 * value + (c.toNat - 48)) value ↔
      0 < value ∨ ∃ d ∈ digits, d ≠ asciiByte '0' by
    exact (hfold 0).trans (or_iff_right (lt_irrefl 0))
  induction digits with
  | nil => simp
  | cons d digits ih =>
    intro value
    obtain ⟨hd, hdigits⟩ := List.forall_mem_cons.mp h
    have hdigit : 0 < 10 * value + (d.toNat - 48) ↔ 0 < value ∨ d ≠ asciiByte '0' := by
      have hzero : d = asciiByte '0' ↔ d.toNat = 48 := UInt8.toNat_inj.symm
      simp only [isdigit, Bool.and_eq_true, decide_eq_true_eq, UInt8.le_iff_toNat_le] at hd
      have hlow : 48 ≤ d.toNat := hd.1
      rw [ne_eq, hzero]
      omega
    rw [List.foldl_cons, ih hdigits, hdigit, or_assoc, List.exists_mem_cons_iff]

theorem stoi_value {text : StdString} {n : ℤ} (h : stoi text = .ok n) :
    n = (if (scanDecimal text).1 = true then -decimalValue (scanDecimal text).2
      else decimalValue (scanDecimal text).2 : ℤ) ∧ n < 2 ^ 31 := by
  rw [stoi] at h
  dsimp only at h
  split at h
  · cases h
  · generalize (if (scanDecimal text).1 = true then -decimalValue (scanDecimal text).2
      else decimalValue (scanDecimal text).2 : ℤ) = value at h ⊢
    split at h
    · cases h
    · rename_i hrange
      cases h
      exact ⟨rfl, not_le.mp fun hle => hrange (.inr hle)⟩

/-! ### Conversion of digits -/

private theorem digit_bounds {c : Char} (h : c.isDigit = true) : 48 ≤ c.toNat ∧ c.toNat ≤ 57 := by
  simpa [Char.isDigit, UInt32.le_iff_toNat_le] using h

private theorem toNat_asciiByte_digit {c : Char} (h : c.isDigit = true) :
    (asciiByte c).toNat = c.toNat := toNat_asciiByte (by have := digit_bounds h; omega)

private theorem isdigit_asciiByte {c : Char} (h : c.isDigit = true) : isdigit (asciiByte c) = true := by
  have hb := digit_bounds h
  simpa [isdigit, UInt8.le_iff_toNat_le, toNat_asciiByte_digit h] using hb

theorem utf8_digits {cs : List Char} (h : ∀ c ∈ cs, c.isDigit = true) : utf8 cs = cs.map asciiByte := by
  induction cs with
  | nil => rfl
  | cons c cs ih =>
    obtain ⟨hc, hcs⟩ := List.forall_mem_cons.mp h
    rw [utf8_cons_of_lt (by have := digit_bounds hc; omega), ih hcs, List.map_cons]

/-- A digit is neither whitespace nor a sign. -/
theorem not_sign_of_isdigit {b : UInt8} (h : isdigit b = true) :
    isspace b = false ∧ b ≠ 45 ∧ b ≠ 43 := by
  simp only [isdigit, Bool.and_eq_true, decide_eq_true_eq, UInt8.le_iff_toNat_le] at h
  have hlow : 48 ≤ b.toNat := h.1
  refine ⟨?_, fun hb => ?_, fun hb => ?_⟩
  · simp only [isspace, Bool.or_eq_false_iff, Bool.and_eq_false_iff, beq_eq_false_iff_ne,
      decide_eq_false_iff_not, UInt8.le_iff_toNat_le]
    refine ⟨fun hb => ?_, .inr fun hb => ?_⟩
    · rw [hb] at hlow
      exact absurd hlow (by decide)
    · exact absurd (hlow.trans hb) (by decide)
  · rw [hb] at hlow
    exact absurd hlow (by decide)
  · rw [hb] at hlow
    exact absurd hlow (by decide)

theorem scanDecimal_of_isdigit {digits : StdString} (h : ∀ b ∈ digits, isdigit b = true) :
    scanDecimal digits = (false, digits) := by
  cases digits with
  | nil => rfl
  | cons b bs =>
    obtain ⟨hspace, hminus, hplus⟩ := not_sign_of_isdigit (h b List.mem_cons_self)
    rw [scanDecimal, List.dropWhile_cons_of_neg (by rw [hspace]; decide)]
    dsimp only
    rw [if_neg hminus, if_neg hplus, List.takeWhile_eq_self_iff.mpr h]

theorem scanDecimal_digits {cs : List Char} (h : ∀ c ∈ cs, c.isDigit = true) :
    scanDecimal (utf8 cs) = (false, utf8 cs) := by
  refine scanDecimal_of_isdigit ?_
  rw [utf8_digits h]
  intro b hb
  obtain ⟨c, hc, rfl⟩ := List.mem_map.mp hb
  exact isdigit_asciiByte (h c hc)

theorem decimalValue_digits {cs : List Char} (h : ∀ c ∈ cs, c.isDigit = true) :
    decimalValue (utf8 cs) = Nat.ofDigitChars 10 cs 0 := by
  rw [decimalValue, Nat.ofDigitChars_eq_foldl, utf8_digits h, List.foldl_map]
  refine List.foldl_ext _ _ _ fun value c hc => ?_
  rw [toNat_asciiByte_digit (h c hc)]
  rfl

/-- `std::stoul` reads a text of digits. -/
theorem stoul_of_isdigit {digits : StdString} (hne : digits ≠ [])
    (hdigits : ∀ b ∈ digits, isdigit b = true) (h : decimalValue digits < 2 ^ 64) :
    stoul digits = .ok (decimalValue digits) := by
  have hempty : digits.isEmpty = false := by simpa using hne
  rw [stoul, scanDecimal_of_isdigit hdigits]
  simp only [hempty, Bool.false_eq_true, if_false]
  rw [if_neg (Nat.not_le.mpr h)]

/-- `std::stoi` reads back the digits of a number below 2^31 and throws for the others. -/
theorem stoi_toDigits (n : ℕ) :
    stoi (utf8 (Nat.toDigits 10 n)) = if n < 2 ^ 31 then .ok n else .error (.outOfRange "stoi") := by
  have hdigits := isDigit_toDigits n
  have hne : (utf8 (Nat.toDigits 10 n)).isEmpty = false := by
    rw [utf8_digits hdigits, List.isEmpty_map, List.isEmpty_eq_false_iff]
    exact (Numeral.ofNat n).text_ne_nil
  have hvalue : decimalValue (utf8 (Nat.toDigits 10 n)) = n :=
    (decimalValue_digits hdigits).trans Nat.ofDigitChars_ten_toDigits
  rw [stoi, scanDecimal_digits hdigits]
  simp only [hne, hvalue, Bool.false_eq_true, if_false]
  by_cases h : n < 2 ^ 31
  · rw [if_pos h, if_neg (by omega)]
  · rw [if_neg h, if_pos (by omega)]

end InferenceGateway.Core
