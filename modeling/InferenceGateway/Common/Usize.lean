import Mathlib

/-!
# 64-bit `usize` and `isize`

Rust's arithmetic on integers of the size of a pointer, with the overflow checks of a debug build, and
`str::parse::<usize>`. A cast between the two types keeps the bits.
-/

namespace InferenceGateway.Common

/-- Why a thread panics. -/
inductive Panic
  | overflow
  | assertion
deriving DecidableEq, Repr

/-! ## Arithmetic -/

/-- `a + b` on `usize`. -/
def usizeAdd (a b : UInt64) : Except Panic UInt64 :=
  if a.toNat + b.toNat < 2 ^ 64 then .ok (a + b) else .error .overflow

/-- `a - b` on `isize`. -/
def isizeSub (a b : Int64) : Except Panic Int64 :=
  if -2 ^ 63 ≤ a.toInt - b.toInt ∧ a.toInt - b.toInt < 2 ^ 63 then .ok (a - b) else .error .overflow

/-- `-a` on `isize`. -/
def isizeNeg (a : Int64) : Except Panic Int64 :=
  if a = Int64.minValue then .error .overflow else .ok (-a)

/-- `Ord::clamp` on `usize`. -/
def usizeClamp (x lo hi : UInt64) : Except Panic UInt64 :=
  if hi < lo then .error .assertion else .ok (if x < lo then lo else if hi < x then hi else x)

theorem toNat_ofNat_of_lt {n : ℕ} (h : n < 2 ^ 64) : (UInt64.ofNat n).toNat = n :=
  UInt64.toNat_ofNat_of_lt' h

theorem ofNat_lt_ofNat_iff {m n : ℕ} (hm : m < 2 ^ 64) (hn : n < 2 ^ 64) :
    UInt64.ofNat m < UInt64.ofNat n ↔ m < n := by
  rw [UInt64.lt_iff_toNat_lt, toNat_ofNat_of_lt hm, toNat_ofNat_of_lt hn]

theorem ofNat_eq_ofNat_iff {m n : ℕ} (hm : m < 2 ^ 64) (hn : n < 2 ^ 64) :
    UInt64.ofNat m = UInt64.ofNat n ↔ m = n := by
  rw [← UInt64.toNat_inj, toNat_ofNat_of_lt hm, toNat_ofNat_of_lt hn]

theorem ofNat_le_ofNat_iff {m n : ℕ} (hm : m < 2 ^ 64) (hn : n < 2 ^ 64) :
    UInt64.ofNat m ≤ UInt64.ofNat n ↔ m ≤ n := by
  rw [UInt64.le_iff_toNat_le, toNat_ofNat_of_lt hm, toNat_ofNat_of_lt hn]

theorem max_ofNat {m n : ℕ} (hm : m < 2 ^ 64) (hn : n < 2 ^ 64) :
    max (UInt64.ofNat m) (.ofNat n) = .ofNat (max m n) := by
  show (if UInt64.ofNat m ≤ .ofNat n then _ else _) = _
  simp only [ofNat_le_ofNat_iff hm hn, max_def]
  split <;> rfl

theorem min_ofNat {m n : ℕ} (hm : m < 2 ^ 64) (hn : n < 2 ^ 64) :
    min (UInt64.ofNat m) (.ofNat n) = .ofNat (min m n) := by
  show (if UInt64.ofNat m ≤ .ofNat n then _ else _) = _
  simp only [ofNat_le_ofNat_iff hm hn, min_def]
  split <;> rfl

theorem usizeAdd_ofNat {m n : ℕ} (h : m + n < 2 ^ 64) :
    usizeAdd (.ofNat m) (.ofNat n) = .ok (.ofNat (m + n)) := by
  have hm : m < 2 ^ 64 := by omega
  have hn : n < 2 ^ 64 := by omega
  rw [usizeAdd, toNat_ofNat_of_lt hm, toNat_ofNat_of_lt hn, if_pos h, UInt64.ofNat_add]

/-- The cast to `isize` is exact up to its maximum. -/
theorem toInt_toInt64_ofNat {n : ℕ} (h : n < 2 ^ 63) : (UInt64.ofNat n).toInt64.toInt = n := by
  rw [UInt64.toInt64_ofNat', Int64.toInt_ofNat_of_lt h]

/-- The difference of two numbers below the maximum of `isize` does not overflow. -/
theorem isizeSub_ofNat {m n : ℕ} (hm : m < 2 ^ 63) (hn : n < 2 ^ 63) :
    ∃ delta, isizeSub (UInt64.ofNat m).toInt64 (UInt64.ofNat n).toInt64 = .ok delta ∧
      delta.toInt = (m : ℤ) - n := by
  have hrange : -2 ^ 63 ≤ (m : ℤ) - n ∧ (m : ℤ) - n < 2 ^ 63 := by omega
  refine ⟨_, if_pos ?_, ?_⟩
  · rwa [toInt_toInt64_ofNat hm, toInt_toInt64_ofNat hn]
  · rw [Int64.toInt_sub, toInt_toInt64_ofNat hm, toInt_toInt64_ofNat hn]
    exact Int.bmod_eq_of_le (by omega) (by omega)

/-- The cast of a number that is not negative. -/
theorem toNat_toUInt64 {x : Int64} (h : 0 ≤ x.toInt) : (x.toUInt64.toNat : ℤ) = x.toInt := by
  rw [Int64.toNat_toUInt64_of_le (Int64.le_iff_toInt_le.mpr h), Int64.toNatClampNeg, Int.toNat_of_nonneg h]

/-- The negation of a negative number above the minimum. -/
theorem isizeNeg_of_neg {x : Int64} (hmin : -2 ^ 63 < x.toInt) (hneg : x.toInt ≤ 0) :
    ∃ y, isizeNeg x = .ok y ∧ y.toInt = -x.toInt := by
  have hne : x ≠ Int64.minValue := by
    rintro rfl
    exact absurd hmin (by decide)
  refine ⟨_, if_neg hne, ?_⟩
  rw [Int64.toInt_neg]
  exact Int.bmod_eq_of_le (by omega) (by omega)

/-! ## Parsing -/

/-- The characters that `str::trim` removes. -/
def isWhiteSpace (c : Char) : Bool :=
  (9 ≤ c.toNat && c.toNat ≤ 13) || (0x2000 ≤ c.toNat && c.toNat ≤ 0x200a) ||
    c.toNat ∈ [0x20, 0x85, 0xa0, 0x1680, 0x2028, 0x2029, 0x202f, 0x205f, 0x3000]

/-- `str::trim`. -/
def trimWhiteSpace (text : List Char) : List Char :=
  ((text.dropWhile isWhiteSpace).reverse.dropWhile isWhiteSpace).reverse

/-- The digits of a number, which may follow a plus sign. -/
def unsignedDigits : List Char → List Char
  | '+' :: digits => digits
  | digits => digits

/-- `str::parse::<usize>`. -/
def parseUsize (text : List Char) : Option UInt64 :=
  let digits := unsignedDigits text
  if digits ≠ [] ∧ digits.all Char.isDigit ∧ Nat.ofDigitChars 10 digits 0 < 2 ^ 64 then
    some (.ofNat (Nat.ofDigitChars 10 digits 0))
  else none

end InferenceGateway.Common
