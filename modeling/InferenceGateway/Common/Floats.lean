import Mathlib

/-!
# Floating-point numbers as bit patterns

The programs modelled here carry floats around, compare them with zero and truncate them. That much is
computed on the IEEE 754 bit pattern; arithmetic, parsing and printing are not modelled.
-/

namespace InferenceGateway.Common

/-- An `f32`, by its IEEE 754 bit pattern. -/
structure F32 where
  bits : UInt32
deriving DecidableEq, Repr

/-- An `f64`, by its IEEE 754 bit pattern. -/
structure F64 where
  bits : UInt64
deriving DecidableEq, Repr

namespace F32

/-- Neither infinite nor NaN. -/
def isFinite (x : F32) : Bool := (x.bits >>> 23) &&& 0xff != 0xff

/-- Not a number. -/
def isNaN (x : F32) : Bool := !x.isFinite && x.bits &&& 0x7fffff != 0

/-- The comparison `x <= 0.0f`. -/
def leZero (x : F32) : Bool := !x.isNaN && (x.bits &&& 0x7fffffff == 0 || x.bits >>> 31 == 1)

end F32

/-- Rust's `f64 as u128`: truncation towards zero, saturating, and `0` for NaN. -/
def F64.asU128 (x : F64) : BitVec 128 :=
  let negative := x.bits >>> 63 = 1
  let exponent := ((x.bits >>> 52) &&& 0x7ff).toNat
  let fraction := (x.bits &&& 0xfffffffffffff).toNat
  if exponent = 0x7ff then
    if fraction = 0 ∧ ¬ negative then BitVec.allOnes 128 else 0
  else if negative ∨ exponent = 0 then 0
  else
    let significand := 2 ^ 52 + fraction
    let value :=
      if 1075 ≤ exponent then significand * 2 ^ (exponent - 1075)
      else significand / 2 ^ (1075 - exponent)
    if 2 ^ 128 ≤ value then BitVec.allOnes 128 else BitVec.ofNat 128 value

end InferenceGateway.Common
