import Dalvik.Power

/-!
# Binary floating-point formats

A finite magnitude is a natural number of units, the unit being the smallest
positive value of the format.  Decoding and rounding are exact integer
arithmetic; rounding takes the nearest value and, on a tie, the one with an
even significand.
-/

namespace Dalvik

/-- A binary interchange format: significand bits (the hidden one included)
and exponent field bits. -/
structure FloatFormat where
  precision : Nat
  exponentBits : Nat

/-- What a bit pattern stands for; magnitudes are counted in units. -/
inductive FloatValue where
  | finite (negative : Bool) (magnitude : Nat)
  | infinite (negative : Bool)
  | nan (negative : Bool)
  deriving DecidableEq, Repr

namespace FloatFormat

def binary32 : FloatFormat := ⟨24, 8⟩

def binary64 : FloatFormat := ⟨53, 11⟩

/-- The exponent field of infinities and of non-numbers. -/
def topExponent (format : FloatFormat) : Nat :=
  span format.exponentBits - 1

/-- The unit of magnitudes is two to the power of minus this number. -/
def unitShift (format : FloatFormat) : Nat :=
  span (format.exponentBits - 1) - 3 + format.precision

def fractionSpan (format : FloatFormat) : Nat :=
  span (format.precision - 1)

def signSpan (format : FloatFormat) : Nat :=
  span (format.precision - 1 + format.exponentBits)

def decode (format : FloatFormat) (bits : Nat) : FloatValue :=
  let negative := (bits / format.signSpan) % 2 == 1
  let exponent := (bits / format.fractionSpan) % span format.exponentBits
  let fraction := bits % format.fractionSpan
  if exponent = format.topExponent then
    if fraction = 0 then .infinite negative else .nan negative
  else if exponent = 0 then .finite negative fraction
  else .finite negative ((format.fractionSpan + fraction) * span (exponent - 1))

/-- How far a magnitude's leading bit lies above the significand. -/
def scale (format : FloatFormat) (magnitude : Nat) : Nat :=
  Nat.log2 magnitude + 1 - format.precision

/-- The bit pattern of a value whose magnitude the format holds; a magnitude
past the largest finite one gives an infinity. -/
def encode (format : FloatFormat) : FloatValue → Nat
  | .infinite negative =>
      negative.toNat * format.signSpan + format.topExponent * format.fractionSpan
  | .nan negative =>
      negative.toNat * format.signSpan + format.topExponent * format.fractionSpan
        + format.fractionSpan / 2
  | .finite negative magnitude =>
      let scale := format.scale magnitude
      negative.toNat * format.signSpan
        + min (scale * format.fractionSpan + magnitude / span scale)
          (format.topExponent * format.fractionSpan)

/-- The nearest integer to a quotient; a half goes to the even neighbour. -/
def divideToEven (numerator denominator : Nat) : Nat :=
  let quotient := numerator / denominator
  let twice := 2 * (numerator % denominator)
  if twice > denominator ∨ (twice = denominator ∧ quotient % 2 = 1) then quotient + 1
  else quotient

def roundMagnitude (format : FloatFormat) (numerator denominator : Nat) : Nat :=
  let step := span (format.scale (numerator / denominator))
  divideToEven numerator (denominator * step) * step

def round (format : FloatFormat) (negative : Bool) (numerator denominator : Nat) : FloatValue :=
  .finite negative
    (format.roundMagnitude (numerator * span format.unitShift) denominator)

def convert (source target : FloatFormat) (bits : Nat) : Nat :=
  match source.decode bits with
  | .finite negative magnitude =>
      target.encode (target.round negative magnitude (span source.unitShift))
  | .infinite negative => target.encode (.infinite negative)
  | .nan negative => target.encode (.nan negative)

end FloatFormat

end Dalvik
