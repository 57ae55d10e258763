import Dalvik.Float.Binary

/-!
# Shortest decimal text of floating-point values

The text of a finite value has the fewest digits that read back as the same
bit pattern.  It is the nearest such decimal, the larger of two equally near
ones.
-/

namespace Dalvik

/-- The number `digits * 10 ^ exponent`. -/
structure Decimal where
  digits : Nat
  exponent : Int
  deriving DecidableEq, Repr

namespace Decimal

def stripZeros : Nat → Decimal → Decimal
  | 0, decimal => decimal
  | count + 1, decimal =>
      if decimal.digits % 10 = 0 ∧ decimal.digits ≠ 0 then
        stripZeros count ⟨decimal.digits / 10, decimal.exponent + 1⟩
      else decimal

def digitText (decimal : Decimal) : List Char :=
  Nat.toDigits 10 decimal.digits

def leading (decimal : Decimal) : Int :=
  decimal.exponent + (decimal.digitText.length : Int) - 1

/-- All digits written out, with at least one on each side of the point. -/
def positional (decimal : Decimal) : List Char :=
  let digits := decimal.digitText
  if decimal.exponent ≥ 0 then
    digits ++ List.replicate decimal.exponent.toNat '0' ++ ['.', '0']
  else
    let places := (-decimal.exponent).toNat
    if places < digits.length then
      digits.take (digits.length - places) ++ '.' :: digits.drop (digits.length - places)
    else
      '0' :: '.' :: List.replicate (places - digits.length) '0' ++ digits

/-- One digit before the point and a power of ten at the end. -/
def scientific (decimal : Decimal) : List Char :=
  let power := (toString decimal.leading).toList
  match decimal.digitText with
  | [] => []
  | [digit] => digit :: 'e' :: power
  | digit :: rest => digit :: '.' :: rest ++ 'e' :: power

/-- Powers of ten from `-4` to `15` are positional, the others scientific. -/
def text (decimal : Decimal) : List Char :=
  if decimal.digits = 0 ∨ (-4 ≤ decimal.leading ∧ decimal.leading < 16) then
    decimal.positional
  else decimal.scientific

end Decimal

/-- A closed or open interval of quotients with one denominator, around a
centre. -/
structure RoundingInterval where
  low : Nat
  centre : Nat
  high : Nat
  denominator : Nat
  closed : Bool

namespace RoundingInterval

def contains (interval : RoundingInterval) (numerator denominator : Nat) : Bool :=
  let point := numerator * interval.denominator
  let low := interval.low * denominator
  let high := interval.high * denominator
  if interval.closed then low ≤ point && point ≤ high
  else low < point && point < high

def leadingPower (interval : RoundingInterval) : Int :=
  if interval.denominator ≤ interval.centre then
    ((Nat.toDigits 10 (interval.centre / interval.denominator)).length : Int) - 1
  else
    -((Nat.toDigits 10 ((interval.denominator - 1) / interval.centre)).length : Int)

/-- The point of the grid of step `10 ^ power` that lies in the interval and is
nearest to the centre. -/
def onGrid (interval : RoundingInterval) (power : Int) : Option Decimal :=
  let up := tens power.toNat
  let down := tens (-power).toNat
  let numerator := interval.centre * down
  let denominator := interval.denominator * up
  let below := numerator / denominator
  let lower := interval.contains (below * up) down
  let upper := interval.contains ((below + 1) * up) down
  if upper && (!lower || decide (denominator ≤ 2 * (numerator % denominator))) then
    some ⟨below + 1, power⟩
  else if lower then some ⟨below, power⟩
  else none

/-- The first grid with a point in the interval, from coarse to fine. -/
def firstOnGrid (interval : RoundingInterval) : Nat → Int → Option Decimal
  | 0, _ => none
  | count + 1, power => (interval.onGrid power).or (interval.firstOnGrid count (power - 1))

end RoundingInterval

namespace FloatFormat

def interval (format : FloatFormat) (magnitude : Nat) : RoundingInterval :=
  let scale := format.scale magnitude
  let step := span scale
  let below := if magnitude = format.fractionSpan * step ∧ 0 < scale then step else 2 * step
  { low := 4 * magnitude - below
    centre := 4 * magnitude
    high := 4 * magnitude + 2 * step
    denominator := 4 * span format.unitShift
    closed := magnitude / step % 2 == 0 }

def shortest (format : FloatFormat) (magnitude : Nat) : Decimal :=
  if magnitude = 0 then ⟨0, 0⟩
  else
    let interval := format.interval magnitude
    let found := interval.firstOnGrid 17 interval.leadingPower
    (found.getD ⟨0, 0⟩).stripZeros 20

def text (format : FloatFormat) (bits : Nat) : String :=
  match format.decode bits with
  | .nan _ => "NaN"
  | .infinite negative => if negative then "-inf" else "inf"
  | .finite negative magnitude =>
      let digits := String.ofList (format.shortest magnitude).text
      if negative then "-" ++ digits else digits

end FloatFormat

end Dalvik
