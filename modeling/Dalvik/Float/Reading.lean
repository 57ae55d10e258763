import Dalvik.Float.Binary

/-!
# Reading floating-point text

The accepted texts are an optional sign before `inf`, `infinity` or `nan` in
any case, or before decimal digits with an optional point and an optional
power of ten.  Decimal texts are rounded correctly.
-/

namespace Dalvik

namespace FloatFormat

def digitsValue (digits : List Char) : Nat :=
  digits.foldl (fun value c => 10 * value + (c.toNat - 48)) 0

def allDigits (digits : List Char) : Bool :=
  !digits.isEmpty && digits.all Char.isDigit

/-- The power of ten written after `e`, with an optional sign. -/
def readPower : List Char → Option Int
  | '-' :: digits => if allDigits digits then some (-(digitsValue digits : Int)) else none
  | '+' :: digits => if allDigits digits then some (digitsValue digits) else none
  | digits => if allDigits digits then some (digitsValue digits) else none

/-- The value of `digits * 10 ^ power`; powers far outside the format's range
are not computed. -/
def ofDecimal (format : FloatFormat) (negative : Bool) (digits : Nat) (power : Int) :
    FloatValue :=
  let leading := ((Nat.toDigits 10 digits).length : Int) + power
  if digits = 0 ∨ leading < -400 then .finite negative 0
  else if leading > 400 then .infinite negative
  else format.round negative (digits * tens power.toNat) (tens (-power).toNat)

/-- Unsigned decimal text: digits, an optional point and an optional power. -/
def readDecimal (format : FloatFormat) (negative : Bool) (text : List Char) :
    Option FloatValue :=
  let isMark := fun c => c == 'e' || c == 'E'
  let significand := text.takeWhile (!isMark ·)
  let whole := significand.takeWhile (· != '.')
  let fraction := (significand.dropWhile (· != '.')).drop 1
  let power :=
    match text.dropWhile (!isMark ·) with
    | [] => some 0
    | _ :: power => readPower power
  let digits := whole ++ fraction
  if allDigits digits then
    power.map fun power =>
      format.ofDecimal negative (digitsValue digits) (power - (fraction.length : Int))
  else none

def readUnsigned (format : FloatFormat) (negative : Bool) (text : List Char) :
    Option FloatValue :=
  let word := String.ofList (text.map Char.toLower)
  if word = "inf" ∨ word = "infinity" then some (.infinite negative)
  else if word = "nan" then some (.nan negative)
  else format.readDecimal negative text

def read (format : FloatFormat) : List Char → Option FloatValue
  | '-' :: text => format.readUnsigned true text
  | '+' :: text => format.readUnsigned false text
  | text => format.readUnsigned false text

end FloatFormat

end Dalvik
