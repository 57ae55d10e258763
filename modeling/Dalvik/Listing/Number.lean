import Dalvik.Float.Reading
import Dalvik.Text.Hex

/-!
# Numbers of a listing

An integer has an optional minus sign, decimal or `0x` hexadecimal digits and
size letters at its end.  A number with a point, a power of ten or a final `f`
or `d` is a floating-point one, as are `Infinity` and `NaN`.
-/

namespace Dalvik.Listing

/-- The value of a numeric literal; floating-point ones are bit patterns. -/
inductive Literal where
  | int (value : Int64)
  | float (bits : Nat)
  | double (bits : Nat)
  deriving DecidableEq, Repr

def isSizeLetter (c : Char) : Bool :=
  c == 'L' || c == 'l' || c == 't' || c == 'T' || c == 's' || c == 'S'

def dropSizeLetters (text : List Char) : List Char :=
  (text.reverse.dropWhile isSizeLetter).reverse

def dropMark? (lower upper : Char) (text : List Char) : Option (List Char) :=
  match text.getLast? with
  | some c => if c = lower ∨ c = upper then some text.dropLast else none
  | none => none

def readDigits (base : Nat) : Nat → List Char → Option Nat
  | value, [] => some value
  | value, c :: rest =>
      match Text.hexDigit? c with
      | some digit => if digit < base then readDigits base (base * value + digit) rest else none
      | none => none

/-- An unsigned number below a bound, with an optional plus sign. -/
def readUnsigned (base bound : Nat) (text : List Char) : Option Nat :=
  let digits := match text with
    | '+' :: rest => rest
    | _ => text
  if digits.isEmpty then none
  else (readDigits base 0 digits).filter (· < bound)

def signedWord (negative : Bool) (word : Nat) : Int64 :=
  if negative then -Int64.ofNat word else Int64.ofNat word

def readSpecial (text : List Char) : Option FloatValue :=
  if text = "Infinity".toList then some (.infinite false)
  else if text = "NaN".toList then some (.nan false)
  else none

def readFloat (format : FloatFormat) (negative : Bool) (text : List Char) : Option Nat :=
  ((readSpecial text).or (format.read text)).map fun value =>
    let bits := format.encode value
    if negative then
      if bits < format.signSpan then bits + format.signSpan else bits - format.signSpan
    else bits

def readDecimalLiteral (negative : Bool) (body : List Char) : Option Literal :=
  match dropMark? 'f' 'F' body with
  | some text => (readFloat .binary32 negative text).map .float
  | none =>
      match dropMark? 'd' 'D' body with
      | some text => (readFloat .binary64 negative text).map .double
      | none =>
          if body.any (fun c => c == '.' || c == 'e' || c == 'E') || (readSpecial body).isSome then
            (readFloat .binary64 negative body).map .double
          else
            (readUnsigned 10 (span 64) (dropSizeLetters body)).map fun word =>
              .int (signedWord negative word)

def readMagnitude (negative : Bool) : List Char → Option Literal
  | '0' :: 'x' :: digits | '0' :: 'X' :: digits =>
      (readUnsigned 16 (span 64) (dropSizeLetters digits)).map fun word =>
        .int (signedWord negative word)
  | body => readDecimalLiteral negative body

def readLiteral : List Char → Option Literal
  | '-' :: body => readMagnitude true body
  | body => readMagnitude false body

/-- A number as a 32-bit word; both the signed and the unsigned range count. -/
def narrow? (value : Int64) : Option Int32 :=
  let value := value.toInt
  if -(span 31 : Int) ≤ value ∧ value < span 32 then some (Int32.ofInt value) else none

end Dalvik.Listing
