import Dalvik.Power

/-!
# Hexadecimal text

Numbers are written with lower-case hexadecimal digits, without leading zeros
or padded to a least width.  Signed words are written as their two's
complement.
-/

namespace Dalvik.Text

def hex (number : Nat) : String :=
  String.ofList (Nat.toDigits 16 number)

/-- Hexadecimal digits of a number, padded with zeros to at least `width`. -/
def hexPadded (width number : Nat) : String :=
  let digits := Nat.toDigits 16 number
  String.ofList (List.replicate (width - digits.length) '0' ++ digits)

def hexPrefixed (number : Nat) : String :=
  "0x" ++ hex number

/-- A signed number as the two's complement word of the given size. -/
def twosComplement (bits : Nat) (value : Int) : Nat :=
  (value % (span bits : Int)).toNat

def hexDigit? (c : Char) : Option Nat :=
  if '0' ≤ c ∧ c ≤ '9' then some (c.toNat - 48)
  else if 'a' ≤ c ∧ c ≤ 'f' then some (c.toNat - 87)
  else if 'A' ≤ c ∧ c ≤ 'F' then some (c.toNat - 55)
  else none

end Dalvik.Text
