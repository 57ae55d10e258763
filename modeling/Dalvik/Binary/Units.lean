import Dalvik.Power

/-!
# Fields of code units

Code units are cut into nibbles, bytes and words; signed fields are two's
complement.  Units are stored low byte first.
-/

namespace Dalvik.Binary

/-- The number a two's complement field of the given bits stands for. -/
def signed (bits number : Nat) : Int :=
  if 2 * number < span bits then (number : Int) else (number : Int) - (span bits : Int)

def unsigned (bits : Nat) (value : Int) : Nat :=
  (value % (span bits : Int)).toNat

def fitsSigned (bits : Nat) (value : Int) : Bool :=
  -(span (bits - 1) : Int) ≤ value && value < (span (bits - 1) : Int)

def lowNibble (byte : Nat) : Nat := byte % 16

def highNibble (byte : Nat) : Nat := byte / 16 % 16

def lowByte (unit : UInt16) : Nat := unit.toNat % 256

def highByte (unit : UInt16) : Nat := unit.toNat / 256

def unitOfBytes (low high : Nat) : UInt16 :=
  UInt16.ofNat (low + 256 * high)

/-- A unit of two nibbles above a byte. -/
def unitOfNibbles (low third fourth : Nat) : UInt16 :=
  UInt16.ofNat (low + 256 * third + 4096 * fourth)

/-- The number of two units, the low one first. -/
def word32 (low high : UInt16) : Nat :=
  low.toNat + 65536 * high.toNat

def units32 (number : Nat) : List UInt16 :=
  [UInt16.ofNat number, UInt16.ofNat (number / 65536)]

def word64 (first second third fourth : UInt16) : Nat :=
  word32 first second + 4294967296 * word32 third fourth

def units64 (number : Nat) : List UInt16 :=
  units32 number ++ units32 (number / 4294967296)

def bytesOfUnits (units : List UInt16) : List UInt8 :=
  units.flatMap fun unit => [UInt8.ofNat (lowByte unit), UInt8.ofNat (highByte unit)]

/-- The code units of bytes; an odd last byte is left out. -/
def unitsOfBytes : List UInt8 → List UInt16
  | low :: high :: rest => unitOfBytes low.toNat high.toNat :: unitsOfBytes rest
  | _ => []

end Dalvik.Binary
