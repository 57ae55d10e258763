import Dalvik.Float.Shortest
import Dalvik.Kind
import Dalvik.Pool

/-!
# Constants

A constant is a number, a null reference, or a string or type of the pool.
Floating-point constants are kept as their bit patterns.
-/

namespace Dalvik

inductive Constant where
  | int (value : Int32)
  | long (value : Int64)
  | float (bits : UInt32)
  | double (bits : UInt64)
  | null
  | string (index : Nat)
  | type (index : Nat)
  deriving DecidableEq, Repr

namespace Constant

/-- A bit pattern as a constant of a kind.  As an object, zero is null. -/
def ofBits (kind : Kind) (bits : UInt64) : Constant :=
  match kind with
  | .int => .int bits.toUInt32.toInt32
  | .float => .float bits.toUInt32
  | .long => .long bits.toInt64
  | .double => .double bits
  | .object => if bits = 0 then .null else .int bits.toUInt32.toInt32

def kind : Constant → Kind
  | .int _ => .int
  | .long _ => .long
  | .float _ => .float
  | .double _ => .double
  | .null | .string _ | .type _ => .object

def text (pool : Pool) : Constant → Except CodeError String
  | .int value => .ok (toString value.toInt)
  | .long value => .ok (toString value.toInt ++ "L")
  | .float bits => .ok (FloatFormat.binary32.text bits.toNat ++ "F")
  | .double bits => .ok (FloatFormat.binary64.text bits.toNat)
  | .null => .ok "null"
  | .string index => (pool.string index).map Text.quote
  | .type index => (pool.type index).map fun type => "class \"" ++ type.text ++ "\""

end Constant

end Dalvik
