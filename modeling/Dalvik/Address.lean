import Dalvik.Text.Hex

/-!
# Code addresses

An address counts the 16-bit code units before it in a method's code.
-/

namespace Dalvik

/-- A position in a method's code, in code units. -/
abbrev Addr := Nat

namespace Addr

/-- At least four hexadecimal digits. -/
def text (addr : Addr) : String :=
  Text.hexPadded 4 addr

/-- The address a signed distance away; none lies before the first unit. -/
def offsetBy? (addr : Addr) (offset : Int32) : Option Addr :=
  let target := (addr : Int) + offset.toInt
  if target < 0 then none else some target.toNat

def distanceTo (addr target : Addr) : Int :=
  (target : Int) - (addr : Int)

end Addr

end Dalvik
