/-!
# Powers of two and ten

A field of some bits holds as many numbers as a power of two; a power of ten
is the weight of a decimal digit.
-/

namespace Dalvik

/-- How many numbers a field of the given bits holds. -/
def span (bits : Nat) : Nat :=
  Nat.pow 2 bits

/-- The weight of the decimal digit that the given number of digits follow. -/
def tens (digits : Nat) : Nat :=
  Nat.pow 10 digits

end Dalvik
