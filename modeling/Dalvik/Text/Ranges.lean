/-!
# Sets of characters

A set of characters is a list of code point ranges, both ends included.
-/

namespace Dalvik.Text

abbrev Ranges := List (Nat × Nat)

def Ranges.contains (ranges : Ranges) (code : Nat) : Bool :=
  ranges.any fun range => range.1 ≤ code && code ≤ range.2

end Dalvik.Text
