import Dalvik.Body

/-!
# What statements read and write

The values a statement reads, in order, and the value it defines.  A literal is
not a read of its peer.
-/

namespace Dalvik

variable {α : Type}

namespace Operand

def uses : Operand α → List α
  | .var value | .cast value _ _ _ => [value]
  | .constant _ | .literal _ _ _ => []

end Operand

namespace Expression

def uses : Expression α → List α
  | .use operand | .negate operand | .convert operand _ | .checkCast operand _
  | .instanceOf operand _ | .length operand | .newArray _ operand | .instanceField operand _ =>
      operand.uses
  | .binary _ left right | .element left right => left.uses ++ right.uses
  | .newInstance _ | .staticField _ => []
  | .newFilledArray _ elements => elements.flatMap Operand.uses
  | .invoke _ _ receiver arguments => receiver.elim [] Operand.uses ++ arguments.flatMap Operand.uses

end Expression

namespace Destination

def uses : Destination α → List α
  | .var _ | .staticField _ => []
  | .element array index => array.uses ++ index.uses
  | .instanceField object _ => object.uses

def written : Destination α → Option α
  | .var value => some value
  | _ => none

end Destination

namespace Statement

/-- The values a statement reads; an assignment reads what it assigns first. -/
def uses : Statement α → List α
  | .nop | .identity _ _ | .goto _ => []
  | .assign dest value => value.uses ++ dest.uses
  | .invoke call => call.uses
  | .branch _ left right _ => left.uses ++ right.uses
  | .switch key _ _ => key.uses
  | .exit value => value.elim [] Operand.uses
  | .throw operand | .enterMonitor operand | .exitMonitor operand | .fillArray operand _ _ =>
      operand.uses

def written : Statement α → Option α
  | .identity dest _ => some dest
  | .assign dest _ => dest.written
  | _ => none

def lastWritten (statements : List (Statement α)) : Option α :=
  (statements.filterMap written).getLast?

end Statement

end Dalvik
