import Dalvik.Format

/-!
# Opcode families and operand kinds

Opcodes of one family differ only in the kind of their operands or in their
encoding.
-/

namespace Dalvik

inductive Family where
  | nop | move | moveResult | moveException | returnVoid | returnValue
  | const | constString | constClass | monitorEnter | monitorExit | checkCast | instanceOf
  | arrayLength | newInstance | newArray | filledNewArray | fillArrayData | throw | goto
  | switch | cmp | branch | branchZero | aget | aput | iget | iput | sget | sput | invoke
  | neg | not | convert | binop | binop2addr | binopLit
  deriving DecidableEq, Repr

/-- The operand kind an opcode declares.  `narrow` and `wide` belong to the
untyped variants; the kinds below an int only to accessors and conversions. -/
inductive OperandKind where
  | int | long | float | double | object | narrow | wide | boolean | byte | char | short
  deriving DecidableEq, Repr

def OperandKind.isWide : OperandKind → Bool
  | .long | .double | .wide => true
  | _ => false

inductive ReferenceKind where
  | string | type | field | method
  deriving DecidableEq, Repr

namespace ReferenceKind

def text : ReferenceKind → String
  | .string => "string"
  | .type => "type"
  | .field => "field"
  | .method => "method"

def ofText? : String → Option ReferenceKind
  | "string" => some .string
  | "type" => some .type
  | "field" => some .field
  | "method" => some .method
  | _ => none

end ReferenceKind

def Family.reference : Family → Option ReferenceKind
  | .constString => some .string
  | .constClass | .checkCast | .instanceOf | .newInstance | .newArray | .filledNewArray =>
      some .type
  | .iget | .iput | .sget | .sput => some .field
  | .invoke => some .method
  | _ => none

/-- Whether control never falls through to the next instruction. -/
def Family.endsFlow : Family → Bool
  | .returnVoid | .returnValue | .throw | .goto => true
  | _ => false

/-- Whether a following `move-result` takes the instruction's result. -/
def Family.hasResult : Family → Bool
  | .invoke | .filledNewArray => true
  | _ => false

end Dalvik
