import Dalvik.Lowering.Moves

/-!
# Lowering arithmetic

Operands and results have the kind the opcode names.  Shift distances are
ints, comparisons give ints, and `not` is an exclusive or with all ones.
-/

namespace Dalvik.Lower

def not (context : LoweringContext) (current : Current) : Lower (List (Statement Slot)) := do
  let ones : Constant := if current.contract = .ofKind .long then .long (-1) else .int (-1)
  let source ← read context current 1 current.contract
  let dest ← write context current 0 current.contract
  sameKind current dest source
  return assign dest (.binary .xor (.var source) (.constant ones))

def numericType : OperandKind → Option Descriptor
  | .int => some .int
  | .long => some .long
  | .float => some .float
  | .double => some .double
  | .boolean => some .boolean
  | .byte => some .byte
  | .char => some .char
  | .short => some .short
  | .object | .narrow | .wide => none

def convert (context : LoweringContext) (current : Current) : Lower (List (Statement Slot)) := do
  let some target := current.opcode.targetKind | current.fail .noTargetKind
  let some type := numericType target | current.fail .nonNumericTarget
  compute context current current.contract (.ofOperand target) (.convert · type)

def readBoth (context : LoweringContext) (current : Current) (first second : Nat)
    (left right : KindSet) : Lower (Operand Slot × Operand Slot) := do
  let left ← read context current first left
  let right ← read context current second right
  return (.var left, .var right)

/-- The operands of an arithmetic instruction: two registers, or a register and
a literal, which `rsub` puts first. -/
def binaryOperands (context : LoweringContext) (current : Current) (op : BinaryOp) :
    Lower (Operand Slot × Operand Slot) := do
  let contract := current.contract
  let rightContract := if op.isShift then .ofKind .int else contract
  match current.opcode.family with
  | .binop => readBoth context current 1 2 contract rightContract
  | .binop2addr => readBoth context current 0 1 contract rightContract
  | _ => do
      let source ← read context current 1 contract
      let literal ← current.literal
      let literal := Operand.constant (.int literal.toInt32)
      if current.opcode = .rsubInt ∨ current.opcode = .rsubIntLit8 then
        return (literal, .var source)
      else return (.var source, literal)

def binary (context : LoweringContext) (current : Current) : Lower (List (Statement Slot)) := do
  let some op := BinaryOp.ofMnemonic? current.opcode.mnemonic | current.fail .unknownOperator
  let (left, right) ← binaryOperands context current op
  let dest ← write context current 0 current.contract
  return assign dest (.binary op left right)

def cmp (context : LoweringContext) (current : Current) : Lower (List (Statement Slot)) := do
  let some op := BinaryOp.ofMnemonic? current.opcode.mnemonic | current.fail .unknownComparison
  let (left, right) ← readBoth context current 1 2 current.contract current.contract
  let dest ← write context current 0 (.ofKind .int)
  return assign dest (.binary op left right)

end Dalvik.Lower
