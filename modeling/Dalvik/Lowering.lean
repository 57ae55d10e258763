import Dalvik.Lowering.Arithmetic
import Dalvik.Lowering.Branches
import Dalvik.Lowering.Calls

/-!
# Lowering

Each opcode family has one rule.  The arguments of the method are lowered to
identity statements before its instructions.
-/

namespace Dalvik

namespace Lower

def rule (context : LoweringContext) (current : Current) : Lower (List (Statement Slot)) :=
  match current.opcode.family with
  | .nop => return []
  | .move => move context current
  | .moveResult => moveResult context current
  | .moveException => moveException context current
  | .returnVoid => return [.exit none]
  | .returnValue => returnValue context current
  | .const => const context current
  | .constString => loadItem context current .string fun index => .use (.constant (.string index))
  | .constClass => loadItem context current .type fun index => .use (.constant (.type index))
  | .monitorEnter => useObject context current .enterMonitor
  | .monitorExit => useObject context current .exitMonitor
  | .checkCast => makeTyped context current 0 object fun index value => .checkCast value index
  | .instanceOf => instanceOf context current
  | .arrayLength => compute context current object (.ofKind .int) .length
  | .newInstance => loadItem context current .type .newInstance
  | .newArray => makeTyped context current 1 (.ofKind .int) .newArray
  | .filledNewArray => filledNewArray context current
  | .fillArrayData => fillArrayData context current
  | .throw => useObject context current .throw
  | .goto => goto current
  | .switch => switch context current
  | .cmp => cmp context current
  | .branch => branch context current
  | .branchZero => branchZero context current
  | .aget => aget context current
  | .aput => aput context current
  | .iget => iget context current
  | .iput => iput context current
  | .sget => sget context current
  | .sput => sput context current
  | .invoke => invoke context current
  | .neg => compute context current current.contract current.contract .negate
  | .not => not context current
  | .convert => convert context current
  | .binop | .binop2addr | .binopLit => binary context current

/-- The statements of an instruction; `next` is the one after it in the code. -/
def instruction (context : LoweringContext) (instruction : Instruction)
    (next : Option Instruction) : Lower (List (Statement Slot)) :=
  match instruction.opcode with
  | some opcode => rule context ⟨instruction, opcode, next⟩
  | none => throw (.unknownOpcode (.ofInstruction instruction) instruction.opcodeByte)

def argument (argument : Argument) : Lower (Statement Slot) := do
  let value ← define .param argument.reg argument.width
  record none (.exactly value argument.kind) .anchor
  match argument.source with
  | .parameter _ type => declare value type
  | _ => pure ()
  return .identity ⟨value, .ofKind argument.kind⟩ argument.source

def allArguments (context : LoweringContext) : Lower (List (Statement Slot)) := do
  let arguments ← liftCode (Argument.ofCode context.code context.pool)
  arguments.mapM argument

end Lower

end Dalvik
