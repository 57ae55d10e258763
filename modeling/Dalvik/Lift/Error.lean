import Dalvik.Instruction

/-!
# Lifting errors

The causes for which a method cannot be lifted.  An error about an instruction
names it by its address, mnemonic and code units.
-/

namespace Dalvik

structure InstructionName where
  addr : Addr
  mnemonic : String
  raw : String
  deriving DecidableEq, Repr

namespace InstructionName

def ofInstruction (instruction : Instruction) : InstructionName :=
  { addr := instruction.addr
    mnemonic := instruction.opcode.elim "<unknown>" Opcode.mnemonic
    raw := instruction.raw }

def text (name : InstructionName) : String :=
  name.mnemonic ++ " at " ++ name.addr.text ++ " [" ++ name.raw ++ "]"

end InstructionName

inductive OperandFault where
  | shape (fault : ShapeFault)
  | missingRegister (position : Nat)
  | missingLiteral
  | missingOffset
  | reference (expected : ReferenceKind)
  | missingSwitchTable
  | missingArrayTable
  | voidOperand
  | unknownOperator
  | unknownComparison
  | unknownInvoke
  | noTargetKind
  | nonNumericTarget
  | brokenPair (argument : Nat)
  | notArray
  deriving DecidableEq, Repr

def OperandFault.text : OperandFault → String
  | .shape fault => (CodeError.shape fault).message
  | .missingRegister position => "missing register operand #" ++ toString position
  | .missingLiteral => "missing literal"
  | .missingOffset => "missing branch offset"
  | .reference expected => "expected a " ++ expected.text ++ " reference"
  | .missingSwitchTable => "missing switch payload"
  | .missingArrayTable => "missing array data payload"
  | .voidOperand => "void operand type"
  | .unknownOperator => "unknown arithmetic operator"
  | .unknownComparison => "unknown comparison"
  | .unknownInvoke => "unknown invoke kind"
  | .noTargetKind => "conversion without a target kind"
  | .nonNumericTarget => "conversion to a non numeric kind"
  | .brokenPair argument =>
      "wide argument #" ++ toString argument ++ " not in consecutive registers"
  | .notArray => "not an array type"

/-- Why a method cannot be lifted.  `unsettled` stands for a method whose
reaching definitions never come to rest: a program that solves for them does not
get to report it. -/
inductive LiftError where
  | code (error : CodeError)
  | noCode
  | unknownOpcode (instruction : InstructionName) (byte : UInt8)
  | malformed (instruction : InstructionName) (fault : OperandFault)
  | outOfFrame (instruction : InstructionName) (reg : Reg) (registers : Nat)
  | badTarget (instruction : InstructionName) (offset : Int)
  | arity (instruction : InstructionName) (expected found : Nat)
  | conflict (addr : Addr) (register : Reg) (message : String)
  | unsettled
  deriving DecidableEq, Repr

namespace LiftError

def message : LiftError → String
  | .code error => "bytecode error: " ++ error.message
  | .noCode => "the method has no instructions"
  | .unknownOpcode instruction byte =>
      "unknown opcode 0x" ++ Text.hexPadded 2 byte.toNat ++ " at " ++ instruction.addr.text
        ++ " [" ++ instruction.raw ++ "]"
  | .malformed instruction fault => "malformed " ++ instruction.text ++ ": " ++ fault.text
  | .outOfFrame instruction reg registers =>
      instruction.text ++ " uses " ++ reg.text ++ " out of a " ++ toString registers
        ++ " registers frame"
  | .badTarget instruction offset =>
      instruction.text ++ " branches out of the method (offset " ++ toString offset ++ ")"
  | .arity instruction expected found =>
      instruction.text ++ " passes " ++ toString found ++ " argument registers, "
        ++ toString expected ++ " expected"
  | .conflict addr register message =>
      "conflicting kinds for " ++ register.text ++ " at " ++ addr.text ++ ": " ++ message
  | .unsettled => "the reaching definitions of the method do not settle"

def addr : LiftError → Option Addr
  | .code (.noInstruction addr) => some addr
  | .unknownOpcode instruction _ | .malformed instruction _ | .outOfFrame instruction _ _
  | .badTarget instruction _ | .arity instruction _ _ => some instruction.addr
  | .conflict addr _ _ => some addr
  | .code _ | .noCode | .unsettled => none

end LiftError

def liftCode {α : Type} (result : Except CodeError α) : Except LiftError α :=
  result.mapError .code

def malformed {α : Type} (instruction : Instruction) (fault : OperandFault) :
    Except LiftError α :=
  .error (.malformed (.ofInstruction instruction) fault)

end Dalvik
