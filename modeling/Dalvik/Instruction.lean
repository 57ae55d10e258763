import Dalvik.Pool

/-!
# Instructions

An instruction as read from code: its address, opcode byte and format, its
operands with the destination first, and its code units.  Switch and array
instructions carry the data table they point to.
-/

namespace Dalvik

/-- The data tables of switches and of `fill-array-data`. -/
inductive Payload where
  | packedSwitch (firstKey : Int32) (targets : List Int32)
  | sparseSwitch (keys targets : List Int32)
  | arrayData (width : UInt16) (elements : List UInt64)
  deriving DecidableEq, Repr

namespace Payload

def size : Payload → Nat
  | .packedSwitch _ targets => 4 + 2 * targets.length
  | .sparseSwitch keys _ => 2 + 4 * keys.length
  | .arrayData width elements => 4 + (elements.length * width.toNat + 1) / 2

/-- Consecutive keys, each with its target; keys wrap around. -/
def packedCases : Int32 → List Int32 → List (Int32 × Int32)
  | _, [] => []
  | key, target :: targets => (key, target) :: packedCases (key + 1) targets

def cases : Payload → List (Int32 × Int32)
  | .packedSwitch firstKey targets => packedCases firstKey targets
  | .sparseSwitch keys targets => keys.zip targets
  | .arrayData _ _ => []

def isSwitch : Payload → Bool
  | .packedSwitch _ _ | .sparseSwitch _ _ => true
  | .arrayData _ _ => false

end Payload

structure Instruction where
  addr : Addr
  opcodeByte : UInt8
  format : Format
  regs : List Reg := []
  literal : Option Int64 := none
  offset : Option Int32 := none
  reference : Option PoolRef := none
  payload : Option Payload := none
  units : List UInt16 := []
  deriving DecidableEq, Repr

namespace Instruction

/-- The opcode, unless the byte is not in the table. -/
def opcode (instruction : Instruction) : Option Opcode :=
  Opcode.ofValue? instruction.opcodeByte

def size (instruction : Instruction) : Nat :=
  instruction.format.size

def nextAddr (instruction : Instruction) : Addr :=
  instruction.addr + instruction.size

def target (instruction : Instruction) : Option Addr :=
  instruction.offset.bind instruction.addr.offsetBy?

/-- The code units in hexadecimal, low byte first. -/
def raw (instruction : Instruction) : String :=
  String.join <| instruction.units.map fun unit =>
    Text.hexPadded 2 (unit.toNat % 256) ++ Text.hexPadded 2 (unit.toNat / 256)

def presenceFault (kind : InstructionOperand) (expected found : Bool) : Option ShapeFault :=
  if expected = found then none else some (.operand kind expected)

/-- A switch takes a switch table, `fill-array-data` an array table. -/
def payloadFault (opcode : Opcode) : Option Payload → Option ShapeFault
  | some payload =>
      if (opcode.family == Family.switch) = payload.isSwitch then none
      else some .payloadKind
  | none => none

def referenceFault (opcode : Opcode) (reference : Option PoolRef) : Option ShapeFault :=
  match opcode.reference, reference with
  | some kind, some reference =>
      if reference.kind = kind then none else some (.referenceKind kind)
  | _, _ => none

def shapeFault? (instruction : Instruction) (opcode : Opcode) : Option ShapeFault :=
  let shape := opcode.format.shape
  if instruction.format ≠ opcode.format then
    some (.format instruction.format opcode.format)
  else if !shape.registers.accepts instruction.regs.length then
    some (.registerCount instruction.regs.length shape.registers)
  else
    (presenceFault .literal shape.literal instruction.literal.isSome).or <|
    (presenceFault .offset shape.offset instruction.offset.isSome).or <|
    (presenceFault .reference shape.reference instruction.reference.isSome).or <|
    (presenceFault .payload shape.payload instruction.payload.isSome).or <|
    (payloadFault opcode instruction.payload).or <|
    referenceFault opcode instruction.reference

def checkShape (instruction : Instruction) (opcode : Opcode) : Except CodeError Unit :=
  match instruction.shapeFault? opcode with
  | some fault => .error (.shape fault)
  | none => .ok ()

def headText (instruction : Instruction) : String :=
  match instruction.opcode with
  | some opcode => opcode.mnemonic
  | none => "<unknown 0x" ++ Text.hexPadded 2 instruction.opcodeByte.toNat ++ ">"

/-- The register operands: a range, a bracketed list, or one operand each. -/
def registerOperands (instruction : Instruction) : List String :=
  match instruction.format, instruction.regs.head?, instruction.regs.getLast? with
  | .f3rc, some first, some last => ["\x7b" ++ first.text ++ " .. " ++ last.text ++ "\x7d"]
  | .f35c, _, _ => ["\x7b" ++ ", ".intercalate (instruction.regs.map Reg.text) ++ "\x7d"]
  | _, _, _ => instruction.regs.map Reg.text

def text (pool : Pool) (instruction : Instruction) : Except CodeError String := do
  let literal := instruction.literal.toList.map fun literal =>
    "#" ++ Text.hexPrefixed (Text.twosComplement 64 literal.toInt)
  let target := instruction.target.toList.map fun target => "@" ++ target.text
  let reference ← instruction.reference.toList.mapM pool.textOf
  let operands := instruction.registerOperands ++ literal ++ target ++ reference
  return if operands.isEmpty then instruction.headText
    else instruction.headText ++ " " ++ ", ".intercalate operands

end Instruction

end Dalvik
