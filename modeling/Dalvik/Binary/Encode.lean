import Dalvik.Binary.Units
import Dalvik.Instruction

/-!
# Encoding instructions

The code units of an instruction from its operands.  An operand that is
missing or does not fit its field is an error.
-/

namespace Dalvik

/-- The operands of an instruction, as its code units hold them. -/
structure Operands where
  regs : List Reg := []
  literal : Option Int64 := none
  offset : Option Int32 := none
  index : Option Nat := none
  deriving DecidableEq, Repr

namespace Binary

def encodeReg (regs : List Reg) (position bits : Nat) : Except EncodingFault Nat :=
  match regs[position]? with
  | none => .error (.missingRegister position)
  | some reg => if reg.fits bits then .ok reg.number else .error (.largeRegister reg bits)

def encodeSigned (field : NumberField) (bits : Nat) :
    Option Int → Except EncodingFault Nat
  | none => .error (.missingNumber field)
  | some value =>
      if fitsSigned bits value then .ok (unsigned bits value)
      else .error (.largeNumber field value bits)

def encodeIndex (bits : Nat) : Option Nat → Except EncodingFault Nat
  | none => .error .missingReference
  | some index => if index < span bits then .ok index else .error (.largeIndex index bits)

def encodeNibbles (regs : List Reg) : Nat → Nat → Except EncodingFault (List Nat)
  | 0, _ => .ok []
  | count + 1, position => do
      let nibble ← if position < regs.length then encodeReg regs position 4 else .ok 0
      let rest ← encodeNibbles regs count (position + 1)
      return nibble :: rest

def consecutive : Nat → List Reg → Bool
  | _, [] => true
  | number, reg :: regs => reg.number == number && consecutive (number + 1) regs

def encodeFormat (opcode : Opcode) (operands : Operands) :
    Except EncodingFault (List UInt16) := do
  let op := opcode.value.toNat
  let reg := encodeReg operands.regs
  let literal := operands.literal.map Int64.toInt
  let offset := operands.offset.map Int32.toInt
  match opcode.format with
  | .f10x => return [unitOfBytes op 0]
  | .f12x =>
      let a ← reg 0 4
      let b ← reg 1 4
      return [unitOfNibbles op a b]
  | .f11n =>
      let value ← encodeSigned .literal 4 literal
      let a ← reg 0 4
      return [unitOfNibbles op a value]
  | .f11x =>
      let a ← reg 0 8
      return [unitOfBytes op a]
  | .f10t =>
      let value ← encodeSigned .offset 8 offset
      return [unitOfBytes op value]
  | .f20t =>
      let value ← encodeSigned .offset 16 offset
      return [unitOfBytes op 0, UInt16.ofNat value]
  | .f22x =>
      let a ← reg 0 8
      let b ← reg 1 16
      return [unitOfBytes op a, UInt16.ofNat b]
  | .f21t =>
      let a ← reg 0 8
      let value ← encodeSigned .offset 16 offset
      return [unitOfBytes op a, UInt16.ofNat value]
  | .f21s =>
      let a ← reg 0 8
      let value ← encodeSigned .literal 16 literal
      return [unitOfBytes op a, UInt16.ofNat value]
  | .f21h =>
      match literal with
      | none => throw (.missingNumber .literal)
      | some value =>
          let step := (span opcode.literalShift : Int)
          if value % step ≠ 0 then throw (.lowBits value)
          let a ← reg 0 8
          let value ← encodeSigned .literal 16 (some (value / step))
          return [unitOfBytes op a, UInt16.ofNat value]
  | .f21c =>
      let a ← reg 0 8
      let index ← encodeIndex 16 operands.index
      return [unitOfBytes op a, UInt16.ofNat index]
  | .f23x =>
      let a ← reg 0 8
      let b ← reg 1 8
      let c ← reg 2 8
      return [unitOfBytes op a, unitOfBytes b c]
  | .f22b =>
      let a ← reg 0 8
      let b ← reg 1 8
      let value ← encodeSigned .literal 8 literal
      return [unitOfBytes op a, unitOfBytes b value]
  | .f22t =>
      let a ← reg 0 4
      let b ← reg 1 4
      let value ← encodeSigned .offset 16 offset
      return [unitOfNibbles op a b, UInt16.ofNat value]
  | .f22s =>
      let a ← reg 0 4
      let b ← reg 1 4
      let value ← encodeSigned .literal 16 literal
      return [unitOfNibbles op a b, UInt16.ofNat value]
  | .f22c =>
      let a ← reg 0 4
      let b ← reg 1 4
      let index ← encodeIndex 16 operands.index
      return [unitOfNibbles op a b, UInt16.ofNat index]
  | .f32x =>
      let a ← reg 0 16
      let b ← reg 1 16
      return [unitOfBytes op 0, UInt16.ofNat a, UInt16.ofNat b]
  | .f30t =>
      let value ← encodeSigned .offset 32 offset
      return unitOfBytes op 0 :: units32 value
  | .f31t =>
      let value ← encodeSigned .offset 32 offset
      let a ← reg 0 8
      return unitOfBytes op a :: units32 value
  | .f31i =>
      let value ← encodeSigned .literal 32 literal
      let a ← reg 0 8
      return unitOfBytes op a :: units32 value
  | .f31c =>
      let index ← encodeIndex 32 operands.index
      let a ← reg 0 8
      return unitOfBytes op a :: units32 index
  | .f35c =>
      let nibbles ← encodeNibbles operands.regs 5 0
      let nibble := fun position => nibbles.getD position 0
      let index ← encodeIndex 16 operands.index
      return [unitOfNibbles op (nibble 4) operands.regs.length, UInt16.ofNat index,
        unitOfNibbles (nibble 0 + 16 * nibble 1) (nibble 2) (nibble 3)]
  | .f3rc =>
      if operands.regs.length > 255 then throw .longRange
      let first := operands.regs.head?.elim 0 Reg.number
      if !consecutive first operands.regs then throw .brokenRange
      let index ← encodeIndex 16 operands.index
      return [unitOfBytes op operands.regs.length, UInt16.ofNat index, UInt16.ofNat first]
  | .f51l =>
      match literal with
      | none => throw (.missingNumber .literal)
      | some value =>
          let a ← reg 0 8
          return unitOfBytes op a :: units64 (unsigned 64 value)

/-- The code units of an instruction, or the first fault of its operands. -/
def encodeUnits (opcode : Opcode) (operands : Operands) : Except EncodingFault (List UInt16) :=
  let registers := opcode.format.shape.registers
  if registers.accepts operands.regs.length then encodeFormat opcode operands
  else .error (.registerCount operands.regs.length registers)

def encode (opcode : Opcode) (operands : Operands) : Except CodeError (List UInt16) :=
  (encodeUnits opcode operands).mapError (.encoding opcode)

end Binary

end Dalvik
