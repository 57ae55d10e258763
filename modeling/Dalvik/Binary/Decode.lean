import Dalvik.Binary.Encode

/-!
# Decoding code

Code is read item by item: instructions, and the data tables between them,
which are attached to the instructions that point to them.  Reading stops at
the first byte that is no opcode; that unit is kept as the last instruction.
-/

namespace Dalvik

namespace Binary

def decodeReg (number : Nat) : Reg := Reg.ofNat number

/-- A range of registers; numbers past the last register stay on it. -/
def decodeRange (first count : Nat) : List Reg :=
  (List.range count).map fun i => decodeReg (min (first + i) 65535)

def decodeOperands (opcode : Opcode) (units : List UInt16) : Operands :=
  let unit := fun position => units.getD position 0
  let number := fun position => (unit position).toNat
  let high := highByte (unit 0)
  match opcode.format with
  | .f10x => {}
  | .f12x => { regs := [decodeReg (lowNibble high), decodeReg (highNibble high)] }
  | .f11n =>
      { regs := [decodeReg (lowNibble high)]
        literal := some (Int64.ofInt (signed 4 (highNibble high))) }
  | .f11x => { regs := [decodeReg high] }
  | .f10t => { offset := some (Int32.ofInt (signed 8 high)) }
  | .f20t => { offset := some (Int32.ofInt (signed 16 (number 1))) }
  | .f22x => { regs := [decodeReg high, decodeReg (number 1)] }
  | .f21t => { regs := [decodeReg high], offset := some (Int32.ofInt (signed 16 (number 1))) }
  | .f21s | .f21h =>
      { regs := [decodeReg high]
        literal := some (Int64.ofInt (signed 16 (number 1) * (span opcode.literalShift : Int))) }
  | .f21c => { regs := [decodeReg high], index := some (number 1) }
  | .f23x =>
      { regs := [decodeReg high, decodeReg (lowByte (unit 1)), decodeReg (highByte (unit 1))] }
  | .f22b =>
      { regs := [decodeReg high, decodeReg (lowByte (unit 1))]
        literal := some (Int64.ofInt (signed 8 (highByte (unit 1)))) }
  | .f22t =>
      { regs := [decodeReg (lowNibble high), decodeReg (highNibble high)]
        offset := some (Int32.ofInt (signed 16 (number 1))) }
  | .f22s =>
      { regs := [decodeReg (lowNibble high), decodeReg (highNibble high)]
        literal := some (Int64.ofInt (signed 16 (number 1))) }
  | .f22c =>
      { regs := [decodeReg (lowNibble high), decodeReg (highNibble high)]
        index := some (number 1) }
  | .f32x => { regs := [decodeReg (number 1), decodeReg (number 2)] }
  | .f30t => { offset := some (Int32.ofInt (signed 32 (word32 (unit 1) (unit 2)))) }
  | .f31t =>
      { regs := [decodeReg high]
        offset := some (Int32.ofInt (signed 32 (word32 (unit 1) (unit 2)))) }
  | .f31i =>
      { regs := [decodeReg high]
        literal := some (Int64.ofInt (signed 32 (word32 (unit 1) (unit 2)))) }
  | .f31c => { regs := [decodeReg high], index := some (word32 (unit 1) (unit 2)) }
  | .f35c =>
      let low := lowByte (unit 2)
      let third := highByte (unit 2)
      let nibbles := [lowNibble low, highNibble low, lowNibble third, highNibble third,
        lowNibble high]
      { regs := (nibbles.take (highNibble high)).map decodeReg, index := some (number 1) }
  | .f3rc => { regs := decodeRange (number 2) high, index := some (number 1) }
  | .f51l =>
      { regs := [decodeReg high]
        literal := some (Int64.ofInt (signed 64 (word64 (unit 1) (unit 2) (unit 3) (unit 4)))) }

def decodeInstruction (addr : Addr) (opcode : Opcode) (units : List UInt16) : Instruction :=
  let operands := decodeOperands opcode units
  { addr
    opcodeByte := opcode.value
    format := opcode.format
    regs := operands.regs
    literal := operands.literal
    offset := operands.offset
    reference := match opcode.reference, operands.index with
      | some kind, some index => some ⟨kind, index⟩
      | _, _ => none
    units }

/-- The unit at which reading stops. -/
def unknownInstruction (addr : Addr) (opcodeByte high : UInt8) : Instruction :=
  { addr, opcodeByte, format := .f10x, units := [unitOfBytes opcodeByte.toNat high.toNat] }

def endsBefore (count : Nat) (bytes : List UInt8) : Bool :=
  (bytes.take count).length < count

/-- A number of `count` bytes, the low one first, and the bytes after it. -/
def takeNumber (count : Nat) (bytes : List UInt8) : Except CodeError (Nat × List UInt8) :=
  if endsBefore count bytes then .error (.decoding bytes.length)
  else .ok ((bytes.take count).foldr (fun byte value => byte.toNat + 256 * value) 0,
    bytes.drop count)

def takeWords : Nat → List UInt8 → Except CodeError (List Int32 × List UInt8)
  | 0, bytes => .ok ([], bytes)
  | count + 1, bytes => do
      let (word, bytes) ← takeNumber 4 bytes
      let (words, bytes) ← takeWords count bytes
      return (Int32.ofNat word :: words, bytes)

/-- A row of array elements and the bytes after it; an element that ends early
leaves no bytes. -/
def takeElements (width : Nat) : Nat → List UInt8 → Except CodeError (List UInt64 × List UInt8)
  | 0, bytes => .ok ([], bytes)
  | count + 1, bytes =>
      if endsBefore width bytes then .error (.decoding 0)
      else do
        let (element, bytes) ← takeNumber width bytes
        let (elements, bytes) ← takeElements width count bytes
        return (UInt64.ofNat element :: elements, bytes)

/-- The data table after its two tag bytes, and the bytes after it.  A table of
an odd number of bytes is followed by a pad byte, which may be missing at the
end of the code. -/
def takePayload (tag : UInt8) (bytes : List UInt8) : Except CodeError (Payload × List UInt8) :=
  match tag.toNat with
  | 1 => do
      let (count, rest) ← takeNumber 2 bytes
      let (firstKey, rest) ← takeNumber 4 rest
      let (targets, rest) ← takeWords count rest
      return (.packedSwitch (Int32.ofNat firstKey) targets, rest)
  | 2 => do
      let (count, rest) ← takeNumber 2 bytes
      let (keys, rest) ← takeWords count rest
      let (targets, rest) ← takeWords count rest
      return (.sparseSwitch keys targets, rest)
  | _ => do
      let (width, rest) ← takeNumber 2 bytes
      let (count, rest) ← takeNumber 4 rest
      let (elements, rest) ← takeElements width count rest
      return (.arrayData (UInt16.ofNat width) elements, rest.drop (width * count % 2))

inductive Item where
  | instruction (read : Instruction)
  | payload (addr : Addr) (table : Payload)
  deriving DecidableEq, Repr

namespace Item

def instruction? : Item → Option Instruction
  | .instruction read => some read
  | .payload _ _ => none

def payloadAt? (target : Addr) : Item → Option Payload
  | .payload addr table => if addr = target then some table else none
  | .instruction _ => none

end Item

def opensPayload (opcodeByte tag : UInt8) : Bool :=
  opcodeByte == 0 && 1 ≤ tag && tag ≤ 3

/-- Read items from the end of code that has `total` bytes; `fuel` bounds their
number. -/
def decodeItems (total : Nat) : Nat → List UInt8 → Except CodeError (List Item)
  | fuel + 1, opcodeByte :: high :: rest => do
      let bytes := opcodeByte :: high :: rest
      let addr := (total - bytes.length) / 2
      if opensPayload opcodeByte high then
        let (payload, after) ← takePayload high rest
        let items ← decodeItems total fuel after
        return .payload addr payload :: items
      else
        match Opcode.ofValue? opcodeByte with
        | none => return [.instruction (unknownInstruction addr opcodeByte high)]
        | some opcode =>
            let size := 2 * opcode.format.size
            if endsBefore size bytes then throw (.decoding bytes.length)
            let instruction :=
              decodeInstruction addr opcode (unitsOfBytes (bytes.take size))
            let items ← decodeItems total fuel (bytes.drop size)
            return .instruction instruction :: items
  | _, _ => .ok []

/-- The instruction with the data table its branch offset points to. -/
def attachPayload (items : List Item) (instruction : Instruction) : Instruction :=
  if instruction.format = .f31t then
    { instruction with
      payload := instruction.target.bind fun target =>
        items.findSome? (Item.payloadAt? target) }
  else instruction

def decode (bytes : List UInt8) : Except CodeError (List Instruction) := do
  let items ← decodeItems bytes.length bytes.length bytes
  return (items.filterMap Item.instruction?).map (attachPayload items)

end Binary

end Dalvik
