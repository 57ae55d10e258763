import Dalvik.Instruction

/-!
# Method code

A method's code is its instructions by address, its try table and its frame
size.  The arguments, the receiver first, are in the last registers of the
frame.
-/

namespace Dalvik

/-- Method access flags as a bit mask. -/
structure AccessFlags where
  bits : UInt32
  deriving DecidableEq, Repr

namespace AccessFlags

def empty : AccessFlags := ⟨0⟩

def known : UInt32 := 0x31dff

/-- The flags of a mask; other bits are dropped. -/
def ofBits (bits : UInt32) : AccessFlags :=
  ⟨bits &&& known⟩

def union (first second : AccessFlags) : AccessFlags :=
  ⟨first.bits ||| second.bits⟩

def isStatic (flags : AccessFlags) : Bool :=
  flags.bits &&& 0x8 != 0

def ofKeyword? : String → Option AccessFlags
  | "public" => some ⟨0x1⟩
  | "private" => some ⟨0x2⟩
  | "protected" => some ⟨0x4⟩
  | "static" => some ⟨0x8⟩
  | "final" => some ⟨0x10⟩
  | "synchronized" => some ⟨0x20⟩
  | "bridge" => some ⟨0x40⟩
  | "varargs" => some ⟨0x80⟩
  | "native" => some ⟨0x100⟩
  | "abstract" => some ⟨0x400⟩
  | "strictfp" => some ⟨0x800⟩
  | "synthetic" => some ⟨0x1000⟩
  | "constructor" => some ⟨0x10000⟩
  | "declared-synchronized" => some ⟨0x20000⟩
  | _ => none

end AccessFlags

/-- A handler of a try item; without an exception type it catches everything. -/
structure Handler where
  exception : Option Nat
  addr : Addr
  deriving DecidableEq, Repr

/-- Handlers for the instructions from `start` up to but not including `stop`. -/
structure TryItem where
  start : Addr
  stop : Addr
  handlers : List Handler
  deriving DecidableEq, Repr

def TryItem.covers (item : TryItem) (addr : Addr) : Bool :=
  item.start ≤ addr && addr < item.stop

structure Code where
  method : Nat
  flags : AccessFlags
  registers : Nat
  instructions : List Instruction
  tries : List TryItem

namespace Code

/-- The code with its instructions put in address order; instructions of one
address keep their order. -/
def ofInstructions (method : Nat) (flags : AccessFlags) (registers : Nat)
    (instructions : List Instruction) (tries : List TryItem) : Code :=
  ⟨method, flags, registers, instructions.mergeSort fun a b => a.addr ≤ b.addr, tries⟩

def isStatic (code : Code) : Bool :=
  code.flags.isStatic

def positionOf (code : Code) (addr : Addr) : Except CodeError Nat :=
  match code.instructions.findIdx? (·.addr == addr) with
  | some position => .ok position
  | none => .error (.noInstruction addr)

def instructionAt? (code : Code) (addr : Addr) : Option Instruction :=
  code.instructions.find? (·.addr == addr)

def instructionAt (code : Code) (addr : Addr) : Except CodeError Instruction :=
  match code.instructionAt? addr with
  | some instruction => .ok instruction
  | none => .error (.noInstruction addr)

def endAddr (code : Code) : Addr :=
  code.instructions.getLast?.elim 0 Instruction.nextAddr

/-- Registers taken by the arguments, with the receiver. -/
def argumentSlots (code : Code) (pool : Pool) : Except CodeError Nat := do
  let method ← pool.method code.method
  return method.prototype.slots + (if code.isStatic then 0 else 1)

def firstArgument (code : Code) (pool : Pool) : Except CodeError Reg := do
  let slots ← code.argumentSlots pool
  if slots > code.registers then throw (.smallFrame slots code.registers)
  return Reg.ofNat (code.registers - slots)

def name (code : Code) (pool : Pool) : String :=
  match pool.method code.method with
  | .ok method => method.text
  | .error _ => "<method #" ++ toString code.method ++ ">"

end Code

end Dalvik
