import Dalvik.Opcode.Table

/-!
# Opcodes

Reading the opcode table: by opcode, by byte and by mnemonic.
-/

namespace Dalvik

namespace Opcode

def value (opcode : Opcode) : UInt8 := opcode.row.value

def mnemonic (opcode : Opcode) : String := opcode.row.mnemonic

def format (opcode : Opcode) : Format := opcode.row.format

def family (opcode : Opcode) : Family := opcode.row.family

def kind (opcode : Opcode) : Option OperandKind := opcode.row.kind

def targetKind (opcode : Opcode) : Option OperandKind := opcode.row.targetKind

def canThrow (opcode : Opcode) : Bool := opcode.row.canThrow

def reference (opcode : Opcode) : Option ReferenceKind := opcode.family.reference

def endsFlow (opcode : Opcode) : Bool := opcode.family.endsFlow

def hasResult (opcode : Opcode) : Bool := opcode.family.hasResult

def isRange (opcode : Opcode) : Bool := opcode.format == .f3rc

/-- How far the 16-bit literal of a `high16` constant is shifted left. -/
def literalShift : Opcode → Nat
  | .constHigh16 => 16
  | .constWideHigh16 => 48
  | _ => 0

def ofValue? (value : UInt8) : Option Opcode :=
  all.find? (·.value == value)

def ofMnemonic? (mnemonic : String) : Option Opcode :=
  all.find? (·.mnemonic == mnemonic)

end Opcode

end Dalvik
