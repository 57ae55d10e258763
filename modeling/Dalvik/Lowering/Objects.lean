import Dalvik.Lowering.Moves

/-!
# Lowering object and array access

Fields bind values to their declared types, and so do array elements where the
type of the array is declared.  Otherwise an element has the kinds the opcode
allows.
-/

namespace Dalvik.Lower

/-- Monitors and `throw` only use an object. -/
def useObject (context : LoweringContext) (current : Current)
    (use : Operand Slot → Statement Slot) : Lower (List (Statement Slot)) := do
  let value ← read context current 0 object
  return [use (.var value)]

def typeOf (context : LoweringContext) (index : Nat) : Except LiftError Descriptor :=
  liftCode (context.pool.type index)

/-- Assign an object of a type of the pool, made from what is read.  A checked cast
defines the register it checks anew. -/
def makeTyped (context : LoweringContext) (current : Current) (position : Nat)
    (contract : KindSet) (value : Nat → Operand Slot → Expression Slot) :
    Lower (List (Statement Slot)) := do
  let index ← current.reference .type
  let source ← read context current position contract
  let dest ← write context current 0 object
  let type ← typeOf context index
  declare dest.value type
  return assign dest (value index (.var source))

def instanceOf (context : LoweringContext) (current : Current) :
    Lower (List (Statement Slot)) := do
  let index ← current.reference .type
  compute context current object (.ofKind .int) (.instanceOf · index)

/-- An element of array data, by the element type or else by its width. -/
def arrayConstant (element : Option Descriptor) (width : UInt16) (bits : UInt64) : Constant :=
  match element with
  | some .float => .float bits.toUInt32
  | some .double => .double bits
  | some .long => .long bits.toInt64
  | some .boolean | some .char => .int bits.toUInt32.toInt32
  | _ =>
      if element = none ∧ width = 8 then .long bits.toInt64
      else if width = 1 then .int bits.toUInt8.toInt8.toInt32
      else if width = 2 then .int bits.toUInt16.toInt16.toInt32
      else .int bits.toUInt32.toInt32

def fillArrayData (context : LoweringContext) (current : Current) :
    Lower (List (Statement Slot)) := do
  match current.instruction.payload with
  | some (.arrayData width elements) =>
      let (array, type) ← readArray context current 0 object
      let element := type.bind Descriptor.element?
      return [.fillArray (.var array) width.toNat (elements.map (arrayConstant element width))]
  | _ => current.fail .missingArrayTable

def elementAccess (context : LoweringContext) (current : Current) :
    Lower (Slot × Slot × Option Descriptor) := do
  let (array, type) ← readArray context current 1 object
  let index ← read context current 2 (.ofKind .int)
  return (array, index, type.bind Descriptor.element?)

def aget (context : LoweringContext) (current : Current) : Lower (List (Statement Slot)) := do
  let (array, index, element) ← elementAccess context current
  let dest ← write context current 0 current.contract
  let value := Expression.element (.var array) (.var index)
  match element with
  | none => return assign dest value
  | some element => do
      let kind ← current.declaredKind element
      let dest ← anchorElement current dest kind
      declare dest.value element
      return assign dest value

def aput (context : LoweringContext) (current : Current) : Lower (List (Statement Slot)) := do
  let value ← read context current 0 current.contract
  let (array, index, element) ← elementAccess context current
  let dest := Destination.element (.var array) (.var index)
  match element with
  | none => return [.assign dest (.use (.var value))]
  | some element => do
      let kind ← current.declaredKind element
      let value ← anchorElement current value kind
      return [.assign dest (.use (.var value))]

def fieldAccess (context : LoweringContext) (current : Current) :
    Except LiftError (Nat × Descriptor × Kind) := do
  let index ← current.reference .field
  let field ← liftCode (context.pool.field index)
  let kind ← current.declaredKind field.type
  return (index, field.type, kind)

def iget (context : LoweringContext) (current : Current) : Lower (List (Statement Slot)) := do
  let (field, type, kind) ← fieldAccess context current
  let source ← read context current 1 object
  let dest ← writeDeclared context current type kind
  return assign dest (.instanceField (.var source) field)

def iput (context : LoweringContext) (current : Current) : Lower (List (Statement Slot)) := do
  let (field, _, kind) ← fieldAccess context current
  let value ← readDeclared context current current.contract kind
  let target ← read context current 1 object
  return [.assign (.instanceField (.var target) field) (.use (.var value))]

def sget (context : LoweringContext) (current : Current) : Lower (List (Statement Slot)) := do
  let (field, type, kind) ← fieldAccess context current
  let dest ← writeDeclared context current type kind
  return assign dest (.staticField field)

def sput (context : LoweringContext) (current : Current) : Lower (List (Statement Slot)) := do
  let (field, _, kind) ← fieldAccess context current
  let value ← readDeclared context current current.contract kind
  return [.assign (.staticField field) (.use (.var value))]

end Dalvik.Lower
