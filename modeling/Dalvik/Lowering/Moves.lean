import Dalvik.Lowering.Basic

/-!
# Lowering moves and constants

Moves pass a kind on without fixing it.  A literal keeps its bits until the
kind of its destination is known; only zero can be a null reference.
-/

namespace Dalvik.Lower

def assign (dest : Slot) (value : Expression Slot) : List (Statement Slot) :=
  [.assign (.var dest) value]

def compute (context : LoweringContext) (current : Current) (source dest : KindSet)
    (value : Operand Slot → Expression Slot) : Lower (List (Statement Slot)) := do
  let source ← read context current 1 source
  let dest ← write context current 0 dest
  return assign dest (value (.var source))

def loadItem (context : LoweringContext) (current : Current) (kind : ReferenceKind)
    (value : Nat → Expression Slot) : Lower (List (Statement Slot)) := do
  let index ← current.reference kind
  let dest ← write context current 0 object
  return assign dest (value index)

/-- The kinds of a move: an untyped narrow move also moves references. -/
def moveContract (current : Current) : KindSet :=
  if current.contract = .narrowNumber then .narrow else current.contract

def move (context : LoweringContext) (current : Current) : Lower (List (Statement Slot)) := do
  let contract := moveContract current
  let (source, type) ← readArray context current 1 contract
  let dest ← write context current 0 contract
  sameKind current dest source
  if let some type := type then declare dest.value type
  return assign dest (.use (.var source))

/-- A result that no call took over is lost, but its register is written. -/
def moveResult (context : LoweringContext) (current : Current) :
    Lower (List (Statement Slot)) := do
  let state ← get
  if state.folded.contains current.addr then return []
  let _ ← write context current 0 current.contract
  return [.nop]

def moveException (context : LoweringContext) (current : Current) :
    Lower (List (Statement Slot)) := do
  let reg ← current.reg 0
  let dest ← writeAt context current current.addr reg object .anchor
  return [.identity dest .caughtException]

/-- The returned value has the kind of the declared return type. -/
def returnValue (context : LoweringContext) (current : Current) :
    Lower (List (Statement Slot)) := do
  let method ← liftCode (context.pool.method context.code.method)
  let kind ← current.declaredKind method.prototype.ret
  let contract :=
    if current.contract = .narrowNumber ∧ kind = .object then .narrow else current.contract
  let value ← readDeclared context current contract kind
  return [.exit (some (.var value))]

def literalBits (wide : Bool) (literal : Int64) : UInt64 × KindSet :=
  if wide then (literal.toUInt64, .wide)
  else if literal = 0 then (0, .narrow)
  else (literal.toUInt64.toUInt32.toUInt64, .narrowNumber)

def const (context : LoweringContext) (current : Current) : Lower (List (Statement Slot)) := do
  let literal ← current.literal
  let wide := current.contract == .wide
  let (bits, contract) := literalBits wide literal
  let dest ← write context current 0 contract
  return assign dest (.use (.literal bits wide dest))

end Dalvik.Lower
