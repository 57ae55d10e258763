import Dalvik.Argument
import Dalvik.Flow.Build
import Dalvik.Typing.Constraint
import Dalvik.Typing.Value

/-!
# The state of lowering

Lowering turns instructions into statements over values.  Reading and writing
registers opens values and records what the instruction requires of them.
-/

namespace Dalvik

structure LoweringContext where
  pool : Pool
  code : Code
  graph : FlowGraph
  states : Dataflow

/-- What lowering has gathered: the values, the constraints in order, the pairs
of values that reach one read, the `move-result` instructions that their calls
took over, and the declared types of array values. -/
structure LoweringState where
  values : ValueFile := .empty
  recorded : List Recorded := []
  merges : List (Nat × Nat) := []
  folded : List Addr := []
  arrays : List (Nat × Descriptor) := []
  deriving DecidableEq, Repr

abbrev Lower (α : Type) := StateT LoweringState (Except LiftError) α

/-- The instruction being lowered, with its opcode and the instruction after it
in the code. -/
structure Current where
  instruction : Instruction
  opcode : Opcode
  next : Option Instruction

namespace Current

def addr (current : Current) : Addr :=
  current.instruction.addr

def fail {α : Type} (current : Current) (fault : OperandFault) : Except LiftError α :=
  malformed current.instruction fault

def reg (current : Current) (position : Nat) : Except LiftError Reg :=
  match current.instruction.regs[position]? with
  | some reg => .ok reg
  | none => current.fail (.missingRegister position)

def literal (current : Current) : Except LiftError Int64 :=
  match current.instruction.literal with
  | some literal => .ok literal
  | none => current.fail .missingLiteral

def offsetBy (current : Current) (offset : Int32) : Except LiftError Addr :=
  match current.addr.offsetBy? offset with
  | some target => .ok target
  | none => FlowGraph.badTarget current.instruction offset.toInt

def target (current : Current) : Except LiftError Addr :=
  match current.instruction.offset with
  | some offset => current.offsetBy offset
  | none => current.fail .missingOffset

def reference (current : Current) (kind : ReferenceKind) : Except LiftError Nat :=
  match current.instruction.reference with
  | some reference =>
      if reference.kind = kind then .ok reference.index else current.fail (.reference kind)
  | none => current.fail (.reference kind)

def contract (current : Current) : KindSet :=
  current.opcode.kind.elim .narrow .ofOperand

def declaredKind (current : Current) (type : Descriptor) : Except LiftError Kind :=
  match Kind.ofType type with
  | some kind => .ok kind
  | none => current.fail .voidOperand

def declaredKinds (current : Current) (types : List Descriptor) :
    Except LiftError (List Kind) :=
  types.mapM current.declaredKind

end Current

namespace Lower

def object : KindSet := .ofKind .object

def record (addr : Option Addr) (constraint : Constraint) (origin : Origin) : Lower Unit :=
  modify fun state => { state with recorded := state.recorded ++ [⟨addr, constraint, origin⟩] }

def restrict (addr : Addr) (value : Nat) (kinds : KindSet) (origin : Origin) : Lower Unit :=
  match Constraint.restricting value kinds with
  | some constraint => record (some addr) constraint origin
  | none => pure ()

def checkBounds (context : LoweringContext) (current : Current) (reg : Reg) (width : Width) :
    Except LiftError Unit :=
  if context.code.registers < reg.number + width.slots then
    .error (.outOfFrame (.ofInstruction current.instruction) reg context.code.registers)
  else .ok ()

def merge (addr : Addr) (value : Nat) (others : List Nat) : Lower Unit :=
  modify fun state =>
    { state with
      recorded := state.recorded ++ others.map fun other =>
        ⟨some addr, .sameAs other value, .opcode⟩
      merges := state.merges ++ others.map fun other => (other, value) }

/-- The value of a register that the instruction reads, and the other values
that reach the read. -/
def resolve (context : LoweringContext) (current : Current) (reg : Reg) (width : Width) :
    Lower ValueFile.Resolved := do
  let state ← get
  let (values, resolved) := state.values.resolve context.states reg current.addr width
  set { state with values }
  return resolved

/-- Read a register as one of the kinds; all values that reach the read come
with the slot, its own value first. -/
def readReaching (context : LoweringContext) (current : Current) (reg : Reg) (contract : KindSet)
    (origin : Origin) : Lower (Slot × List Nat) := do
  checkBounds context current reg contract.width
  let resolved ← resolve context current reg contract.width
  merge current.addr resolved.value resolved.aliases
  restrict current.addr resolved.value contract origin
  return (⟨resolved.value, contract⟩, resolved.value :: resolved.aliases)

def readAs (context : LoweringContext) (current : Current) (reg : Reg) (contract : KindSet)
    (origin : Origin) : Lower Slot := do
  let (slot, _) ← readReaching context current reg contract origin
  return slot

def read (context : LoweringContext) (current : Current) (position : Nat) (contract : KindSet) :
    Lower Slot := do
  let reg ← current.reg position
  readAs context current reg contract .opcode

def commonType (arrays : List (Nat × Descriptor)) : List Nat → Option Descriptor
  | [] => none
  | value :: others =>
      (arrays.lookup value).filter fun type =>
        others.all fun other => arrays.lookup other == some type

/-- Read a register operand, with the array type that is declared for it. -/
def readArray (context : LoweringContext) (current : Current) (position : Nat)
    (contract : KindSet) : Lower (Slot × Option Descriptor) := do
  let reg ← current.reg position
  let (slot, reaching) ← readReaching context current reg contract .opcode
  let state ← get
  return (slot, commonType state.arrays reaching)

/-- Remember the declared type of a value if it is an array type. -/
def declare (value : Nat) (type : Descriptor) : Lower Unit :=
  match type with
  | .array _ _ => modify fun state => { state with arrays := (value, type) :: state.arrays }
  | _ => pure ()

def define (site : Site) (reg : Reg) (width : Width) : Lower Nat := do
  let state ← get
  let (values, value) := state.values.define site reg width
  set { state with values }
  return value

def writeAt (context : LoweringContext) (current : Current) (addr : Addr) (reg : Reg)
    (contract : KindSet) (origin : Origin) : Lower Slot := do
  checkBounds context current reg contract.width
  let value ← define (.at addr) reg contract.width
  restrict addr value contract origin
  return ⟨value, contract⟩

def write (context : LoweringContext) (current : Current) (position : Nat) (contract : KindSet) :
    Lower Slot := do
  let reg ← current.reg position
  writeAt context current current.addr reg contract .opcode

def sameKind (current : Current) (first second : Slot) : Lower Unit :=
  if first.value = second.value then pure ()
  else record (some current.addr) (.sameAs first.value second.value) .opcode

/-- Bind a slot to the kind of a declared type, which becomes its contract. -/
def anchor (current : Current) (slot : Slot) (kind : Kind) : Lower Slot := do
  record (some current.addr) (.exactly slot.value kind) .anchor
  return { slot with contract := .ofKind kind }

/-- Read the first register as a value of a declared type. -/
def readDeclared (context : LoweringContext) (current : Current) (contract : KindSet)
    (kind : Kind) : Lower Slot := do
  let value ← read context current 0 contract
  anchor current value kind

/-- Write the first register with a value of a declared type. -/
def writeDeclared (context : LoweringContext) (current : Current) (type : Descriptor)
    (kind : Kind) : Lower Slot := do
  let dest ← write context current 0 current.contract
  let dest ← anchor current dest kind
  declare dest.value type
  return dest

/-- Bind an array element to the kind of the declared element type.  A kind of
another width than the access leaves the contract as it is. -/
def anchorElement (current : Current) (slot : Slot) (kind : Kind) : Lower Slot := do
  let anchored ← anchor current slot kind
  return if kind.width = slot.contract.width then anchored else slot

end Lower

end Dalvik
