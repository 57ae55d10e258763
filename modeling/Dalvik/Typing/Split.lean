import Dalvik.Body.Statement
import Dalvik.Typing.Solution

/-!
# Splitting values into locals

Values that reach a common read form a web, and each web becomes one local of
its kind.  An operand of a kind its instruction does not allow is cast; a
definition that cannot have the local's kind goes through a temporary.
-/

namespace Dalvik

structure Splitting where
  webs : List (Nat × Local) := []
  declared : List Local := []
  deriving DecidableEq, Repr

structure SplitContext where
  solution : Solution
  webs : Partition

abbrev Split (α : Type) := StateM Splitting α

namespace Split

variable (context : SplitContext)

def fresh (kind : Kind) : Split Local := do
  let state ← get
  let var : Local := ⟨kind, state.declared.countP (·.kind == kind)⟩
  set { state with declared := state.declared ++ [var] }
  return var

def localOf (value : Nat) : Split Local := do
  let web := context.webs.label value
  let state ← get
  match state.webs.lookup web with
  | some var => return var
  | none => do
      let var ← fresh (context.solution.kindOf value)
      modify fun state => { state with webs := (web, var) :: state.webs }
      return var

def castMode (source target : Kind) (value : Nat) : CastMode :=
  if source.bitCompatible target then .reinterpret
  else .coerce (context.solution.diagnosticOf value)

/-- The local of a slot, cast if the slot does not allow its kind. -/
def useSlot (slot : Slot) : Split (Operand Local) := do
  let var ← localOf context slot.value
  if slot.contract.contains var.kind then return .var var
  match slot.contract.preferred with
  | some target =>
      return .cast var var.kind target (castMode context var.kind target slot.value)
  | none => return .var var

/-- The local that a definition writes, and the statement after it that casts a
temporary to the web's local. -/
def define (slot : Slot) : Split (Local × Option (Statement Local)) := do
  let var ← localOf context slot.value
  if slot.contract.contains var.kind then return (var, none)
  match slot.contract.preferred with
  | some produced => do
      let temporary ← fresh produced
      let mode := castMode context produced var.kind slot.value
      let cast := Statement.assign (.var var) (.use (.cast temporary produced var.kind mode))
      return (temporary, some cast)
  | none => return (var, none)

def operand : Operand Slot → Split (Operand Local)
  | .var slot => useSlot context slot
  | .constant constant => return .constant constant
  | .literal bits _ peer =>
      return .constant (.ofBits (context.solution.kindOf peer.value) bits)
  | .cast slot source target mode => do
      let var ← localOf context slot.value
      return .cast var source target mode

def operands (list : List (Operand Slot)) : Split (List (Operand Local)) :=
  list.mapM (operand context)

def optionalOperand : Option (Operand Slot) → Split (Option (Operand Local))
  | some value => do
      let value ← operand context value
      return some value
  | none => return none

def expression : Expression Slot → Split (Expression Local)
  | .use value => return .use (← operand context value)
  | .binary op left right => return .binary op (← operand context left) (← operand context right)
  | .negate value => return .negate (← operand context value)
  | .convert value target => return .convert (← operand context value) target
  | .checkCast value type => return .checkCast (← operand context value) type
  | .instanceOf value type => return .instanceOf (← operand context value) type
  | .length array => return .length (← operand context array)
  | .newInstance type => return .newInstance type
  | .newArray type size => return .newArray type (← operand context size)
  | .newFilledArray type elements => return .newFilledArray type (← operands context elements)
  | .element array index => return .element (← operand context array) (← operand context index)
  | .instanceField object field => return .instanceField (← operand context object) field
  | .staticField field => return .staticField field
  | .invoke kind method receiver arguments =>
      return .invoke kind method (← optionalOperand context receiver)
        (← operands context arguments)

def destination : Destination Slot → Split (Destination Local × Option (Statement Local))
  | .var slot => do
      let (var, cast) ← define context slot
      return (.var var, cast)
  | .element array index =>
      return (.element (← operand context array) (← operand context index), none)
  | .instanceField object field => return (.instanceField (← operand context object) field, none)
  | .staticField field => return (.staticField field, none)

def statement : Statement Slot → Split (Statement Local × Option (Statement Local))
  | .nop => return (.nop, none)
  | .identity dest source => do
      let (var, cast) ← define context dest
      return (.identity var source, cast)
  | .assign dest value => do
      let value ← expression context value
      let (dest, cast) ← destination context dest
      return (.assign dest value, cast)
  | .invoke call => return (.invoke (← expression context call), none)
  | .branch op left right target =>
      return (.branch op (← operand context left) (← operand context right) target, none)
  | .goto target => return (.goto target, none)
  | .switch key cases default => return (.switch (← operand context key) cases default, none)
  | .exit value => return (.exit (← optionalOperand context value), none)
  | .throw value => return (.throw (← operand context value), none)
  | .enterMonitor object => return (.enterMonitor (← operand context object), none)
  | .exitMonitor object => return (.exitMonitor (← operand context object), none)
  | .fillArray array width elements =>
      return (.fillArray (← operand context array) width elements, none)

/-- Statements over locals; a cast has the address of the statement before it. -/
def statements :
    List (Option Addr × Statement Slot) → Split (List (Option Addr × Statement Local))
  | [] => return []
  | (addr, slots) :: rest => do
      let (first, cast) ← statement context slots
      let others ← statements rest
      return (addr, first) :: cast.toList.map (addr, ·) ++ others

end Split

/-- The locals, in order of first appearance, and the statements over them. -/
def split (list : List (Option Addr × Statement Slot)) (values : List ProvisionalValue)
    (merges : List (Nat × Nat)) (solution : Solution) :
    List Local × List (Option Addr × Statement Local) :=
  let webs := (Partition.discrete values.length).unionAll merges
  let (result, state) := (Split.statements ⟨solution, webs⟩ list).run {}
  (state.declared, result)

end Dalvik
