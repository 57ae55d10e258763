import Dalvik.Lowering.Objects

/-!
# Lowering calls

Arguments are bound to the declared parameter types.  A call takes over the
`move-result` after it, unless control can reach that from elsewhere: the
result is then defined where the `move-result` stands.
-/

namespace Dalvik.Lower

/-- Read arguments of the given kinds from a register position on; `number`
counts the arguments before. -/
def readArguments (context : LoweringContext) (current : Current) :
    Nat → Nat → List Kind → Lower (List Slot)
  | _, _, [] => return []
  | number, position, kind :: kinds => do
      let reg ← current.reg position
      if kind.width = .wide then
        let second ← current.reg (position + 1)
        if second ≠ reg.next then current.fail (.brokenPair number)
      let slot ← readAs context current reg (.ofKind kind) .anchor
      let slots ← readArguments context current (number + 1) (position + kind.width.slots) kinds
      return slot :: slots

/-- Read the arguments of a call; its registers must be as many as their kinds
take. -/
def arguments (context : LoweringContext) (current : Current) (kinds : List Kind) :
    Lower (List Slot) := do
  let expected := kinds.foldr (fun kind slots => kind.width.slots + slots) 0
  let found := current.instruction.regs.length
  if expected ≠ found then
    throw (.arity (.ofInstruction current.instruction) expected found)
  readArguments context current 0 0 kinds

def resultMove (context : LoweringContext) (current : Current) :
    Option (Instruction × Opcode) := do
  let next ← current.next
  let opcode ← next.opcode
  if opcode.family = .moveResult ∧ !context.graph.isTarget next.addr then some (next, opcode)
  else none

/-- Define the result of a call, of the given kind, in its `move-result`. -/
def result (context : LoweringContext) (current : Current) (kind : Kind) :
    Lower (Option Slot) := do
  match resultMove context current with
  | none => return none
  | some (next, opcode) =>
      let some reg := next.regs.head? | malformed next (.missingRegister 0)
      let dest ← writeAt context current next.addr reg (.ofKind kind) .anchor
      restrict next.addr dest.value (opcode.kind.elim .narrow .ofOperand) .opcode
      modify fun state => { state with folded := next.addr :: state.folded }
      return some dest

def invoke (context : LoweringContext) (current : Current) : Lower (List (Statement Slot)) := do
  let some kind := InvokeKind.ofMnemonic? current.opcode.mnemonic
    | current.fail .unknownInvoke
  let index ← current.reference .method
  let method ← liftCode (context.pool.method index)
  let paramKinds ← current.declaredKinds method.prototype.params
  let kinds := if kind.hasReceiver then .object :: paramKinds else paramKinds
  let slots ← arguments context current kinds
  let operands := slots.map Operand.var
  let call := if kind.hasReceiver then .invoke kind index operands.head? operands.tail
    else .invoke kind index none operands
  match Kind.ofType method.prototype.ret with
  | none => return [.invoke call]
  | some ret => do
      match ← result context current ret with
      | none => return [.invoke call]
      | some dest => do
          declare dest.value method.prototype.ret
          return assign dest call

def filledNewArray (context : LoweringContext) (current : Current) :
    Lower (List (Statement Slot)) := do
  let index ← current.reference .type
  let type ← typeOf context index
  let some element := type.element? | current.fail .notArray
  let kind ← current.declaredKind element
  let slots ← arguments context current (current.instruction.regs.map fun _ => kind)
  match ← result context current .object with
  | none => return [.nop]
  | some dest => do
      declare dest.value type
      return assign dest (.newFilledArray index (slots.map Operand.var))

end Dalvik.Lower
