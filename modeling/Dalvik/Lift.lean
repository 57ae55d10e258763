import Dalvik.Body
import Dalvik.Flow.Search
import Dalvik.Lowering
import Dalvik.Typing.Split

/-!
# Lifting methods

A method's code is checked, its flow graph and reaching definitions are found,
its instructions are lowered, the kinds of the values are solved, and the
values become locals.
-/

namespace Dalvik

/-- How methods are lifted: whether a conflict is an error, and whether code
that cannot be reached is left out. -/
structure LiftOptions where
  strict : Bool := false
  prune : Bool := true

namespace Lift

/-- Check one instruction: its opcode, its operands and its first register. -/
def validateInstruction (code : Code) (instruction : Instruction) : Except LiftError Unit :=
  match instruction.opcode with
  | none => .error (.unknownOpcode (.ofInstruction instruction) instruction.opcodeByte)
  | some opcode =>
      match instruction.shapeFault? opcode with
      | some fault => malformed instruction (.shape fault)
      | none =>
          match instruction.regs.find? fun reg => code.registers ≤ reg.number with
          | some reg => .error (.outOfFrame (.ofInstruction instruction) reg code.registers)
          | none => .ok ()

def validate (code : Code) : Except LiftError Unit :=
  code.instructions.forM (validateInstruction code)

def lowerEach (context : LoweringContext) (isLive : Addr → Bool) :
    List Instruction → Lower (List (Addr × List (Statement Slot)))
  | [] => return []
  | instruction :: rest => do
      if isLive instruction.addr then
        let statements ← Lower.instruction context instruction rest.head?
        let others ← lowerEach context isLive rest
        return (instruction.addr, statements) :: others
      else lowerEach context isLive rest

/-- The statements of an instruction with its address.  A branch target without
statements gets one, so that it can be labelled. -/
def placed (graph : FlowGraph) (addr : Addr) (statements : List (Statement Slot)) :
    List (Option Addr × Statement Slot) :=
  let statements := if statements.isEmpty && graph.isTarget addr then [.nop] else statements
  statements.map (some addr, ·)

def lowerMethod (context : LoweringContext) (isLive : Addr → Bool) :
    Lower (List (Option Addr × Statement Slot)) := do
  let arguments ← Lower.allArguments context
  let lowered ← lowerEach context isLive context.code.instructions
  return arguments.map (none, ·)
    ++ lowered.flatMap fun (addr, statements) => placed context.graph addr statements

/-- The first statement of each address, from a statement number on. -/
def labelsFrom : List (Addr × Nat) → Nat → List (Option Addr × Statement Local) →
    List (Addr × Nat)
  | labels, _, [] => labels
  | labels, index, (addr, _) :: rest =>
      match addr with
      | some addr =>
          if (labels.lookup addr).isSome then labelsFrom labels (index + 1) rest
          else labelsFrom (labels ++ [(addr, index)]) (index + 1) rest
      | none => labelsFrom labels (index + 1) rest

def labels (statements : List (Option Addr × Statement Local)) : List (Addr × Nat) :=
  labelsFrom [] 0 statements

/-- The number of the first statement at or after an address. -/
def indexFrom (statements : List (Option Addr × Statement Local)) (addr : Addr) : Nat :=
  statements.findIdx fun (place, _) => place.elim false (addr ≤ ·)

/-- The traps of a try item; without statements or without a lowered handler
there are none. -/
def itemTraps (statements : List (Option Addr × Statement Local)) (labels : List (Addr × Nat))
    (item : TryItem) : List Trap :=
  let start := indexFrom statements item.start
  let stop := indexFrom statements item.stop
  if stop ≤ start then []
  else item.handlers.filterMap fun handler =>
    (labels.lookup handler.addr).map fun target => ⟨handler.exception, start, stop, target⟩

def conflictError (diagnostic : Diagnostic) : LiftError :=
  .conflict (diagnostic.addrs.headD 0) diagnostic.register diagnostic.finding.text

structure Lowered where
  statements : List (Option Addr × Statement Slot)
  state : LoweringState

def contextOf (code : Code) (pool : Pool) : Except LiftError LoweringContext := do
  let graph ← FlowGraph.build code pool
  let frame ← liftCode (RegisterFrame.ofCode code pool)
  match solveReaching graph frame with
  | some states => return ⟨pool, code, graph, states⟩
  | none => throw .unsettled

def lower (context : LoweringContext) (options : LiftOptions) : Except LiftError Lowered := do
  let live := context.graph.reachable
  let isLive := fun addr => !options.prune || live.contains addr
  let (statements, state) ← (lowerMethod context isLive).run {}
  return ⟨statements, state⟩

def assemble (code : Code) (lowered : Lowered) (solution : Solution) : Body :=
  let (locals, statements) :=
    split lowered.statements lowered.state.values.values lowered.state.merges solution
  let labels := labels statements
  { method := code.method
    locals
    statements
    labels
    traps := code.tries.flatMap (itemTraps statements labels)
    diagnostics := solution.diagnostics }

def bodyOf (context : LoweringContext) (options : LiftOptions) : Except LiftError Body := do
  let lowered ← lower context options
  let solution := Solution.solve lowered.state.values.values lowered.state.recorded
  match options.strict, solution.conflicts with
  | true, conflict :: _ => throw (conflictError conflict)
  | _, _ => return assemble context.code lowered solution

def run (code : Code) (pool : Pool) (options : LiftOptions) : Except LiftError Body := do
  validate code
  bodyOf (← contextOf code pool) options

end Lift

end Dalvik
