import Dalvik.Flow.Graph
import Dalvik.Lift.Error

/-!
# Building flow graphs

Code is cut before every address a branch, a handler or a try boundary leads
to, after every instruction that branches or ends the flow, and around every
instruction that may throw.  Control must stay inside the code.
-/

namespace Dalvik

namespace Code

def hasInstruction (code : Code) (addr : Addr) : Bool :=
  code.instructions.any (·.addr == addr)

end Code

namespace Instruction

/-- Whether the opcode never falls through; unknown opcodes do. -/
def endsFlow (instruction : Instruction) : Bool :=
  (instruction.opcode.map Opcode.endsFlow).getD false

def canThrow (instruction : Instruction) : Bool :=
  (instruction.opcode.map Opcode.canThrow).getD false

end Instruction

namespace FlowGraph

def badTarget {α : Type} (instruction : Instruction) (offset : Int) : Except LiftError α :=
  .error (.badTarget (.ofInstruction instruction) offset)

def jumpTarget (code : Code) (instruction : Instruction) (offset : Int32) :
    Except LiftError Addr :=
  match instruction.addr.offsetBy? offset with
  | some target =>
      if code.hasInstruction target then .ok target else badTarget instruction offset.toInt
  | none => badTarget instruction offset.toInt

def fallthrough (code : Code) (instruction : Instruction) : Except LiftError Addr :=
  if code.hasInstruction instruction.nextAddr then .ok instruction.nextAddr
  else badTarget instruction (instruction.size : Int)

def caseBranches (code : Code) (instruction : Instruction) :
    List (Int32 × Int32) → Except LiftError (List (Branch × Addr))
  | [] => .ok []
  | (key, offset) :: rest => do
      let target ← jumpTarget code instruction offset
      let branches ← caseBranches code instruction rest
      return (.switch key, target) :: branches

def branches (code : Code) (instruction : Instruction) :
    Except LiftError (List (Branch × Addr)) :=
  match instruction.opcode.map Opcode.family, instruction.offset with
  | some .goto, some offset => do
      let target ← jumpTarget code instruction offset
      return [(.jump, target)]
  | some .branch, some offset | some .branchZero, some offset => do
      let target ← jumpTarget code instruction offset
      let next ← fallthrough code instruction
      return [(.ifTrue, target), (.ifFalse, next)]
  | some .switch, some _ =>
      match instruction.payload with
      | none => malformed instruction .missingSwitchTable
      | some payload => do
          let next ← fallthrough code instruction
          let cases ← caseBranches code instruction payload.cases
          return (.switchDefault, next) :: cases
  | _, _ => .ok []

/-- The ways to handlers, if the instruction may throw. -/
def catches (code : Code) (pool : Pool) (instruction : Instruction) :
    Except LiftError (List (Branch × Addr)) :=
  if instruction.canThrow then
    let handlers := (code.tries.filter (·.covers instruction.addr)).flatMap TryItem.handlers
    handlers.mapM fun handler =>
      if code.hasInstruction handler.addr then
        match handler.exception with
        | some type => do
            let type ← liftCode (pool.type type)
            return (.catchType type, handler.addr)
        | none => .ok (.catchAll, handler.addr)
      else badTarget instruction (instruction.addr.distanceTo handler.addr)
  else .ok []

structure Cuts where
  leaders : SortedSet Addr := .empty
  targets : SortedSet Addr := .empty

namespace Cuts

def addInstruction (code : Code) (cuts : Cuts) (instruction : Instruction) :
    Except LiftError Cuts := do
  let branches ← branches code instruction
  if branches.isEmpty && !instruction.endsFlow then
    let _ ← fallthrough code instruction
  let ends := !branches.isEmpty || instruction.canThrow || instruction.endsFlow
  let destinations := branches.map Prod.snd
  let leaders := (if ends then [instruction.nextAddr] else []) ++ destinations
    ++ (if instruction.canThrow then [instruction.addr] else [])
  return { leaders := leaders.foldl SortedSet.insert cuts.leaders
           targets := destinations.foldl SortedSet.insert cuts.targets }

def addTry (cuts : Cuts) (item : TryItem) : Cuts :=
  let handlers := item.handlers.map Handler.addr
  { leaders := (item.start :: item.stop :: handlers).foldl SortedSet.insert cuts.leaders
    targets := handlers.foldl SortedSet.insert cuts.targets }

def ofCode (code : Code) : Except LiftError Cuts := do
  let cuts ← code.instructions.foldlM (addInstruction code) {}
  return code.tries.foldl addTry cuts

end Cuts

def extendBlock (instruction : Instruction) : List Block → List Block
  | [] => [⟨[instruction]⟩]
  | block :: blocks => ⟨instruction :: block.instructions⟩ :: blocks

def cutBlocks (leaders : SortedSet Addr) : List Instruction → List Block
  | [] => []
  | [last] => [⟨[last]⟩]
  | instruction :: next :: rest =>
      let blocks := cutBlocks leaders (next :: rest)
      if leaders.contains next.addr then ⟨[instruction]⟩ :: blocks
      else extendBlock instruction blocks

def lastStartingAt (addr : Addr) : Nat → List Block → Option Nat
  | _, [] => none
  | number, block :: blocks =>
      (lastStartingAt addr (number + 1) blocks).or
        (if block.start = addr then some number else none)

def blockAt (blocks : List Block) (addr : Addr) : Except LiftError Nat :=
  match lastStartingAt addr 0 blocks with
  | some number => .ok number
  | none => .error (.code (.noInstruction addr))

/-- The ways on from an instruction: its branches, or the next instruction. -/
def continuations (code : Code) (instruction : Instruction) :
    Except LiftError (List (Branch × Addr)) := do
  let branches ← branches code instruction
  if branches.isEmpty && !instruction.endsFlow then
    let next ← fallthrough code instruction
    return [(.sequence, next)]
  else return branches

def exits (code : Code) (pool : Pool) (instruction : Instruction) :
    Except LiftError (List (Branch × Addr)) := do
  let continuations ← continuations code instruction
  let catches ← catches code pool instruction
  return continuations ++ catches

def blockEdges (code : Code) (pool : Pool) (blocks : List Block) (number : Nat) (block : Block) :
    Except LiftError (List Edge) :=
  match block.instructions.getLast? with
  | none => .ok []
  | some instruction => do
      let exits ← exits code pool instruction
      exits.mapM fun (branch, addr) => do
        let target ← blockAt blocks addr
        return ⟨number, branch, target⟩

def edgesFrom (code : Code) (pool : Pool) (blocks : List Block) :
    Nat → List Block → Except LiftError (List Edge)
  | _, [] => .ok []
  | number, block :: rest => do
      let edges ← blockEdges code pool blocks number block
      let others ← edgesFrom code pool blocks (number + 1) rest
      return edges ++ others

def build (code : Code) (pool : Pool) : Except LiftError FlowGraph := do
  if code.instructions.isEmpty then throw .noCode
  let cuts ← Cuts.ofCode code
  let blocks := cutBlocks cuts.leaders code.instructions
  let edges ← edgesFrom code pool blocks 0 blocks
  let start ← blockAt blocks 0
  return { blocks, edges, start, targets := cuts.targets }

end FlowGraph

end Dalvik
