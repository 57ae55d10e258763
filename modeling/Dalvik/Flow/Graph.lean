import Dalvik.Code
import Dalvik.SortedSet

/-!
# Control flow graphs

The blocks of a method are runs of instructions that control enters only at
the first one.  Edges are kept in the order they were added and refer to blocks
by number.
-/

namespace Dalvik

inductive Branch where
  | ifTrue
  | ifFalse
  | switch (key : Int32)
  | switchDefault
  | jump
  | sequence
  | catchType (type : Descriptor)
  | catchAll
  deriving DecidableEq, Repr

namespace Branch

/-- Whether control leaves before the block's first instruction is done. -/
def isCatch : Branch → Bool
  | .catchType _ | .catchAll => true
  | _ => false

def text : Branch → String
  | .ifTrue => "<true>"
  | .ifFalse => "<false>"
  | .switch key => "<switch " ++ toString key.toInt ++ ">"
  | .switchDefault => "<switch _>"
  | .jump => "<jmp>"
  | .sequence => "<seq>"
  | .catchType type => "<catch " ++ type.sourceName ++ ">"
  | .catchAll => "<catch *>"

end Branch

structure Block where
  instructions : List Instruction
  deriving DecidableEq, Repr

namespace Block

def start (block : Block) : Addr :=
  block.instructions.head?.elim 0 Instruction.addr

def addrs (block : Block) : List Addr :=
  block.instructions.map Instruction.addr

def canThrow (block : Block) : Bool :=
  ((block.instructions.head?.bind Instruction.opcode).map Opcode.canThrow).getD false

def text (pool : Pool) (block : Block) : Except CodeError String := do
  let lines ← block.instructions.mapM fun instruction => do
    let text ← instruction.text pool
    return instruction.addr.text ++ ": " ++ text ++ "\n"
  return String.join lines

end Block

structure Edge where
  source : Nat
  branch : Branch
  target : Nat
  deriving DecidableEq, Repr

/-- Blocks in address order, edges in the order they were added, the number of
the block at address zero, and the addresses that branches and handlers lead
to. -/
structure FlowGraph where
  blocks : List Block
  edges : List Edge
  start : Nat
  targets : SortedSet Addr
  deriving DecidableEq

namespace FlowGraph

/-- The edges into a block, the last added first. -/
def incoming (graph : FlowGraph) (block : Nat) : List Edge :=
  (graph.edges.filter (·.target == block)).reverse

/-- The edges out of a block, the last added first. -/
def outgoing (graph : FlowGraph) (block : Nat) : List Edge :=
  (graph.edges.filter (·.source == block)).reverse

/-- The blocks that edges out of a block lead to, the first added first. -/
def successors (graph : FlowGraph) (block : Nat) : List Nat :=
  (graph.edges.filter (·.source == block)).map Edge.target

def lastBlocks : List Block → List Block
  | [] => []
  | block :: rest =>
      if rest.any (·.start == block.start) then lastBlocks rest else block :: lastBlocks rest

/-- The blocks that edges can lead to, by address. -/
def blocksByAddress (graph : FlowGraph) : List Block :=
  lastBlocks graph.blocks

def isTarget (graph : FlowGraph) (addr : Addr) : Bool :=
  graph.targets.contains addr

end FlowGraph

end Dalvik
