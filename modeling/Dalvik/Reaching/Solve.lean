import Dalvik.Flow.Search
import Dalvik.Reaching.State

/-!
# Solving for reaching definitions

Blocks are taken from a queue.  The state at a block's start is the join of
what its known predecessors leave; when a block's states change, the known
blocks after it are queued again.
-/

namespace Dalvik

structure BlockStates where
  entry : Reaching
  exit : Reaching
  deriving DecidableEq

/-- Where solving stands: the states of the blocks that are known, the blocks
still to be taken, the next one first, and those that were taken, each once and
the last one first. -/
structure Solving where
  known : List (Option BlockStates)
  queue : List Nat
  taken : List Nat
  deriving DecidableEq

namespace Solving

def statesOf (solving : Solving) (block : Nat) : Option BlockStates :=
  (solving.known[block]?).join

/-- What an edge passes on: the entry state for handlers, else the exit state. -/
def passedOn (solving : Solving) (edge : Edge) : Option Reaching :=
  (solving.statesOf edge.source).map fun states =>
    if edge.branch.isCatch then states.entry else states.exit

def joinInto (sofar : Option Reaching) (state : Reaching) : Option Reaching :=
  match sofar with
  | some entry => some (entry.join state)
  | none => some state

/-- The state at the start of a block.  Without a known predecessor it is the
initial one. -/
def entryOf (graph : FlowGraph) (frame : RegisterFrame) (solving : Solving) (block : Nat) :
    Reaching :=
  let first := if block = graph.start then some (Reaching.init frame) else none
  let passed := (graph.incoming block).filterMap solving.passedOn
  (passed.foldl joinInto first).getD (Reaching.init frame)

def exitOf (entry : Reaching) (instructions : List Instruction) : Reaching :=
  instructions.foldl Reaching.transfer entry

/-- Queue a block that is known and not queued. -/
def requeue (known : List (Option BlockStates)) (queue : List Nat) (block : Nat) : List Nat :=
  if ((known[block]?).join).isSome && !queue.contains block then queue ++ [block] else queue

def step (graph : FlowGraph) (frame : RegisterFrame) (solving : Solving) : Solving :=
  match solving.queue with
  | [] => solving
  | block :: queue =>
      let instructions := (graph.blocks[block]?.map Block.instructions).getD []
      let entry := entryOf graph frame solving block
      let states := ⟨entry, exitOf entry instructions⟩
      let queue :=
        if solving.statesOf block = some states then queue
        else ((graph.outgoing block).map Edge.target).foldl (requeue solving.known) queue
      { known := solving.known.set block (some states)
        queue
        taken := block :: solving.taken.filter (· != block) }

variable (graph : FlowGraph) (frame : RegisterFrame) in
/-- Take blocks until none is queued.  A run that never gets there has no result. -/
def run : Solving → Option Solving := fun solving =>
  if solving.queue.isEmpty then some solving else run.comp (step graph frame) solving
partial_fixpoint monotonicity fun first second below solving => by
  dsimp only
  split
  · exact .refl
  · exact below (solving.step graph frame)

def start (graph : FlowGraph) : Solving :=
  ⟨List.replicate graph.blocks.length none, graph.schedule, []⟩

end Solving

structure Dataflow where
  entries : List (Addr × Reaching)
  exits : List (Addr × Reaching)
  deriving DecidableEq

namespace Dataflow

def ofBlock : Reaching → List Instruction → List (Addr × Reaching × Reaching)
  | _, [] => []
  | entry, instruction :: rest =>
      let exit := entry.transfer instruction
      (instruction.addr, entry, exit) :: ofBlock exit rest

def rowsOf (graph : FlowGraph) (solving : Solving) (block : Nat) :
    List (Addr × Reaching × Reaching) :=
  match graph.blocks[block]?, solving.statesOf block with
  | some block, some states => ofBlock states.entry block.instructions
  | _, _ => []

/-- The states at all instructions of the blocks that were taken, the latest
first. -/
def latestRows (graph : FlowGraph) (solving : Solving) : List (Addr × Reaching × Reaching) :=
  solving.taken.flatMap fun block => (rowsOf graph solving block).reverse

/-- The states at each address, in order.  Where instructions share an address,
the one that was passed last counts. -/
def ofSolving (graph : FlowGraph) (solving : Solving) : Dataflow :=
  let latest := latestRows graph solving
  let addrs := (SortedSet.ofList (graph.blocks.flatMap Block.addrs)).elements
  let rows := addrs.filterMap fun addr => (latest.lookup addr).map (addr, ·)
  { entries := rows.map fun row => (row.1, row.2.1)
    exits := rows.map fun row => (row.1, row.2.2) }

def entryAt (dataflow : Dataflow) (addr : Addr) : Option Reaching :=
  dataflow.entries.lookup addr

end Dataflow

/-- The reaching definitions of a method; `none` if they never settle. -/
def solveReaching (graph : FlowGraph) (frame : RegisterFrame) : Option Dataflow :=
  (Solving.run graph frame (.start graph)).map (Dataflow.ofSolving graph)

end Dalvik
