import Dalvik.Flow.Graph
import Dalvik.Lift.Error

/-!
# Drawing flow graphs

A flow graph in the language of graph drawing programs: a box for each block,
labelled with its instructions, and an arrow for each edge, coloured by the
reason for the branch.
-/

namespace Dalvik

def Branch.colour : Branch → String
  | .ifTrue => "green"
  | .ifFalse => "red"
  | .switch _ | .switchDefault => "purple"
  | .jump => "blue"
  | .sequence => "black"
  | .catchType _ | .catchAll => "orchid"

namespace FlowGraph

/-- A character inside a label: quotes and backslashes are escaped, and a line
ends with a mark that aligns it to the left. -/
def labelChar : Char → List Char
  | '"' => ['\\', '"']
  | '\\' => ['\\', '\\']
  | '\n' => ['\\', 'l']
  | c => [c]

def label (text : String) : String :=
  String.ofList (text.toList.flatMap labelChar)

/-- The line of a block.  Blocks with items missing from the pool have no text. -/
def boxLine (pool : Pool) (number : Nat) (block : Block) : Except CodeError String := do
  let text ← (block.text pool).mapError fun _ => .unprintable
  return "    " ++ toString number ++ " [ label = \"" ++ label text ++ "\" shape=box,color="
    ++ (if block.canThrow then "blue" else "black") ++ "]\n"

def boxLines (pool : Pool) : Nat → List Block → Except CodeError (List String)
  | _, [] => .ok []
  | number, block :: rest => do
      let line ← boxLine pool number block
      let lines ← boxLines pool (number + 1) rest
      return line :: lines

def arrowLine (edge : Edge) : String :=
  "    " ++ toString edge.source ++ " -> " ++ toString edge.target ++ " [ color="
    ++ edge.branch.colour ++ ",xlabel=\"" ++ edge.branch.text ++ "\"]\n"

def drawing (pool : Pool) (graph : FlowGraph) : Except CodeError String := do
  let boxes ← boxLines pool 0 graph.blocks
  return "digraph \x7b\n  splines=ortho;\n  nodesep=2;\n" ++ String.join boxes
    ++ String.join (graph.edges.map arrowLine) ++ "\x7d"

end FlowGraph

end Dalvik
