import Dalvik.Flow.Graph

/-!
# Depth-first search

The search finishes a block after all blocks found from it.  Successors are
visited in the order their edges were added.
-/

namespace Dalvik

/-- The blocks found so far, and those of them that are finished, in finishing
order. -/
structure Search where
  found : List Nat := []
  finished : List Nat := []
  deriving DecidableEq, Repr

namespace FlowGraph

/-- Visit a block and what is found from it; `fuel` bounds the depth. -/
def visit (graph : FlowGraph) : Nat → Search → Nat → Search
  | 0, search, _ => search
  | fuel + 1, search, block =>
      if search.found.contains block then search
      else
        let search := (graph.successors block).foldl (graph.visit fuel)
          { search with found := block :: search.found }
        { search with finished := search.finished ++ [block] }

/-- Visit a block; no path is longer than the number of blocks. -/
def visitFrom (graph : FlowGraph) (search : Search) (block : Nat) : Search :=
  graph.visit (graph.blocks.length + 1) search block

def reachableBlocks (graph : FlowGraph) : List Nat :=
  (graph.visitFrom {} graph.start).found

def reachable (graph : FlowGraph) : SortedSet Addr :=
  SortedSet.ofList <| graph.reachableBlocks.flatMap fun block =>
    (graph.blocks[block]?.map Block.addrs).getD []

/-- The blocks found by one more search, each before those it finished. -/
def reversePostorder (graph : FlowGraph) (search : Search) (block : Nat) : List Nat × Search :=
  let after := graph.visitFrom search block
  ((after.finished.drop search.finished.length).reverse, after)

def searchAll (graph : FlowGraph) : Search → List Nat → List Nat
  | _, [] => []
  | search, block :: rest =>
      let (order, search) := graph.reversePostorder search block
      order ++ graph.searchAll search rest

/-- All blocks: in reverse postorder from the start, then from each block that
was not found before, by number. -/
def schedule (graph : FlowGraph) : List Nat :=
  graph.searchAll {} (graph.start :: List.range graph.blocks.length)

end FlowGraph

end Dalvik
