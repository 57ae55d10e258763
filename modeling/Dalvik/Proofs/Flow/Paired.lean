import Dalvik.Proofs.Flow.Search
import Mathlib.Data.List.Forall2

/-!
# Graphs that find the same blocks

Two graphs may have the same blocks found from the start, with the same edges
between them, and differ in the others.  The blocks found are paired, whatever
their numbers.  As long as no other block leads to a block that is found, the
schedules of the two graphs list the paired blocks in the same order.
-/

namespace Dalvik.FlowGraph

def finds (graph : FlowGraph) (number : Nat) : Bool :=
  graph.reachableBlocks.contains number

theorem finds_iff {graph : FlowGraph} {number : Nat} :
    graph.finds number = true ↔ number ∈ graph.reachableBlocks :=
  List.contains_iff_mem

/-- No block that is not found from the start leads to one that is. -/
def Secluded (graph : FlowGraph) : Prop :=
  ∀ edge ∈ graph.edges, graph.finds edge.target = true → graph.finds edge.source = true

/-- The blocks that two graphs find from the start are paired: they are the same,
and so are the edges out of them, in order. -/
structure Paired (first second : FlowGraph) (pairs : Nat → Nat → Prop) : Prop where
  unique : Relator.BiUnique pairs
  left : ∀ number, first.finds number = true ↔ ∃ other, pairs number other
  right : ∀ other, second.finds other = true ↔ ∃ number, pairs number other
  blocks : ∀ number other, pairs number other → first.blocks[number]? = second.blocks[other]?
  start : pairs first.start second.start
  edges : ∀ number other, pairs number other →
    List.Forall₂ (fun edge twin => edge.branch = twin.branch ∧ pairs edge.target twin.target)
      (first.edges.filter (·.source == number)) (second.edges.filter (·.source == other))

variable {first second : FlowGraph} {pairs : Nat → Nat → Prop}

namespace Paired

theorem symm (paired : Paired first second pairs) : Paired second first (flip pairs) where
  unique := ⟨fun _ _ _ first second => paired.unique.2 first second, paired.unique.1.flip⟩
  left := paired.right
  right := paired.left
  blocks number other pair := (paired.blocks other number pair).symm
  start := paired.start
  edges number other pair :=
    (paired.edges other number pair).flip.imp fun _ _ both => ⟨both.1.symm, both.2⟩

theorem finds_left (paired : Paired first second pairs) {number other : Nat}
    (pair : pairs number other) : first.finds number = true :=
  (paired.left number).mpr ⟨other, pair⟩

theorem finds_right (paired : Paired first second pairs) {number other : Nat}
    (pair : pairs number other) : second.finds other = true :=
  (paired.right other).mpr ⟨number, pair⟩

theorem lt (paired : Paired first second pairs) (closed : first.Closed) {number other : Nat}
    (pair : pairs number other) : number < first.blocks.length :=
  reaches_lt closed closed.start_lt
    ((mem_reachableBlocks closed).mp (finds_iff.mp (paired.finds_left pair)))

theorem successors (paired : Paired first second pairs) {number other : Nat}
    (pair : pairs number other) :
    List.Forall₂ pairs (first.successors number) (second.successors other) :=
  List.rel_map (fun _ _ both => both.2) (paired.edges number other pair)

end Paired

/-- Two searches have found the same of the paired blocks and finished them in the
same order. -/
structure SearchPaired (pairs : Nat → Nat → Prop) (search twin : Search) : Prop where
  found : ∀ number other, pairs number other → (number ∈ search.found ↔ other ∈ twin.found)
  finished : List.Forall₂ pairs search.finished twin.finished

/-- A visit leaves no more blocks to be found. -/
theorem unfound_visit_le {graph : FlowGraph} (closed : graph.Closed) {fuel block : Nat}
    (inside : block < graph.blocks.length) {search : Search}
    (enough : graph.unfound search < fuel) :
    graph.unfound (graph.visit fuel search block) ≤ graph.unfound search := by
  obtain ⟨order, stretch⟩ := stretch_visit closed inside search enough
  exact unfound_anti fun other found => (stretch.found other).mpr (.inl found)

namespace Paired

variable {search twin : Search} {fuel fuel' : Nat}

/-- Visits of paired blocks, one after the other, keep searches alike if each of
them does. -/
theorem foldl_visit (paired : Paired first second pairs) (closed : first.Closed)
    (closed' : second.Closed) {blocks twins : List Nat}
    (matched : List.Forall₂ pairs blocks twins)
    (visits : ∀ number other search twin, pairs number other → first.unfound search < fuel →
      second.unfound twin < fuel' → SearchPaired pairs search twin →
      SearchPaired pairs (first.visit fuel search number) (second.visit fuel' twin other))
    (enough : first.unfound search < fuel) (enough' : second.unfound twin < fuel')
    (alike : SearchPaired pairs search twin) :
    SearchPaired pairs (blocks.foldl (first.visit fuel) search)
      (twins.foldl (second.visit fuel') twin) := by
  induction matched generalizing search twin with
  | nil => exact alike
  | cons pair _ ih =>
      have fewer := unfound_visit_le closed (paired.lt closed pair) enough
      have fewer' := unfound_visit_le closed' (paired.symm.lt closed' pair) enough'
      exact ih (Nat.lt_of_le_of_lt fewer enough) (Nat.lt_of_le_of_lt fewer' enough')
        (visits _ _ search twin pair enough enough' alike)

/-- Visits of paired blocks with enough fuel, which need not be the same, keep
searches alike. -/
theorem visit (paired : Paired first second pairs) (closed : first.Closed)
    (closed' : second.Closed) {number other : Nat} (pair : pairs number other)
    (enough : first.unfound search < fuel) (enough' : second.unfound twin < fuel')
    (alike : SearchPaired pairs search twin) :
    SearchPaired pairs (first.visit fuel search number) (second.visit fuel' twin other) := by
  induction fuel generalizing fuel' number other search twin with
  | zero => exact absurd enough (Nat.not_lt_zero _)
  | succ fuel ih =>
      obtain ⟨fuel', rfl⟩ := Nat.exists_eq_succ_of_ne_zero (Nat.ne_of_gt (Nat.zero_lt_of_lt enough'))
      unfold FlowGraph.visit
      by_cases found : number ∈ search.found
      · have found' := (alike.found number other pair).mp found
        rwa [if_pos (List.contains_iff_mem.mpr found), if_pos (List.contains_iff_mem.mpr found')]
      · have found' : other ∉ twin.found := fun isFound =>
          found ((alike.found number other pair).mpr isFound)
        rw [if_neg (fun contained => found (List.contains_iff_mem.mp contained)),
          if_neg (fun contained => found' (List.contains_iff_mem.mp contained))]
        have fewer := unfound_cons_lt (paired.lt closed pair) found
        have fewer' := unfound_cons_lt (paired.symm.lt closed' pair) found'
        have opened : SearchPaired pairs { search with found := number :: search.found }
            { twin with found := other :: twin.found } := by
          refine ⟨fun block copy same => ?_, alike.finished⟩
          simp only [List.mem_cons, alike.found block copy same]
          exact or_congr_left (Relator.rel_eq paired.unique same pair)
        have below := paired.foldl_visit closed closed' (paired.successors pair)
          (fun block copy search twin same enough enough' => ih same enough enough')
          (Nat.lt_of_lt_of_le fewer (Nat.le_of_lt_succ enough))
          (Nat.lt_of_lt_of_le fewer' (Nat.le_of_lt_succ enough')) opened
        exact ⟨below.found, List.rel_append below.finished (.cons pair .nil)⟩

end Paired

/-- The blocks found from the start are scheduled first, the last finished first. -/
theorem filter_schedule {graph : FlowGraph} (closed : graph.Closed) :
    graph.schedule.filter graph.finds = (graph.visitFrom {} graph.start).finished.reverse := by
  obtain ⟨order, stretch⟩ := stretch_visitFrom closed {} closed.start_lt
  obtain ⟨-, new, -⟩ := searchAll_lists closed (fun root => List.mem_range.mp)
    (graph.visitFrom {} graph.start)
  have finished : (graph.visitFrom {} graph.start).finished = order := stretch.finished
  rw [finished, schedule, searchAll_cons stretch, List.filter_append, List.filter_eq_self.mpr,
    List.filter_eq_nil_iff.mpr, List.append_nil]
  · exact fun block member found => (new block member).1 (finds_iff.mp found)
  · intro block member
    exact finds_iff.mpr ((stretch.found block).mpr (.inr (List.mem_reverse.mp member)))

/-- Paired blocks are scheduled in the same order. -/
theorem Paired.schedule (paired : Paired first second pairs) (closed : first.Closed)
    (closed' : second.Closed) :
    List.Forall₂ pairs (first.schedule.filter first.finds)
      (second.schedule.filter second.finds) := by
  rw [filter_schedule closed, filter_schedule closed']
  refine List.rel_reverse (paired.visit closed closed' paired.start ?_ ?_ ?_).finished
  · exact Nat.lt_succ_of_le (first.unfound_le {})
  · exact Nat.lt_succ_of_le (second.unfound_le {})
  · exact ⟨fun _ _ _ => iff_of_false List.not_mem_nil List.not_mem_nil, .nil⟩

end Dalvik.FlowGraph
