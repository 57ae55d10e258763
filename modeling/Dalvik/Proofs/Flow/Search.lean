import Dalvik.Flow.Search
import Mathlib.Data.Finset.Card
import Mathlib.Data.List.Range
import Mathlib.Logic.Relation

/-!
# What depth-first search finds

A search that has enough fuel finishes every block it finds, finds every
successor of a block it finishes, and finishes a block before the one it came
from.  The blocks found from the start are therefore those that edges reach, and
the schedule holds every block once.
-/

namespace Dalvik.FlowGraph

def Leads (graph : FlowGraph) (source target : Nat) : Prop :=
  target ∈ graph.successors source

theorem leads_iff {graph : FlowGraph} {source target : Nat} :
    graph.Leads source target ↔
      ∃ edge ∈ graph.edges, edge.source = source ∧ edge.target = target := by
  simp only [Leads, successors, List.mem_map, List.mem_filter, beq_iff_eq, and_assoc]

structure Closed (graph : FlowGraph) : Prop where
  start_lt : graph.start < graph.blocks.length
  source_lt : ∀ edge ∈ graph.edges, edge.source < graph.blocks.length
  target_lt : ∀ edge ∈ graph.edges, edge.target < graph.blocks.length

theorem Closed.successor_lt {graph : FlowGraph} (closed : graph.Closed) {source target : Nat}
    (leads : graph.Leads source target) : target < graph.blocks.length := by
  obtain ⟨edge, member, -, rfl⟩ := leads_iff.mp leads
  exact closed.target_lt edge member

/-- What a stretch of a search that visits the `roots` one after the other adds:
it finds and finishes the blocks of `order`, in this order. -/
structure Stretch (graph : FlowGraph) (before : Search) (roots : List Nat) (after : Search)
    (order : List Nat) : Prop where
  finished : after.finished = before.finished ++ order
  found : ∀ block, block ∈ after.found ↔ block ∈ before.found ∨ block ∈ order
  fresh : ∀ block ∈ order, block ∉ before.found
  nodup : order.Nodup
  roots_found : ∀ root ∈ roots, root ∈ after.found
  successors_found : ∀ block ∈ order, ∀ next, graph.Leads block next → next ∈ after.found
  reached : ∀ block ∈ order, ∃ root ∈ roots, Relation.ReflTransGen graph.Leads root block
  from_later : ∀ block ∈ order, block ∈ roots ∨
    ∃ source earlier later, order = earlier ++ later ∧ block ∈ earlier ∧ source ∈ later ∧
      graph.Leads source block

namespace Stretch

variable {graph : FlowGraph} {before middle after : Search} {roots others order rest : List Nat}
  {block : Nat}

theorem nil (graph : FlowGraph) (search : Search) : Stretch graph search [] search [] where
  finished := (List.append_nil _).symm
  found := by simp
  fresh := by simp
  nodup := List.nodup_nil
  roots_found := by simp
  successors_found := by simp
  reached := by simp
  from_later := by simp

/-- A block that was found before is not visited again. -/
theorem seen (graph : FlowGraph) {search : Search} (found : block ∈ search.found) :
    Stretch graph search [block] search [] where
  finished := (List.append_nil _).symm
  found := by simp
  fresh := by simp
  nodup := List.nodup_nil
  roots_found := by simpa using found
  successors_found := by simp
  reached := by simp
  from_later := by simp

theorem append (first : Stretch graph before roots middle order)
    (second : Stretch graph middle others after rest) :
    Stretch graph before (roots ++ others) after (order ++ rest) where
  finished := by rw [second.finished, first.finished, List.append_assoc]
  found := by
    intro block
    rw [second.found, first.found, List.mem_append, or_assoc]
  fresh := by
    intro block member
    rcases List.mem_append.mp member with early | late
    · exact first.fresh block early
    · exact fun found => second.fresh block late ((first.found block).mpr (.inl found))
  nodup := by
    refine List.nodup_append'.mpr ⟨first.nodup, second.nodup, ?_⟩
    intro block early late
    exact second.fresh block late ((first.found block).mpr (.inr early))
  roots_found := by
    intro root member
    rcases List.mem_append.mp member with early | late
    · exact (second.found root).mpr (.inl (first.roots_found root early))
    · exact second.roots_found root late
  successors_found := by
    intro block member next leads
    rcases List.mem_append.mp member with early | late
    · exact (second.found next).mpr (.inl (first.successors_found block early next leads))
    · exact second.successors_found block late next leads
  reached := by
    intro block member
    rcases List.mem_append.mp member with early | late
    · obtain ⟨root, isRoot, path⟩ := first.reached block early
      exact ⟨root, List.mem_append_left _ isRoot, path⟩
    · obtain ⟨root, isRoot, path⟩ := second.reached block late
      exact ⟨root, List.mem_append_right _ isRoot, path⟩
  from_later := by
    intro block member
    rcases List.mem_append.mp member with early | late
    · rcases first.from_later block early with
        isRoot | ⟨source, left, right, split, inLeft, inRight, leads⟩
      · exact .inl (List.mem_append_left _ isRoot)
      · refine .inr ⟨source, left, right ++ rest, ?_, inLeft, List.mem_append_left _ inRight, leads⟩
        rw [split, List.append_assoc]
    · rcases second.from_later block late with
        isRoot | ⟨source, left, right, split, inLeft, inRight, leads⟩
      · exact .inl (List.mem_append_right _ isRoot)
      · refine .inr ⟨source, order ++ left, right, ?_, List.mem_append_right _ inLeft, inRight, leads⟩
        rw [split, List.append_assoc]

/-- A new block is finished after all that is found from it. -/
theorem visited (unseen : block ∉ before.found)
    (below : Stretch graph { before with found := block :: before.found }
      (graph.successors block) after order) :
    Stretch graph before [block] { after with finished := after.finished ++ [block] }
      (order ++ [block]) where
  finished := by
    change after.finished ++ [block] = _
    rw [below.finished, List.append_assoc]
  found := by
    intro other
    change other ∈ after.found ↔ _
    rw [below.found]
    simp only [List.mem_cons, List.mem_append, List.mem_nil_iff, or_false]
    tauto
  fresh := by
    intro other member
    rcases List.mem_append.mp member with early | last
    · exact fun found => below.fresh other early (List.mem_cons_of_mem _ found)
    · rw [List.mem_singleton.mp last]
      exact unseen
  nodup := by
    refine List.nodup_append'.mpr ⟨below.nodup, List.nodup_singleton _, ?_⟩
    intro other early last
    rw [List.mem_singleton.mp last] at early
    exact below.fresh block early List.mem_cons_self
  roots_found := by
    intro root member
    rw [List.mem_singleton.mp member]
    exact (below.found block).mpr (.inl List.mem_cons_self)
  successors_found := by
    intro other member next leads
    rcases List.mem_append.mp member with early | last
    · exact below.successors_found other early next leads
    · rw [List.mem_singleton.mp last] at leads
      exact below.roots_found next leads
  reached := by
    intro other member
    refine ⟨block, List.mem_singleton_self _, ?_⟩
    rcases List.mem_append.mp member with early | last
    · obtain ⟨root, isRoot, path⟩ := below.reached other early
      exact .head isRoot path
    · rw [List.mem_singleton.mp last]
  from_later := by
    intro other member
    rcases List.mem_append.mp member with early | last
    · refine .inr ?_
      rcases below.from_later other early with
      isRoot | ⟨source, left, right, split, inLeft, inRight, leads⟩
      · exact ⟨block, order, [block], rfl, early, List.mem_singleton_self _, isRoot⟩
      · refine ⟨source, left, right ++ [block], ?_, inLeft, List.mem_append_left _ inRight, leads⟩
        rw [split, List.append_assoc]
    · exact .inl last

end Stretch

def unfound (graph : FlowGraph) (search : Search) : Nat :=
  (Finset.range graph.blocks.length \ search.found.toFinset).card

theorem unfound_anti {graph : FlowGraph} {before after : Search}
    (grows : ∀ block ∈ before.found, block ∈ after.found) :
    graph.unfound after ≤ graph.unfound before := by
  refine Finset.card_le_card (Finset.sdiff_subset_sdiff (Finset.Subset.refl _) ?_)
  intro block member
  exact List.mem_toFinset.mpr (grows block (List.mem_toFinset.mp member))

theorem unfound_cons_lt {graph : FlowGraph} {search : Search} {block : Nat}
    (inside : block < graph.blocks.length) (unseen : block ∉ search.found) :
    graph.unfound { search with found := block :: search.found } < graph.unfound search := by
  refine Finset.card_lt_card (Finset.ssubset_iff_of_subset ?_ |>.mpr ⟨block, ?_, ?_⟩)
  · apply Finset.sdiff_subset_sdiff (Finset.Subset.refl _)
    intro other member
    exact List.mem_toFinset.mpr (List.mem_cons_of_mem _ (List.mem_toFinset.mp member))
  · refine Finset.mem_sdiff.mpr ⟨Finset.mem_range.mpr inside, fun member => ?_⟩
    exact unseen (List.mem_toFinset.mp member)
  · exact fun member => (Finset.mem_sdiff.mp member).2 (List.mem_toFinset.mpr List.mem_cons_self)

/-- Visiting blocks one after the other is a stretch of the search if visiting
each of them is. -/
theorem stretch_foldl {graph : FlowGraph} {fuel : Nat} {blocks : List Nat}
    (visits : ∀ block ∈ blocks, ∀ search, graph.unfound search < fuel →
      ∃ order, Stretch graph search [block] (graph.visit fuel search block) order)
    (search : Search) (enough : graph.unfound search < fuel) :
    ∃ order, Stretch graph search blocks (blocks.foldl (graph.visit fuel) search) order := by
  induction blocks generalizing search with
  | nil => exact ⟨[], .nil graph search⟩
  | cons block rest ih =>
      obtain ⟨order, first⟩ := visits block List.mem_cons_self search enough
      have stillEnough : graph.unfound (graph.visit fuel search block) < fuel :=
        Nat.lt_of_le_of_lt (unfound_anti fun other found => (first.found other).mpr (.inl found)) enough
      obtain ⟨others, second⟩ :=
        ih (fun other member => visits other (List.mem_cons_of_mem _ member)) _ stillEnough
      exact ⟨order ++ others, first.append second⟩

theorem stretch_visit {graph : FlowGraph} (closed : graph.Closed) {fuel block : Nat}
    (inside : block < graph.blocks.length) (search : Search)
    (enough : graph.unfound search < fuel) :
    ∃ order, Stretch graph search [block] (graph.visit fuel search block) order := by
  induction fuel generalizing block search with
  | zero => exact absurd enough (Nat.not_lt_zero _)
  | succ fuel ih =>
      unfold visit
      by_cases found : block ∈ search.found
      · rw [if_pos (List.contains_iff_mem.mpr found)]
        exact ⟨[], .seen graph found⟩
      · rw [if_neg (fun contained => found (List.contains_iff_mem.mp contained))]
        have fewer := unfound_cons_lt inside found
        obtain ⟨order, below⟩ := stretch_foldl
          (fun next leads search enough => ih (closed.successor_lt leads) search enough)
          { search with found := block :: search.found } (by omega)
        exact ⟨order ++ [block], below.visited found⟩

theorem unfound_le (graph : FlowGraph) (search : Search) :
    graph.unfound search ≤ graph.blocks.length := by
  apply Nat.le_trans (Finset.card_le_card Finset.sdiff_subset)
  rw [Finset.card_range]

/-- A search from a block has enough fuel. -/
theorem stretch_visitFrom {graph : FlowGraph} (closed : graph.Closed) (search : Search) {block : Nat}
    (inside : block < graph.blocks.length) :
    ∃ order, Stretch graph search [block] (graph.visitFrom search block) order :=
  stretch_visit closed inside search (Nat.lt_succ_of_le (graph.unfound_le search))

/-- The blocks found from the start are those that edges reach. -/
theorem mem_reachableBlocks {graph : FlowGraph} (closed : graph.Closed) {block : Nat} :
    block ∈ graph.reachableBlocks ↔ Relation.ReflTransGen graph.Leads graph.start block := by
  obtain ⟨order, stretch⟩ := stretch_visitFrom closed {} closed.start_lt
  constructor
  · intro found
    have member : block ∈ order := ((stretch.found block).mp found).resolve_left List.not_mem_nil
    obtain ⟨root, isRoot, path⟩ := stretch.reached block member
    rwa [List.mem_singleton.mp isRoot] at path
  · intro path
    induction path with
    | refl => exact stretch.roots_found graph.start (List.mem_singleton_self _)
    | tail _ leads ih =>
        have member := ((stretch.found _).mp ih).resolve_left List.not_mem_nil
        exact stretch.successors_found _ member _ leads

theorem reaches_lt {graph : FlowGraph} (closed : graph.Closed) {source target : Nat}
    (inside : source < graph.blocks.length)
    (path : Relation.ReflTransGen graph.Leads source target) : target < graph.blocks.length := by
  induction path with
  | refl => exact inside
  | tail _ leads _ => exact closed.successor_lt leads

/-- One more search puts the blocks it finds in front, the last finished first. -/
theorem searchAll_cons {graph : FlowGraph} {search : Search} {block : Nat} {order rest : List Nat}
    (stretch : Stretch graph search [block] (graph.visitFrom search block) order) :
    graph.searchAll search (block :: rest) =
      order.reverse ++ graph.searchAll (graph.visitFrom search block) rest := by
  simp only [searchAll, reversePostorder, stretch.finished, List.drop_left]

/-- Searching from some blocks lists what was not found before: the blocks
themselves among others, none of them twice. -/
theorem searchAll_lists {graph : FlowGraph} (closed : graph.Closed) {roots : List Nat}
    (inside : ∀ root ∈ roots, root < graph.blocks.length) (search : Search) :
    (graph.searchAll search roots).Nodup ∧
      (∀ block ∈ graph.searchAll search roots,
        block ∉ search.found ∧ block < graph.blocks.length) ∧
      ∀ root ∈ roots, root ∈ search.found ∨ root ∈ graph.searchAll search roots := by
  induction roots generalizing search with
  | nil => simp [searchAll]
  | cons root rest ih =>
      have rootInside := inside root List.mem_cons_self
      obtain ⟨order, stretch⟩ := stretch_visitFrom closed search rootInside
      obtain ⟨nodup, new, listed⟩ :=
        ih (fun other member => inside other (List.mem_cons_of_mem _ member))
          (graph.visitFrom search root)
      rw [searchAll_cons stretch]
      refine ⟨?_, ?_, ?_⟩
      · refine List.nodup_append'.mpr ⟨List.nodup_reverse.mpr stretch.nodup, nodup, ?_⟩
        intro block early late
        exact (new block late).1 ((stretch.found block).mpr (.inr (List.mem_reverse.mp early)))
      · intro block member
        rcases List.mem_append.mp member with early | late
        · have isNew := List.mem_reverse.mp early
          obtain ⟨source, isRoot, path⟩ := stretch.reached block isNew
          rw [List.mem_singleton.mp isRoot] at path
          exact ⟨stretch.fresh block isNew, reaches_lt closed rootInside path⟩
        · refine ⟨fun found => (new block late).1 ((stretch.found block).mpr (.inl found)), ?_⟩
          exact (new block late).2
      · intro other member
        have later : other ∈ (graph.visitFrom search root).found → other ∈ search.found ∨
            other ∈ order.reverse ++ graph.searchAll (graph.visitFrom search root) rest := by
          intro found
          rcases (stretch.found other).mp found with known | isNew
          · exact .inl known
          · exact .inr (List.mem_append_left _ (List.mem_reverse.mpr isNew))
        rcases List.mem_cons.mp member with rfl | inRest
        · exact later (stretch.roots_found other (List.mem_singleton_self _))
        · rcases listed other inRest with found | inLater
          · exact later found
          · exact .inr (List.mem_append_right _ inLater)

theorem roots_lt {graph : FlowGraph} (closed : graph.Closed) :
    ∀ root ∈ graph.start :: List.range graph.blocks.length, root < graph.blocks.length := by
  intro root member
  rcases List.mem_cons.mp member with rfl | inRange
  · exact closed.start_lt
  · exact List.mem_range.mp inRange

/-- The schedule holds the blocks of the graph. -/
theorem mem_schedule {graph : FlowGraph} (closed : graph.Closed) {block : Nat} :
    block ∈ graph.schedule ↔ block < graph.blocks.length := by
  obtain ⟨-, new, listed⟩ := searchAll_lists closed (roots_lt closed) {}
  constructor
  · exact fun member => (new block member).2
  · intro inside
    have isRoot : block ∈ graph.start :: List.range graph.blocks.length :=
      List.mem_cons_of_mem _ (List.mem_range.mpr inside)
    exact (listed block isRoot).resolve_left List.not_mem_nil

theorem nodup_schedule {graph : FlowGraph} (closed : graph.Closed) : graph.schedule.Nodup :=
  (searchAll_lists closed (roots_lt closed) {}).1

/-- A block reached from the start is scheduled after a block with an edge to it. -/
theorem schedule_source_first {graph : FlowGraph} (closed : graph.Closed) {block : Nat}
    (reachable : block ∈ graph.reachableBlocks) (notStart : block ≠ graph.start) :
    ∃ source earlier later, graph.schedule = earlier ++ later ∧ source ∈ earlier ∧
      block ∈ later ∧ graph.Leads source block := by
  obtain ⟨order, stretch⟩ := stretch_visitFrom closed {} closed.start_lt
  have member : block ∈ order := ((stretch.found block).mp reachable).resolve_left List.not_mem_nil
  obtain ⟨source, left, right, split, inLeft, inRight, leads⟩ :=
    (stretch.from_later block member).resolve_left (fun isRoot => notStart (List.mem_singleton.mp isRoot))
  refine ⟨source, right.reverse,
    left.reverse ++ graph.searchAll (graph.visitFrom {} graph.start) (List.range graph.blocks.length),
    ?_, List.mem_reverse.mpr inRight, List.mem_append_left _ (List.mem_reverse.mpr inLeft), leads⟩
  rw [schedule, searchAll_cons stretch, split, List.reverse_append, List.append_assoc]

end Dalvik.FlowGraph
