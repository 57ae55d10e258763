import Dalvik.Proofs.Flow.Dead

/-!
# Methods that differ in code that is not found

Two methods have the same instructions found from the start, and the others keep to
themselves.  Then both graphs cut what is found into the same blocks: a block of one
method is not cut in the other because a cut where control gets to from found code is
made by found code or by the try table.
-/

namespace Dalvik.FlowGraph

/-- Two methods with one try table whose instructions found from the start are the same
and whose other instructions keep to themselves. -/
structure Twins (pool : Pool) (first second : Code) (graph graph' : FlowGraph) : Prop where
  builds : build first pool = .ok graph
  builds' : build second pool = .ok graph'
  apart : first.Apart
  apart' : second.Apart
  secluded : first.Secluded graph
  secluded' : second.Secluded graph'
  tries : first.tries = second.tries
  found : graph.reachable = graph'.reachable
  instructions : first.instructions.filter (graph.reachable.contains ·.addr) =
    second.instructions.filter (graph'.reachable.contains ·.addr)

variable {pool : Pool} {first second : Code} {graph graph' : FlowGraph}

namespace Twins

theorem symm (twins : Twins pool first second graph graph') :
    Twins pool second first graph' graph :=
  ⟨twins.builds', twins.builds, twins.apart', twins.apart, twins.secluded', twins.secluded,
    twins.tries.symm, twins.found.symm, twins.instructions.symm⟩

theorem built (twins : Twins pool first second graph graph') : Built first graph :=
  build_eq_ok twins.builds

/-- What is found is in both methods. -/
theorem listed (twins : Twins pool first second graph graph') {instruction : Instruction}
    (inFirst : instruction ∈ first.instructions) (reached : instruction.addr ∈ graph.reachable) :
    instruction ∈ second.instructions := by
  have both : instruction ∈ first.instructions.filter (graph.reachable.contains ·.addr) :=
    List.mem_filter.mpr ⟨inFirst, SortedSet.contains_iff_mem.mpr reached⟩
  rw [twins.instructions] at both
  exact (List.mem_filter.mp both).1

/-- Where the second method is cut before an instruction that is found, so is the first,
unless what precedes the instruction there is not found. -/
theorem isCutAt (twins : Twins pool first second graph graph') {addr : Addr}
    (reached : addr ∈ graph.reachable) (cut : second.IsCutAt addr)
    (before : ∀ instruction ∈ second.instructions, instruction.nextAddr = addr →
      instruction.addr ∈ graph.reachable) : first.IsCutAt addr := by
  rcases cut with ⟨instruction, inSecond, cuts⟩ | ⟨item, isItem, cuts⟩
  · have own : instruction.addr ∈ graph.reachable := by
      cases cuts with
      | after leaves => exact before instruction inSecond rfl
      | thrower throws => exact reached
      | target isOffset leads =>
          by_contra lost
          rw [twins.found] at lost reached
          exact twins.secluded' instruction inSecond lost false addr
            (.onward (.jump isOffset leads)) reached
    exact .inl ⟨instruction, twins.symm.listed inSecond (twins.found ▸ own), cuts⟩
  · exact .inr ⟨item, twins.tries ▸ isItem, cuts⟩

/-- Control gets to the later of two neighbours in the second method.  If the first one is
not cut between them, they are neighbours in the second one too, which is not cut there. -/
theorem uncut_of_steps (twins : Twins pool first second graph graph')
    {earlier later source : Instruction} {caught : Bool}
    (pair : [earlier, later] <:+: first.instructions) (inside : ¬ first.IsCutAt later.addr)
    (reached : earlier.addr ∈ graph.reachable) (reached' : later.addr ∈ graph.reachable)
    (listed : source ∈ second.instructions) (sourceReached : source.addr ∈ graph'.reachable)
    (steps : second.Steps source caught later.addr) :
    [earlier, later] <:+: second.instructions ∧ ¬ second.IsCutAt later.addr := by
  have sourceIn := twins.symm.listed listed sourceReached
  cases steps with
  | caught catches =>
      obtain ⟨-, item, isItem, -, handler, isHandler, same⟩ := catches
      exact absurd (.inr ⟨item, twins.tries ▸ isItem, .inr (.inr ⟨handler, isHandler, same⟩)⟩) inside
  | onward continues =>
      generalize target : later.addr = addr at continues
      cases continues with
      | jump isOffset leads =>
          exact absurd (.inl ⟨source, sourceIn, .target isOffset leads⟩) (target ▸ inside)
      | next falls =>
          -- The instruction that falls through to it is the earlier one.
          obtain rfl := twins.apart.eq_of_neighbours pair sourceIn target
          have laterIn := twins.listed (pair.subset (by simp)) reached'
          have pair' := twins.apart'.neighbours_of_next listed laterIn target
          refine ⟨pair', target ▸ fun cut => inside ?_⟩
          refine twins.isCutAt reached' (target ▸ cut) fun other otherIn follows => ?_
          rwa [twins.apart'.eq_of_nextAddr otherIn listed (follows.trans target)]

/-- Neighbours in a block that is found are neighbours in a block of the other graph. -/
theorem neighbours (twins : Twins pool first second graph graph') {earlier later : Instruction}
    (reached : earlier.addr ∈ graph.reachable) (reached' : later.addr ∈ graph.reachable)
    (together : ∃ block ∈ graph.blocks, [earlier, later] <:+: block.instructions) :
    ∃ block ∈ graph'.blocks, [earlier, later] <:+: block.instructions := by
  have built' := twins.symm.built
  obtain ⟨pair, inside⟩ := (twins.built.neighbours earlier later).mp together
  have earlierIn := twins.listed (pair.subset List.mem_cons_self) reached
  have laterIn := twins.listed (pair.subset (by simp)) reached'
  obtain ⟨number, block, place, found, inBlock⟩ :=
    built'.exists_block twins.apart'.distinct laterIn (twins.found ▸ reached')
  have isBlock := List.mem_of_getElem? place
  rcases head_or_neighbour inBlock with head | ⟨previous, pair'⟩
  · -- A block of the second graph starts at the later instruction, so control gets there.
    have starts : block.start = later.addr := by rw [Block.start, head, Option.elim_some]
    have steps := built'.exists_step_to twins.apart'.distinct place found
    rw [starts] at steps
    rcases steps with atZero | ⟨source, listed, sourceReached, caught, steps⟩
    · have size := earlier.addr_lt_nextAddr
      have order := (twins.apart.neighbours pair (pair.subset List.mem_cons_self)).1
      lia
    · exact (built'.neighbours earlier later).mpr
        (twins.uncut_of_steps pair inside reached reached' listed sourceReached steps)
  · have previousIn := built'.mem_instructions.mpr ⟨block, isBlock, pair'.subset List.mem_cons_self⟩
    have previousReached :=
      (built'.mem_reachable_iff_finds twins.apart'.distinct place
        (pair'.subset List.mem_cons_self)).mpr found
    obtain ⟨inCode', -⟩ := (built'.neighbours previous later).mp ⟨block, isBlock, pair'⟩
    obtain rfl := twins.apart.eq_of_neighbours_both twins.apart' pair inCode'
      (twins.symm.listed previousIn previousReached) earlierIn
    exact ⟨block, isBlock, pair'⟩

end Twins

def foundRuns (graph : FlowGraph) : List (List Instruction) :=
  (graph.blocks.filter (graph.reachable.contains ·.start)).map Block.instructions

/-- Instructions of blocks are found where each block is found as a whole. -/
theorem filter_flatMap_instructions {found : Addr → Bool} {blocks : List Block}
    (whole : ∀ block ∈ blocks, ∀ instruction ∈ block.instructions,
      found instruction.addr = found block.start) :
    (blocks.flatMap Block.instructions).filter (found ·.addr) =
      ((blocks.filter (found ·.start)).map Block.instructions).flatten := by
  induction blocks with
  | nil => rfl
  | cons block rest ih =>
      obtain ⟨here, others⟩ := List.forall_mem_cons.mp whole
      rw [List.flatMap_cons, List.filter_append, ih others]
      cases start : found block.start with
      | true =>
          simp only [List.filter_cons, start, if_true, List.map_cons, List.flatten_cons]
          rw [List.filter_eq_self.mpr fun instruction member => (here instruction member).trans start]
      | false =>
          simp only [List.filter_cons, start, Bool.false_eq_true, if_false]
          rw [List.filter_eq_nil_iff.mpr, List.nil_append]
          intro instruction member
          simp [here instruction member, start]

namespace Built

variable {code : Code}

/-- Two instructions of a block are found together. -/
theorem contains_start (built : Built code graph)
    (distinct : (code.instructions.map Instruction.addr).Nodup) {block : Block}
    (isBlock : block ∈ graph.blocks) {instruction : Instruction}
    (inBlock : instruction ∈ block.instructions) :
    graph.reachable.contains instruction.addr = graph.reachable.contains block.start := by
  obtain ⟨number, place⟩ := List.getElem?_of_mem isBlock
  obtain ⟨head, inHead, atStart⟩ := built.exists_start isBlock
  rw [← atStart, Bool.eq_iff_iff, SortedSet.contains_iff_mem, SortedSet.contains_iff_mem,
    built.mem_reachable_iff_finds distinct place inBlock,
    built.mem_reachable_iff_finds distinct place inHead]

/-- The runs found are what is found of the code, split where neighbours are in no block
together. -/
theorem splitBy_eq_foundRuns (built : Built code graph)
    (distinct : (code.instructions.map Instruction.addr).Nodup)
    {together : Instruction → Instruction → Bool}
    (blocks : ∀ earlier later, earlier.addr ∈ graph.reachable → later.addr ∈ graph.reachable →
      (together earlier later = true ↔
        ∃ block ∈ graph.blocks, [earlier, later] <:+: block.instructions)) :
    (code.instructions.filter (graph.reachable.contains ·.addr)).splitBy together =
      graph.foundRuns := by
  have reached : ∀ block ∈ graph.blocks, graph.reachable.contains block.start = true →
      ∀ instruction ∈ block.instructions, instruction.addr ∈ graph.reachable := by
    intro block isBlock found instruction inBlock
    rw [← SortedSet.contains_iff_mem, built.contains_start distinct isBlock inBlock, found]
  refine List.splitBy_eq_iff.mpr ⟨?_, ?_, ?_, ?_⟩
  · rw [← built.instructions]
    exact filter_flatMap_instructions fun block isBlock _ => built.contains_start distinct isBlock
  · intro member
    obtain ⟨block, listed, empty⟩ := List.mem_map.mp member
    exact built.nonempty block (List.mem_filter.mp listed).1 empty
  · intro run member
    obtain ⟨block, listed, rfl⟩ := List.mem_map.mp member
    obtain ⟨isBlock, found⟩ := List.mem_filter.mp listed
    refine List.isChain_iff_forall_rel_of_append_cons_cons.mpr fun earlier later before after split => ?_
    have pair : [earlier, later] <:+: block.instructions := ⟨before, after, by simp [split]⟩
    exact (blocks earlier later (reached block isBlock found _ (pair.subset (by simp)))
      (reached block isBlock found _ (pair.subset (by simp)))).mpr ⟨block, isBlock, pair⟩
  · have nodup : code.instructions.Nodup := distinct.of_map
    have disjoint := nodup
    rw [← built.instructions, List.nodup_flatMap] at disjoint
    refine (List.pairwise_map.mpr ((disjoint.2.filter _).imp_of_mem ?_)).isChain
    intro block next listed listed' separate
    obtain ⟨isBlock, found⟩ := List.mem_filter.mp listed
    obtain ⟨isNext, found'⟩ := List.mem_filter.mp listed'
    have some := built.nonempty block isBlock
    have some' := built.nonempty next isNext
    refine ⟨some, some', Bool.eq_false_iff.mpr fun joined => ?_⟩
    have inBlock := List.getLast_mem some
    have inNext := List.head_mem some'
    obtain ⟨other, isOther, pair⟩ := (blocks _ _ (reached block isBlock found _ inBlock)
      (reached next isNext found' _ inNext)).mp joined
    obtain ⟨number, place⟩ := List.getElem?_of_mem isBlock
    obtain ⟨number', place'⟩ := List.getElem?_of_mem isOther
    obtain rfl := built.block_unique nodup place place' inBlock (pair.subset (by simp))
    obtain rfl := Option.some.inj (place.symm.trans place')
    exact separate (pair.subset (by simp)) inNext

end Built

def SameBlock (graph graph' : FlowGraph) (number other : Nat) : Prop :=
  graph.finds number = true ∧ graph'.finds other = true ∧
    graph.blocks[number]? = graph'.blocks[other]?

theorem Closed.exists_block (closed : graph.Closed) {number : Nat}
    (found : graph.finds number = true) : ∃ block, graph.blocks[number]? = some block := by
  have inside := reaches_lt closed closed.start_lt
    ((mem_reachableBlocks closed).mp (finds_iff.mp found))
  exact ⟨_, List.getElem?_eq_getElem inside⟩

namespace Twins

/-- Both graphs have the same runs of instructions found. -/
theorem foundRuns_eq (twins : Twins pool first second graph graph') :
    graph.foundRuns = graph'.foundRuns := by
  classical
  let together := fun earlier later : Instruction =>
    decide (∃ block ∈ graph.blocks, [earlier, later] <:+: block.instructions)
  rw [← @Built.splitBy_eq_foundRuns _ _ twins.built twins.apart.distinct together,
    ← @Built.splitBy_eq_foundRuns _ _ twins.symm.built twins.apart'.distinct together,
    twins.instructions]
  · intro earlier later reached reached'
    rw [← twins.found] at reached reached'
    rw [decide_eq_true_iff]
    exact ⟨twins.neighbours reached reached',
      twins.symm.neighbours (twins.found ▸ reached) (twins.found ▸ reached')⟩
  · exact fun earlier later _ _ => decide_eq_true_iff

/-- A block found in one graph is found in the other. -/
theorem exists_sameBlock (twins : Twins pool first second graph graph') {number : Nat}
    (found : graph.finds number = true) : ∃ other, SameBlock graph graph' number other := by
  have built := twins.built
  have built' := twins.symm.built
  obtain ⟨block, place⟩ := built.closed.exists_block found
  have isBlock := List.mem_of_getElem? place
  obtain ⟨head, inBlock, atStart⟩ := built.exists_start isBlock
  have reached := (built.mem_reachable_iff_finds twins.apart.distinct place inBlock).mpr found
  have isRun : block.instructions ∈ graph.foundRuns := by
    refine List.mem_map.mpr ⟨block, List.mem_filter.mpr ⟨isBlock, ?_⟩, rfl⟩
    rwa [← atStart, SortedSet.contains_iff_mem]
  rw [twins.foundRuns_eq] at isRun
  obtain ⟨⟨_⟩, listed, rfl⟩ := List.mem_map.mp isRun
  obtain ⟨other, place'⟩ := List.getElem?_of_mem (List.mem_filter.mp listed).1
  refine ⟨other, found, ?_, place.trans place'.symm⟩
  exact (built'.mem_reachable_iff_finds twins.apart'.distinct place' inBlock).mp
    (twins.found ▸ reached)

/-- Blocks found that start at one address are the same. -/
theorem sameBlock_of_start (twins : Twins pool first second graph graph') {number other : Nat}
    {block block' : Block} (found : graph.finds number = true)
    (place : graph.blocks[number]? = some block) (place' : graph'.blocks[other]? = some block')
    (starts : block.start = block'.start) : SameBlock graph graph' number other := by
  obtain ⟨twin, same⟩ := twins.exists_sameBlock found
  have placeTwin : graph'.blocks[twin]? = some block := by rw [← same.2.2, place]
  rwa [← twins.symm.built.number_unique twins.apart'.distinct placeTwin place' starts]

theorem leftUnique (twins : Twins pool first second graph graph') :
    Relator.LeftUnique (SameBlock graph graph') := by
  intro number number' other same same'
  obtain ⟨block, place⟩ := twins.built.closed.exists_block same.1
  have place' : graph.blocks[number']? = some block := by rw [same'.2.2, ← same.2.2, place]
  exact twins.built.number_unique twins.apart.distinct place place' rfl

/-- The graphs are paired by the blocks that are the same. -/
theorem paired (twins : Twins pool first second graph graph') :
    Paired graph graph' (SameBlock graph graph') where
  unique := by
    refine ⟨twins.leftUnique, fun number other other' same same' => ?_⟩
    exact twins.symm.leftUnique ⟨same.2.1, same.1, same.2.2.symm⟩
      ⟨same'.2.1, same'.1, same'.2.2.symm⟩
  left number := ⟨twins.exists_sameBlock, fun ⟨_, same⟩ => same.1⟩
  right other := by
    refine ⟨fun found => ?_, fun ⟨_, same⟩ => same.2.1⟩
    obtain ⟨number, same⟩ := twins.symm.exists_sameBlock found
    exact ⟨number, same.2.1, same.1, same.2.2.symm⟩
  blocks number other same := same.2.2
  start := by
    obtain ⟨block, place, atZero⟩ := twins.built.start
    obtain ⟨block', place', atZero'⟩ := twins.symm.built.start
    refine twins.sameBlock_of_start ?_ place place' (atZero.trans atZero'.symm)
    exact finds_iff.mpr ((mem_reachableBlocks twins.built.closed).mpr .refl)
  edges number other same := by
    obtain ⟨block, place⟩ := twins.built.closed.exists_block same.1
    have place' : graph'.blocks[other]? = some block := by rw [← same.2.2, place]
    have agree := blockEdges_agree twins.tries (build_edges twins.builds place)
      (build_edges twins.builds' place')
    have goesOn : ∀ edge ∈ graph.edges.filter (·.source == number),
        graph.finds edge.target = true := by
      intro edge listed
      obtain ⟨isEdge, source⟩ := List.mem_filter.mp listed
      exact twins.built.finds_target isEdge (eq_of_beq source ▸ same.1)
    refine ((List.forall₂_and_left _ _).mpr ⟨goesOn, agree⟩).imp ?_
    rintro edge twin ⟨found, branch, target, target', placeTarget, placeTarget', starts⟩
    exact ⟨branch, twins.sameBlock_of_start found placeTarget placeTarget' starts⟩

/-- A target that is found is one in the other graph too. -/
theorem mem_targets (twins : Twins pool first second graph graph') {addr : Addr}
    (reached : addr ∈ graph.reachable) (member : addr ∈ graph.targets) :
    addr ∈ graph'.targets := by
  rw [FlowGraph.mem_targets twins.builds] at member
  rw [FlowGraph.mem_targets twins.builds', ← twins.tries]
  refine member.imp_left ?_
  rintro ⟨instruction, listed, branching, continues⟩
  have own : instruction.addr ∈ graph.reachable := by
    by_contra lost
    exact twins.secluded instruction listed lost false addr (.onward continues) reached
  exact ⟨instruction, twins.listed listed own, branching, continues⟩

/-- What is found is a target in both graphs or in none. -/
theorem isTarget (twins : Twins pool first second graph graph') {addr : Addr}
    (reached : addr ∈ graph.reachable) : graph.isTarget addr = graph'.isTarget addr := by
  rw [FlowGraph.isTarget, FlowGraph.isTarget, Bool.eq_iff_iff, SortedSet.contains_iff_mem,
    SortedSet.contains_iff_mem]
  exact ⟨twins.mem_targets reached, twins.symm.mem_targets (twins.found ▸ reached)⟩

end Twins

end Dalvik.FlowGraph
