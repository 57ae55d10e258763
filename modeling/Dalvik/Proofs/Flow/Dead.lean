import Dalvik.Proofs.Flow.Paired
import Dalvik.Proofs.Flow.Reachability
import Mathlib.Data.List.SplitBy

/-!
# Code that is not found from the start

Two methods may have the same instructions found from the start and differ in the
others.  If these keep to themselves, the blocks found are the same, with the same
edges between them: the two graphs are paired.
-/

namespace Dalvik

/-- An instruction that is not found from the start leads to none that is. -/
def Code.Secluded (code : Code) (graph : FlowGraph) : Prop :=
  ∀ instruction ∈ code.instructions, instruction.addr ∉ graph.reachable →
    ∀ caught addr, code.Steps instruction caught addr → addr ∉ graph.reachable

namespace Code.Apart

variable {code : Code}

/-- An instruction that has one at the address after it is followed by it. -/
theorem head_eq_next (apart : code.Apart) {earlier later : List Instruction}
    {instruction next : Instruction} (split : code.instructions = earlier ++ instruction :: later)
    (listed : next ∈ code.instructions) (follows : next.addr = instruction.nextAddr) :
    later.head? = some next := by
  have size := instruction.addr_lt_nextAddr
  have nextSize := next.addr_lt_nextAddr
  cases later with
  | nil =>
      have ordered := apart
      unfold Code.Apart at ordered
      rw [split, List.pairwise_append] at ordered
      rw [split] at listed
      rcases List.mem_append.mp listed with before | own
      · have ends := ordered.2.2 next before instruction (List.mem_singleton_self _)
        lia
      · obtain rfl := List.mem_singleton.mp own
        lia
  | cons other rest =>
      have pair : [instruction, other] <:+: code.instructions := ⟨earlier, rest, by simp [split]⟩
      have after := apart.neighbour_addr pair
        (Code.hasInstruction_iff.mpr ⟨next, listed, follows⟩)
      rw [apart.eq_of_addr (pair.subset (by simp)) listed (after.trans follows.symm)]
      rfl

/-- An instruction and the one at the address after it are neighbours. -/
theorem neighbours_of_next (apart : code.Apart) {instruction next : Instruction}
    (listed : instruction ∈ code.instructions) (listed' : next ∈ code.instructions)
    (follows : next.addr = instruction.nextAddr) : [instruction, next] <:+: code.instructions := by
  obtain ⟨earlier, later, split⟩ := List.append_of_mem listed
  obtain ⟨rest, rfl⟩ := List.head?_eq_some_iff.mp (apart.head_eq_next split listed' follows)
  exact ⟨earlier, rest, by simp [split]⟩

/-- An instruction is determined by the address after it. -/
theorem eq_of_nextAddr (apart : code.Apart) {instruction other : Instruction}
    (listed : instruction ∈ code.instructions) (listed' : other ∈ code.instructions)
    (same : instruction.nextAddr = other.nextAddr) : instruction = other := by
  have size := instruction.addr_lt_nextAddr
  have otherSize := other.addr_lt_nextAddr
  rcases apart.compare listed listed' with same | before | after
  · exact same
  · lia
  · lia

/-- The instruction that ends where the second of two neighbours begins is the first. -/
theorem eq_of_neighbours (apart : code.Apart) {earlier later instruction : Instruction}
    (pair : [earlier, later] <:+: code.instructions) (listed : instruction ∈ code.instructions)
    (follows : later.addr = instruction.nextAddr) : instruction = earlier := by
  have size := instruction.addr_lt_nextAddr
  have earlierSize := earlier.addr_lt_nextAddr
  have laterSize := later.addr_lt_nextAddr
  obtain ⟨ends, before | same | same | after⟩ := apart.neighbours pair listed
  · lia
  · exact same
  · lia
  · lia

/-- Two codes that have the instructions before a common one have the same before it. -/
theorem eq_of_neighbours_both {other : Code} (apart : code.Apart) (apart' : other.Apart)
    {earlier previous later : Instruction} (pair : [earlier, later] <:+: code.instructions)
    (pair' : [previous, later] <:+: other.instructions) (listed : previous ∈ code.instructions)
    (listed' : earlier ∈ other.instructions) : previous = earlier := by
  have earlierSize := earlier.addr_lt_nextAddr
  have previousSize := previous.addr_lt_nextAddr
  have laterSize := later.addr_lt_nextAddr
  obtain ⟨ends', position⟩ := apart'.neighbours pair' listed'
  obtain ⟨ends, before | same | same | after⟩ := apart.neighbours pair listed
  · -- It is before the earlier one in the first code, so not next to the later one in the second.
    rcases position with before' | same | same | after'
    · lia
    · exact same.symm
    · lia
    · lia
  · exact same
  · lia
  · lia

end Code.Apart

namespace FlowGraph

/-! ### Ways out -/

section Ways

variable {first second : Code} {pool : Pool} {instruction : Instruction}
  {ways ways' : List (Branch × Addr)}

theorem jumpTarget_agree {offset : Int32} {target target' : Addr}
    (found : jumpTarget first instruction offset = .ok target)
    (found' : jumpTarget second instruction offset = .ok target') : target = target' :=
  Option.some.inj ((jumpTarget_eq_ok.mp found).1.symm.trans (jumpTarget_eq_ok.mp found').1)

theorem fallthrough_agree {next next' : Addr} (falls : fallthrough first instruction = .ok next)
    (falls' : fallthrough second instruction = .ok next') : next = next' :=
  (fallthrough_eq_ok.mp falls).1.trans (fallthrough_eq_ok.mp falls').1.symm

theorem caseBranches_agree {cases : List (Int32 × Int32)}
    (success : caseBranches first instruction cases = .ok ways)
    (success' : caseBranches second instruction cases = .ok ways') : ways = ways' := by
  induction cases generalizing ways ways' with
  | nil => exact (Except.ok.inj success).symm.trans (Except.ok.inj success')
  | cons head rest ih =>
      simp only [caseBranches, bind_eq_ok, pure_eq_ok] at success success'
      obtain ⟨target, found, others, more, rfl⟩ := success
      obtain ⟨target', found', others', more', rfl⟩ := success'
      rw [jumpTarget_agree found found', ih more more']

theorem comparison_agree {offset : Int32}
    (success : (do
      let target ← jumpTarget first instruction offset
      let next ← fallthrough first instruction
      return [(.ifTrue, target), (.ifFalse, next)]) = Except.ok ways)
    (success' : (do
      let target ← jumpTarget second instruction offset
      let next ← fallthrough second instruction
      return [(.ifTrue, target), (.ifFalse, next)]) = Except.ok ways') : ways = ways' := by
  simp only [bind_eq_ok, pure_eq_ok] at success success'
  obtain ⟨target, found, next, falls, rfl⟩ := success
  obtain ⟨target', found', next', falls', rfl⟩ := success'
  rw [jumpTarget_agree found found', fallthrough_agree falls falls']

/-- The branches of an instruction do not depend on the other instructions. -/
theorem branches_agree (success : branches first instruction = .ok ways)
    (success' : branches second instruction = .ok ways') : ways = ways' := by
  unfold branches at success success'
  split at success
  · rename_i offset family given
    simp only [family, given, bind_eq_ok, pure_eq_ok] at success success'
    obtain ⟨target, found, rfl⟩ := success
    obtain ⟨target', found', rfl⟩ := success'
    rw [jumpTarget_agree found found']
  · rename_i offset family given
    rw [family, given] at success'
    exact comparison_agree success success'
  · rename_i offset family given
    rw [family, given] at success'
    exact comparison_agree success success'
  · rename_i offset family given
    rw [family, given] at success'
    cases table : instruction.payload with
    | none => simp [table, malformed] at success
    | some payload =>
        simp only [table, bind_eq_ok, pure_eq_ok] at success success'
        obtain ⟨next, falls, cases, others, rfl⟩ := success
        obtain ⟨next', falls', cases', others', rfl⟩ := success'
        rw [fallthrough_agree falls falls', caseBranches_agree others others']
  · split at success' <;> simp_all

theorem continuations_agree (success : continuations first instruction = .ok ways)
    (success' : continuations second instruction = .ok ways') : ways = ways' := by
  simp only [continuations, bind_eq_ok] at success success'
  obtain ⟨own, branch, success⟩ := success
  obtain ⟨own', branch', success'⟩ := success'
  obtain rfl := branches_agree branch branch'
  split at success
  · rename_i falls
    rw [if_pos falls] at success'
    simp only [bind_eq_ok, pure_eq_ok] at success success'
    obtain ⟨next, follows, rfl⟩ := success
    obtain ⟨next', follows', rfl⟩ := success'
    rw [fallthrough_agree follows follows']
  · rename_i leaves
    rw [if_neg leaves] at success'
    exact (pure_eq_ok.mp success).symm.trans (pure_eq_ok.mp success')

/-- The ways to handlers depend on the try table only. -/
theorem catches_agree (tries : first.tries = second.tries)
    (success : catches first pool instruction = .ok ways)
    (success' : catches second pool instruction = .ok ways') : ways = ways' := by
  unfold catches at success success'
  rw [← tries] at success'
  split at success
  · rename_i throws
    rw [if_pos throws] at success'
    have same := @forall₂_of_mapM_eq_ok _ _ _ _ _ _ Eq _ _ _ success success' ?_
    · rwa [List.forall₂_eq_eq_eq] at same
    · intro handler way way' done done'
      obtain ⟨-, -, inside⟩ := handlerWay_eq_ok done
      have present := (handlerWay_eq_ok done).2.1 ▸ inside
      have present' := (handlerWay_eq_ok done').2.1 ▸ (handlerWay_eq_ok done').2.2
      rw [if_pos present] at done
      rw [if_pos present'] at done'
      exact Except.ok.inj (done.symm.trans done')
  · rename_i quiet
    rw [if_neg quiet] at success'
    exact (Except.ok.inj success).symm.trans (Except.ok.inj success')

/-- The ways out of an instruction depend on the try table only. -/
theorem exits_agree (tries : first.tries = second.tries)
    (success : exits first pool instruction = .ok ways)
    (success' : exits second pool instruction = .ok ways') : ways = ways' := by
  simp only [exits, bind_eq_ok, pure_eq_ok] at success success'
  obtain ⟨onward, goes, handled, throws, rfl⟩ := success
  obtain ⟨onward', goes', handled', throws', rfl⟩ := success'
  rw [continuations_agree goes goes', catches_agree tries throws throws']

end Ways

/-! ### The edges out of one block -/

section Edges

variable {code first second : Code} {pool : Pool} {blocks blocks' : List Block} {edges edges' : List Edge}

/-- The edges out of a block are those that are made for it. -/
theorem edgesFrom_filter {list : List Block} {base index : Nat} {block : Block}
    (success : edgesFrom code pool blocks base list = .ok edges)
    (place : list[index]? = some block) :
    blockEdges code pool blocks (base + index) block =
      .ok (edges.filter (·.source == base + index)) := by
  induction list generalizing base index edges with
  | nil => simp at place
  | cons head rest ih =>
      simp only [edgesFrom, bind_eq_ok, pure_eq_ok] at success
      obtain ⟨own, made, others, more, rfl⟩ := success
      have ownSource : ∀ edge ∈ own, edge.source = base :=
        fun edge member => ((blockEdges_eq_ok made).1 edge member).1
      rw [List.filter_append]
      cases index with
      | zero =>
          obtain rfl := Option.some.inj place
          have none : others.filter (·.source == base + 0) = [] := by
            refine List.filter_eq_nil_iff.mpr fun edge member => ?_
            obtain ⟨index, source, last, target, number, -⟩ := (edgesFrom_eq_ok more).1 edge member
            simp only [number, beq_iff_eq]
            omega
          rw [none, List.append_nil, List.filter_eq_self.mpr, Nat.add_zero, made]
          simpa using ownSource
      | succ index =>
          have none : own.filter (·.source == base + (index + 1)) = [] := by
            refine List.filter_eq_nil_iff.mpr fun edge member => ?_
            simp only [ownSource edge member, beq_iff_eq]
            omega
          rw [none, List.nil_append, ← Nat.add_assoc, Nat.add_right_comm]
          exact ih more place

theorem build_edges {graph : FlowGraph} (success : build code pool = .ok graph) {number : Nat}
    {block : Block} (place : graph.blocks[number]? = some block) :
    blockEdges code pool graph.blocks number block =
      .ok (graph.edges.filter (·.source == number)) := by
  unfold build at success
  split at success
  · cases success
  · simp only [bind_eq_ok, pure_eq_ok] at success
    obtain ⟨cuts, -, edges, leave, start, -, rfl⟩ := success
    have made := edgesFrom_filter leave place
    rwa [Nat.zero_add] at made

/-- The edges out of one block in two codes: the same branches, to blocks that start at
the same addresses. -/
theorem blockEdges_agree (tries : first.tries = second.tries) {block : Block} {number other : Nat}
    (success : blockEdges first pool blocks number block = .ok edges)
    (success' : blockEdges second pool blocks' other block = .ok edges') :
    List.Forall₂ (fun edge twin => edge.branch = twin.branch ∧ ∃ target target',
      blocks[edge.target]? = some target ∧ blocks'[twin.target]? = some target' ∧
        target.start = target'.start) edges edges' := by
  unfold blockEdges at success success'
  split at success <;> rename_i isLast
  · rw [isLast] at success'
    obtain rfl := Except.ok.inj success
    obtain rfl := Except.ok.inj success'
    exact .nil
  · rw [isLast] at success'
    simp only [bind_eq_ok] at success success'
    obtain ⟨ways, leaves, success⟩ := success
    obtain ⟨ways', leaves', success'⟩ := success'
    obtain rfl := exits_agree tries leaves leaves'
    refine forall₂_of_mapM_eq_ok success success' ?_
    rintro ⟨branch, addr⟩ edge twin done done'
    simp only [bind_eq_ok, pure_eq_ok] at done done'
    obtain ⟨target, leads, rfl⟩ := done
    obtain ⟨target', leads', rfl⟩ := done'
    obtain ⟨found, place, rfl⟩ := blockAt_eq_ok leads
    obtain ⟨found', place', same⟩ := blockAt_eq_ok leads'
    exact ⟨rfl, found, found', place, place', same.symm⟩

end Edges

/-! ### Where branches lead -/

section Targets

variable {code : Code}

/-- The addresses that branches lead to, without those that control only falls to. -/
theorem addInstruction_targets {before after : Cuts} {instruction : Instruction}
    (success : Cuts.addInstruction code before instruction = .ok after) (addr : Addr) :
    addr ∈ after.targets ↔
      addr ∈ before.targets ∨ (instruction.isBranching = true ∧ instruction.Continues addr) := by
  simp only [Cuts.addInstruction, bind_eq_ok] at success
  obtain ⟨ways, own, success⟩ := success
  have targets : after.targets = (ways.map Prod.snd).foldl SortedSet.insert before.targets := by
    split at success
    · simp only [bind_eq_ok, pure_eq_ok] at success
      obtain ⟨next, -, rfl⟩ := success
      rfl
    · obtain rfl := pure_eq_ok.mp success
      rfl
  obtain ⟨none, led⟩ := branches_eq_ok own
  rw [targets, SortedSet.mem_foldl_insert]
  refine or_congr_right ?_
  simp only [List.mem_map, Prod.exists, exists_eq_right, led]
  constructor
  · rintro (⟨branching, falls, rfl⟩ | ⟨offset, listed, leads⟩)
    · exact ⟨branching, .next falls⟩
    · refine ⟨?_, .jump listed leads⟩
      by_contra notBranching
      simp [jumpOffsets_of_not_branching (Bool.eq_false_iff.mpr notBranching)] at listed
  · rintro ⟨branching, continues⟩
    cases continues with
    | next falls => exact .inl ⟨branching, falls, rfl⟩
    | jump listed leads => exact .inr ⟨_, listed, leads⟩

theorem addInstructions_targets {list : List Instruction} {before after : Cuts}
    (success : list.foldlM (Cuts.addInstruction code) before = .ok after) (addr : Addr) :
    addr ∈ after.targets ↔ addr ∈ before.targets ∨
      ∃ instruction ∈ list, instruction.isBranching = true ∧ instruction.Continues addr := by
  induction list generalizing before with
  | nil =>
      obtain rfl := pure_eq_ok.mp success
      simp
  | cons first rest ih =>
      rw [List.foldlM_cons, bind_eq_ok] at success
      obtain ⟨middle, added, more⟩ := success
      rw [ih more, addInstruction_targets added, or_assoc, List.exists_mem_cons_iff]

theorem addTries_targets {items : List TryItem} {cuts : Cuts} {addr : Addr} :
    addr ∈ (items.foldl Cuts.addTry cuts).targets ↔
      addr ∈ cuts.targets ∨ ∃ item ∈ items, ∃ handler ∈ item.handlers, handler.addr = addr := by
  induction items generalizing cuts with
  | nil => simp
  | cons first rest ih =>
      rw [List.foldl_cons, ih, List.exists_mem_cons_iff, ← or_assoc]
      simp only [Cuts.addTry, SortedSet.mem_foldl_insert, List.mem_map]

/-- The targets of a built graph are where its branching instructions go on and where
the handlers are. -/
theorem mem_targets {pool : Pool} {graph : FlowGraph} (success : build code pool = .ok graph)
    {addr : Addr} : addr ∈ graph.targets ↔
      (∃ instruction ∈ code.instructions,
        instruction.isBranching = true ∧ instruction.Continues addr) ∨
      ∃ item ∈ code.tries, ∃ handler ∈ item.handlers, handler.addr = addr := by
  unfold build at success
  split at success
  · cases success
  · simp only [bind_eq_ok, pure_eq_ok, Cuts.ofCode] at success
    obtain ⟨cuts, ⟨middle, added, rfl⟩, edges, -, start, -, rfl⟩ := success
    rw [addTries_targets, addInstructions_targets added]
    exact or_congr_left (or_iff_right List.not_mem_nil)

theorem branches_of_addInstructions {list : List Instruction} {before after : Cuts}
    (success : list.foldlM (Cuts.addInstruction code) before = .ok after) :
    ∀ instruction ∈ list, ∃ ways, branches code instruction = .ok ways := by
  induction list generalizing before with
  | nil => exact fun _ member => by cases member
  | cons first rest ih =>
      rw [List.foldlM_cons, bind_eq_ok] at success
      obtain ⟨middle, added, more⟩ := success
      simp only [Cuts.addInstruction, bind_eq_ok] at added
      obtain ⟨ways, own, -⟩ := added
      exact List.forall_mem_cons.mpr ⟨⟨ways, own⟩, ih more⟩

/-- Branches lead to instructions, which are targets. -/
theorem target_of_branch {pool : Pool} {graph : FlowGraph}
    (success : build code pool = .ok graph) {instruction : Instruction}
    (listed : instruction ∈ code.instructions) (branching : instruction.isBranching = true)
    {target : Addr} (continues : instruction.Continues target) :
    code.hasInstruction target = true ∧ graph.isTarget target = true := by
  refine ⟨?_, SortedSet.contains_iff_mem.mpr
    ((mem_targets success).mpr (.inl ⟨instruction, listed, branching, continues⟩))⟩
  obtain ⟨ways, own⟩ : ∃ ways, branches code instruction = .ok ways := by
    unfold build at success
    split at success
    · cases success
    · simp only [bind_eq_ok, pure_eq_ok, Cuts.ofCode] at success
      obtain ⟨cuts, ⟨middle, added, rfl⟩, -⟩ := success
      exact branches_of_addInstructions added instruction listed
  obtain ⟨branch, isWay⟩ : ∃ branch, (branch, target) ∈ ways := by
    refine ((branches_eq_ok own).2 target).mpr ?_
    cases continues with
    | next falls => exact .inl ⟨branching, falls, rfl⟩
    | jump isOffset leads => exact .inr ⟨_, isOffset, leads⟩
  exact (branches_stay own _ isWay).2

end Targets

/-! ### What is found of one graph -/

namespace Built

variable {code : Code} {graph : FlowGraph}

/-- An instruction is found with its block. -/
theorem mem_reachable_iff_finds (built : Built code graph)
    (distinct : (code.instructions.map Instruction.addr).Nodup) {number : Nat} {block : Block}
    {instruction : Instruction} (place : graph.blocks[number]? = some block)
    (inBlock : instruction ∈ block.instructions) :
    instruction.addr ∈ graph.reachable ↔ graph.finds number = true := by
  have listed := built.mem_instructions.mpr ⟨block, List.mem_of_getElem? place, inBlock⟩
  rw [mem_reachable built.closed, finds_iff, mem_reachableBlocks built.closed]
  constructor
  · rintro ⟨other, block', path, place', instruction', inBlock', same⟩
    have listed' := built.mem_instructions.mpr ⟨block', List.mem_of_getElem? place', inBlock'⟩
    obtain rfl := List.inj_on_of_nodup_map distinct listed' listed same
    rwa [← built.block_unique distinct.of_map place' place inBlock' inBlock]
  · exact fun path => ⟨number, block, path, place, instruction, inBlock, rfl⟩

/-- A block is determined by the address at which it starts. -/
theorem number_unique (built : Built code graph)
    (distinct : (code.instructions.map Instruction.addr).Nodup) {first second : Nat}
    {block block' : Block} (place : graph.blocks[first]? = some block)
    (place' : graph.blocks[second]? = some block') (same : block.start = block'.start) :
    first = second := by
  obtain ⟨head, inBlock, atStart⟩ := built.exists_start (List.mem_of_getElem? place)
  obtain ⟨head', inBlock', atStart'⟩ := built.exists_start (List.mem_of_getElem? place')
  obtain rfl := List.inj_on_of_nodup_map distinct
    (built.mem_instructions.mpr ⟨block, List.mem_of_getElem? place, inBlock⟩)
    (built.mem_instructions.mpr ⟨block', List.mem_of_getElem? place', inBlock'⟩)
    (atStart.trans (same.trans atStart'.symm))
  exact built.block_unique distinct.of_map place place' inBlock inBlock'

/-- Instructions that keep to themselves are in blocks that do. -/
theorem secluded (built : Built code graph)
    (distinct : (code.instructions.map Instruction.addr).Nodup) (secluded : code.Secluded graph) :
    graph.Secluded := by
  intro edge isEdge found
  obtain ⟨source, last, target, placeSource, isLast, placeTarget, steps⟩ :=
    built.edge_steps edge isEdge
  obtain ⟨head, inTarget, atStart⟩ := built.exists_start (List.mem_of_getElem? placeTarget)
  have inSource := List.mem_of_getLast? isLast
  have reached := (built.mem_reachable_iff_finds distinct placeTarget inTarget).mpr found
  rw [← built.mem_reachable_iff_finds distinct placeSource inSource]
  by_contra lost
  refine secluded last (built.mem_instructions.mpr ⟨source, List.mem_of_getElem? placeSource, inSource⟩)
    lost _ _ steps ?_
  rwa [← atStart]

/-- What is found goes on to what is found. -/
theorem finds_target (built : Built code graph) {edge : Edge} (isEdge : edge ∈ graph.edges)
    (found : graph.finds edge.source = true) : graph.finds edge.target = true := by
  rw [finds_iff, mem_reachableBlocks built.closed] at found ⊢
  exact found.tail (leads_iff.mpr ⟨edge, isEdge, rfl, rfl⟩)

/-- The block of an instruction that is found, with its number. -/
theorem exists_block (built : Built code graph)
    (distinct : (code.instructions.map Instruction.addr).Nodup) {instruction : Instruction}
    (listed : instruction ∈ code.instructions) (found : instruction.addr ∈ graph.reachable) :
    ∃ number block, graph.blocks[number]? = some block ∧ graph.finds number = true ∧
      instruction ∈ block.instructions := by
  obtain ⟨block, isBlock, inBlock⟩ := built.mem_instructions.mp listed
  obtain ⟨number, place⟩ := List.getElem?_of_mem isBlock
  exact ⟨number, block, place, (built.mem_reachable_iff_finds distinct place inBlock).mp found, inBlock⟩

/-- What comes after an instruction that is found and falls through is found. -/
theorem next_reached (built : Built code graph) (apart : code.Apart) {instruction : Instruction}
    (listed : instruction ∈ code.instructions) (reached : instruction.addr ∈ graph.reachable)
    (falls : instruction.endsFlow = false) : instruction.nextAddr ∈ graph.reachable := by
  obtain ⟨number, block, place, found, inBlock⟩ :=
    built.exists_block apart.distinct listed reached
  rcases last_or_neighbour inBlock with isLast | ⟨next, pair⟩
  · obtain ⟨edge, isEdge, rfl, -, target, placeTarget, starts⟩ :=
      built.steps_edge number block instruction false _ place isLast (.onward (.next falls))
    obtain ⟨head, inTarget, atStart⟩ := built.exists_start (List.mem_of_getElem? placeTarget)
    rw [← starts, ← atStart, built.mem_reachable_iff_finds apart.distinct placeTarget inTarget]
    exact built.finds_target isEdge found
  · obtain ⟨inCode, -⟩ :=
      (built.neighbours instruction next).mp ⟨block, List.mem_of_getElem? place, pair⟩
    rw [← apart.neighbour_addr inCode (built.falls instruction listed falls),
      built.mem_reachable_iff_finds apart.distinct place (pair.subset (by simp))]
    exact found

/-- A block found from the start is at address zero, or an instruction that is found
steps to it. -/
theorem exists_step_to (built : Built code graph)
    (distinct : (code.instructions.map Instruction.addr).Nodup) {number : Nat} {block : Block}
    (place : graph.blocks[number]? = some block) (found : graph.finds number = true) :
    block.start = 0 ∨ ∃ instruction ∈ code.instructions, instruction.addr ∈ graph.reachable ∧
      ∃ caught, code.Steps instruction caught block.start := by
  rw [finds_iff, mem_reachableBlocks built.closed] at found
  rcases Relation.ReflTransGen.cases_tail found with isStart | ⟨source, path, leads⟩
  · obtain ⟨first, placeFirst, atZero⟩ := built.start
    rw [← isStart, place] at placeFirst
    exact .inl (Option.some.inj placeFirst ▸ atZero)
  · obtain ⟨edge, isEdge, rfl, rfl⟩ := leads_iff.mp leads
    obtain ⟨sourceBlock, last, target, placeSource, isLast, placeTarget, steps⟩ :=
      built.edge_steps edge isEdge
    obtain rfl := Option.some.inj (place.symm.trans placeTarget)
    have inSource := List.mem_of_getLast? isLast
    refine .inr ⟨last, built.mem_instructions.mpr ⟨sourceBlock, List.mem_of_getElem? placeSource, inSource⟩,
      ?_, _, steps⟩
    rw [built.mem_reachable_iff_finds distinct placeSource inSource, finds_iff,
      mem_reachableBlocks built.closed]
    exact path

end Built

end FlowGraph

end Dalvik
