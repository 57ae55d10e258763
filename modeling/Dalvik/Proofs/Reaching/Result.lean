import Dalvik.Proofs.Flow.Reachability
import Dalvik.Proofs.Reaching.Run

/-!
# Reading the result

The result has the states before and after each instruction by address.  Where
no two instructions share an address, these are the states of the blocks, passed
on from instruction to instruction.
-/

namespace Dalvik

/-- A row is found by its key if all rows of this key are the same. -/
theorem lookup_eq_some_of_unique {α β : Type} [BEq α] [LawfulBEq α] {rows : List (α × β)} {key : α}
    {value : β} (member : (key, value) ∈ rows) (unique : ∀ other, (key, other) ∈ rows → other = value) :
    rows.lookup key = some value := by
  induction rows with
  | nil => cases member
  | cons first rest ih =>
      obtain ⟨name, result⟩ := first
      by_cases same : key = name
      · subst same
        rw [List.lookup_cons_self, unique result List.mem_cons_self]
      · have inRest : (key, value) ∈ rest :=
          (List.mem_cons.mp member).resolve_left fun equal => same (congrArg Prod.fst equal)
        rw [List.lookup_cons, beq_eq_false_iff_ne.mpr same]
        exact ih inRest fun other isRow => unique other (List.mem_cons_of_mem _ isRow)

namespace Dataflow

variable {graph : FlowGraph} {solving : Solving}

def exitAt (dataflow : Dataflow) (addr : Addr) : Option Reaching :=
  dataflow.exits.lookup addr

/-- From a state on, the result has the state before each instruction of a run and
what the instruction makes of it, which is the state before the next one. -/
inductive Follows (dataflow : Dataflow) : Reaching → List Instruction → Prop where
  | done (entry : Reaching) : Follows dataflow entry []
  | next {entry : Reaching} {instruction : Instruction} {rest : List Instruction}
      (before : dataflow.entryAt instruction.addr = some entry)
      (after : dataflow.exitAt instruction.addr = some (entry.transfer instruction))
      (others : Follows dataflow (entry.transfer instruction) rest) :
      Follows dataflow entry (instruction :: rest)

theorem Follows.entryAt_start {dataflow : Dataflow} {entry : Reaching} {block : Block}
    (follows : dataflow.Follows entry block.instructions) (nonempty : block.instructions ≠ []) :
    dataflow.entryAt block.start = some entry := by
  obtain ⟨instructions⟩ := block
  cases follows with
  | done => exact absurd rfl nonempty
  | next before _ _ => exact before

/-- The result at an address is its latest row. -/
theorem ofSolving_at {addr : Addr} {entry exit : Reaching}
    (listed : addr ∈ graph.blocks.flatMap Block.addrs)
    (found : (latestRows graph solving).lookup addr = some (entry, exit)) :
    (ofSolving graph solving).entryAt addr = some entry ∧
      (ofSolving graph solving).exitAt addr = some exit := by
  have member : addr ∈ (SortedSet.ofList (graph.blocks.flatMap Block.addrs)).elements :=
    SortedSet.mem_ofList.mpr listed
  have isRow : ∀ row, row ∈ (SortedSet.ofList (graph.blocks.flatMap Block.addrs)).elements.filterMap
      (fun addr => ((latestRows graph solving).lookup addr).map (addr, ·)) → row.1 = addr →
        row = (addr, entry, exit) := by
    rintro row isRow rfl
    obtain ⟨addr, -, isLatest⟩ := List.mem_filterMap.mp isRow
    obtain ⟨states, latest, rfl⟩ := Option.map_eq_some_iff.mp isLatest
    rw [found] at latest
    rw [Option.some.inj latest]
  have own : (addr, entry, exit) ∈
      (SortedSet.ofList (graph.blocks.flatMap Block.addrs)).elements.filterMap
        (fun addr => ((latestRows graph solving).lookup addr).map (addr, ·)) :=
    List.mem_filterMap.mpr ⟨addr, member, by rw [found, Option.map_some]⟩
  constructor
  · refine lookup_eq_some_of_unique (List.mem_map.mpr ⟨_, own, rfl⟩) fun other isOther => ?_
    obtain ⟨row, inRows, same⟩ := List.mem_map.mp isOther
    obtain ⟨rfl, rfl⟩ := Prod.mk.inj same
    rw [isRow row inRows rfl]
  · refine lookup_eq_some_of_unique (List.mem_map.mpr ⟨_, own, rfl⟩) fun other isOther => ?_
    obtain ⟨row, inRows, same⟩ := List.mem_map.mp isOther
    obtain ⟨rfl, rfl⟩ := Prod.mk.inj same
    rw [isRow row inRows rfl]

theorem mem_ofBlock {entry : Reaching} {instructions : List Instruction}
    {row : Addr × Reaching × Reaching} :
    row ∈ ofBlock entry instructions ↔ ∃ (place : Nat) (instruction : Instruction),
      instructions[place]? = some instruction ∧
        row = (instruction.addr, Solving.exitOf entry (instructions.take place),
          (Solving.exitOf entry (instructions.take place)).transfer instruction) := by
  induction instructions generalizing entry with
  | nil => simp [ofBlock]
  | cons first rest ih =>
      rw [ofBlock, List.mem_cons, ih]
      constructor
      · rintro (rfl | ⟨place, instruction, found, rfl⟩)
        · exact ⟨0, first, rfl, rfl⟩
        · exact ⟨place + 1, instruction, found, rfl⟩
      · rintro ⟨place, instruction, found, rfl⟩
        cases place with
        | zero =>
            obtain rfl := Option.some.inj found
            exact .inl rfl
        | succ place => exact .inr ⟨place, instruction, found, rfl⟩

theorem mem_latestRows {row : Addr × Reaching × Reaching} :
    row ∈ latestRows graph solving ↔ ∃ number ∈ solving.taken, ∃ block states,
      graph.blocks[number]? = some block ∧ solving.statesOf number = some states ∧
        row ∈ ofBlock states.entry block.instructions := by
  simp only [latestRows, List.mem_flatMap, List.mem_reverse]
  refine exists_congr fun number => and_congr_right fun _ => ?_
  unfold rowsOf
  cases graph.blocks[number]? <;> cases solving.statesOf number <;> simp

/-- Where addresses are distinct, the result at an instruction of a known block is
what the block's entry state becomes on the way to it. -/
theorem ofSolving_at_place {code : Code} {frame : RegisterFrame} (built : FlowGraph.Built code graph)
    (distinct : (code.instructions.map Instruction.addr).Nodup)
    (consistent : Solving.Consistent graph frame solving) {number place : Nat} {block : Block}
    {states : BlockStates} {instruction : Instruction}
    (isBlock : graph.blocks[number]? = some block)
    (known : solving.statesOf number = some states)
    (found : block.instructions[place]? = some instruction) :
    (ofSolving graph solving).entryAt instruction.addr =
        some (Solving.exitOf states.entry (block.instructions.take place)) ∧
      (ofSolving graph solving).exitAt instruction.addr =
        some ((Solving.exitOf states.entry (block.instructions.take place)).transfer instruction) := by
  have inBlock := List.mem_of_getElem? found
  have inBlocks := List.mem_of_getElem? isBlock
  have nodup : code.instructions.Nodup := distinct.of_map
  refine ofSolving_at (List.mem_flatMap.mpr ⟨block, inBlocks, List.mem_map_of_mem inBlock⟩) ?_
  refine lookup_eq_some_of_unique ?_ fun other isRow => ?_
  · exact mem_latestRows.mpr ⟨number, (consistent.taken number).mpr (by simp [known]), block, states,
      isBlock, known, mem_ofBlock.mpr ⟨place, instruction, found, rfl⟩⟩
  · obtain ⟨number', -, block', states', isBlock', known', row⟩ := mem_latestRows.mp isRow
    obtain ⟨place', instruction', found', same⟩ := mem_ofBlock.mp row
    obtain ⟨sameAddr, rfl⟩ := Prod.mk.inj same
    have inBlock' := List.mem_of_getElem? found'
    have inBlocks' := List.mem_of_getElem? isBlock'
    obtain rfl : instruction = instruction' :=
      List.inj_on_of_nodup_map distinct (built.mem_instructions.mpr ⟨block, inBlocks, inBlock⟩)
        (built.mem_instructions.mpr ⟨block', inBlocks', inBlock'⟩) sameAddr
    obtain rfl := built.block_unique nodup isBlock isBlock' inBlock inBlock'
    obtain rfl := Option.some.inj (isBlock.symm.trans isBlock')
    obtain rfl := Option.some.inj (known.symm.trans known')
    have nodupBlock : block.instructions.Nodup := by
      rw [← built.instructions, List.nodup_flatMap] at nodup
      exact nodup.1 block inBlocks
    obtain rfl := (List.getElem?_inj (List.getElem?_eq_some_iff.mp found).1 nodupBlock).mp
      (found.trans found'.symm)
    rfl

theorem follows_of_places {dataflow : Dataflow} {entry : Reaching} {instructions : List Instruction}
    (each : ∀ (place : Nat) (instruction : Instruction), instructions[place]? = some instruction →
      dataflow.entryAt instruction.addr =
          some (Solving.exitOf entry (instructions.take place)) ∧
        dataflow.exitAt instruction.addr =
          some ((Solving.exitOf entry (instructions.take place)).transfer instruction)) :
    dataflow.Follows entry instructions := by
  induction instructions generalizing entry with
  | nil => exact .done entry
  | cons first rest ih =>
      obtain ⟨before, after⟩ := each 0 first rfl
      exact .next before after (ih fun place instruction found => each (place + 1) instruction found)

/-- The result follows the instructions of a known block. -/
theorem follows_ofSolving {code : Code} {frame : RegisterFrame} (built : FlowGraph.Built code graph)
    (distinct : (code.instructions.map Instruction.addr).Nodup)
    (consistent : Solving.Consistent graph frame solving) {number : Nat} {block : Block}
    {states : BlockStates} (isBlock : graph.blocks[number]? = some block)
    (known : solving.statesOf number = some states) :
    (ofSolving graph solving).Follows states.entry block.instructions :=
  follows_of_places fun _ _ found => ofSolving_at_place built distinct consistent isBlock known found

/-- The result at the start of a known block is its entry state. -/
theorem ofSolving_at_start {code : Code} {frame : RegisterFrame} (built : FlowGraph.Built code graph)
    (distinct : (code.instructions.map Instruction.addr).Nodup)
    (consistent : Solving.Consistent graph frame solving) {number : Nat} {block : Block}
    {states : BlockStates} (isBlock : graph.blocks[number]? = some block)
    (known : solving.statesOf number = some states) :
    (ofSolving graph solving).entryAt block.start = some states.entry := by
  cases listed : block.instructions with
  | nil => exact absurd listed (built.nonempty block (List.mem_of_getElem? isBlock))
  | cons first rest =>
      have found : block.instructions[0]? = some first := by rw [listed, List.getElem?_cons_zero]
      have start : block.start = first.addr := by simp [Block.start, listed]
      rw [start]
      exact (ofSolving_at_place built distinct consistent isBlock known found).1

/-- The result after the last instruction of a known block is its exit state. -/
theorem ofSolving_at_last {code : Code} {frame : RegisterFrame} (built : FlowGraph.Built code graph)
    (distinct : (code.instructions.map Instruction.addr).Nodup)
    (consistent : Solving.Consistent graph frame solving) {number : Nat} {block : Block}
    {states : BlockStates} {last : Instruction} (isBlock : graph.blocks[number]? = some block)
    (known : solving.statesOf number = some states)
    (isLast : block.instructions.getLast? = some last) :
    (ofSolving graph solving).exitAt last.addr = some states.exit := by
  have split := List.dropLast_append_getLast? last isLast
  have found : block.instructions[block.instructions.length - 1]? = some last := by
    rw [← List.getLast?_eq_getElem?, isLast]
  rw [(ofSolving_at_place built distinct consistent isBlock known found).2,
    consistent.exit number states known, ← List.dropLast_eq_take]
  have own : graph.instructionsOf number = block.instructions.dropLast ++ [last] := by
    rw [split, FlowGraph.instructionsOf, isBlock, Option.map_some, Option.getD_some]
  rw [own, Solving.exitOf_append]
  rfl

/-- A state before an instruction is what the entry state of a known block becomes on the
way to a place in it. -/
theorem entryAt_ofSolving {addr : Addr} {state : Reaching}
    (enters : (ofSolving graph solving).entryAt addr = some state) :
    ∃ number block states place, graph.blocks[number]? = some block ∧
      solving.statesOf number = some states ∧
        state = Solving.exitOf states.entry (block.instructions.take place) := by
  obtain ⟨before, after, split, -⟩ := List.lookup_eq_some_iff.mp enters
  have member : (addr, state) ∈ (ofSolving graph solving).entries :=
    split ▸ List.mem_append_right _ List.mem_cons_self
  obtain ⟨row, isRow, same⟩ := List.mem_map.mp member
  obtain ⟨rfl, rfl⟩ := Prod.mk.inj same
  obtain ⟨_, -, isLatest⟩ := List.mem_filterMap.mp isRow
  obtain ⟨rows, latest, rfl⟩ := Option.map_eq_some_iff.mp isLatest
  obtain ⟨earlier, later, split, -⟩ := List.lookup_eq_some_iff.mp latest
  have listed := split ▸ List.mem_append_right earlier (@List.mem_cons_self _ _ later)
  obtain ⟨number, -, block, states, isBlock, known, inBlock⟩ := mem_latestRows.mp listed
  obtain ⟨place, instruction, -, same⟩ := mem_ofBlock.mp inBlock
  exact ⟨number, block, states, place, isBlock, known,
    congrArg Prod.fst (Prod.mk.inj same).2⟩

/-- What joins and instructions keep holds of each state before an instruction. -/
theorem entryAt_of_preserved {frame : RegisterFrame} {property : Reaching → Prop}
    (preserved : Solving.Preserved graph frame property) (closed : graph.Closed)
    {dataflow : Dataflow} (solved : solveReaching graph frame = some dataflow) {addr : Addr}
    {state : Reaching} (enters : dataflow.entryAt addr = some state) : property state := by
  obtain ⟨final, result, rfl⟩ := Option.map_eq_some_iff.mp solved
  obtain ⟨count, rfl, -⟩ := Solving.run_eq_some.mp result
  obtain ⟨number, block, states, place, isBlock, known, rfl⟩ := entryAt_ofSolving enters
  have entry := (preserved.iterate closed count).2 number states known
  have own : ∀ instruction ∈ block.instructions.take place,
      instruction ∈ graph.instructionsOf number := by
    rw [FlowGraph.instructionsOf, isBlock]
    exact fun _ member => List.mem_of_mem_take member
  exact preserved.exitOf own entry

end Dataflow

end Dalvik
