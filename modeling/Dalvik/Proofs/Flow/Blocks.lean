import Dalvik.Proofs.Flow.Continuation
import Dalvik.Proofs.Flow.Search
import Mathlib.Data.List.Infix

/-!
# The blocks of a built graph

Cutting keeps all instructions in order, cuts before every leader and nowhere
else.  The edges of a built graph lead from the last instruction of a block to
the blocks at which it continues or is caught.
-/

namespace Dalvik

/-- Two neighbours in a list with a head. -/
theorem neighbours_cons {α : Type} {first second head : α} {tail : List α} :
    [first, second] <:+: head :: tail ↔
      (first = head ∧ tail.head? = some second) ∨ [first, second] <:+: tail := by
  rw [List.infix_cons_iff, List.cons_prefix_cons, List.singleton_prefix_iff_head?_eq_some]

/-- What holds of the head and passes on to each neighbour holds of all members. -/
theorem forall_of_neighbours {α : Type} {property : α → Prop} {list : List α}
    (head : ∀ first, list.head? = some first → property first)
    (next : ∀ first second, [first, second] <:+: list → property first → property second) :
    ∀ member ∈ list, property member := by
  induction list with
  | nil => simp
  | cons first rest ih =>
      have holds := head first rfl
      refine List.forall_mem_cons.mpr ⟨holds, ih ?_ ?_⟩
      · exact fun second isHead => next first second (neighbours_cons.mpr (.inl ⟨rfl, isHead⟩)) holds
      · exact fun second third pair => next second third (neighbours_cons.mpr (.inr pair))

/-- A member that is not the last has a neighbour after it. -/
theorem last_or_neighbour {α : Type} {list : List α} {member : α} (isMember : member ∈ list) :
    list.getLast? = some member ∨ ∃ next, [member, next] <:+: list := by
  obtain ⟨before, after, rfl⟩ := List.append_of_mem isMember
  cases after with
  | nil => exact .inl (List.getLast?_concat)
  | cons next after => exact .inr ⟨next, before, after, by simp⟩

/-- A member of a list is its head or comes after a neighbour. -/
theorem head_or_neighbour {α : Type} {list : List α} {member : α} (isMember : member ∈ list) :
    list.head? = some member ∨ ∃ before, [before, member] <:+: list := by
  obtain ⟨before, after, rfl⟩ := List.append_of_mem isMember
  rcases List.eq_nil_or_concat before with rfl | ⟨before, last, rfl⟩
  · exact .inl rfl
  · exact .inr ⟨last, before, after, by simp⟩

namespace FlowGraph

theorem extendBlock_instructions (instruction : Instruction) (blocks : List Block) :
    (extendBlock instruction blocks).flatMap Block.instructions =
      instruction :: blocks.flatMap Block.instructions := by
  cases blocks with
  | nil => rfl
  | cons block rest => rfl

/-- Cutting keeps the instructions in order. -/
theorem cutBlocks_instructions (leaders : SortedSet Addr) (list : List Instruction) :
    (cutBlocks leaders list).flatMap Block.instructions = list := by
  fun_induction cutBlocks leaders list with
  | case1 => rfl
  | case2 last => rfl
  | case3 instruction next rest blocks leads ih =>
      rw [List.flatMap_cons, ih]
      rfl
  | case4 instruction next rest blocks joins ih =>
      rw [extendBlock_instructions, ih]

/-- The first block of a cut list starts with its first instruction. -/
theorem cutBlocks_cons (leaders : SortedSet Addr) (instruction : Instruction)
    (rest : List Instruction) :
    ∃ run blocks, cutBlocks leaders (instruction :: rest) = ⟨instruction :: run⟩ :: blocks := by
  cases rest with
  | nil => exact ⟨[], [], rfl⟩
  | cons next rest =>
      unfold cutBlocks
      split
      · exact ⟨[], _, rfl⟩
      · cases cutBlocks leaders (next :: rest) with
        | nil => exact ⟨[], [], rfl⟩
        | cons block blocks => exact ⟨block.instructions, blocks, rfl⟩

/-- An instruction that leads none of the others joins the block after it. -/
theorem cutBlocks_joins {leaders : SortedSet Addr} {instruction next : Instruction}
    {rest : List Instruction} (joins : next.addr ∉ leaders) :
    ∃ run blocks, cutBlocks leaders (next :: rest) = ⟨next :: run⟩ :: blocks ∧
      cutBlocks leaders (instruction :: next :: rest) = ⟨instruction :: next :: run⟩ :: blocks := by
  obtain ⟨run, blocks, first⟩ := cutBlocks_cons leaders next rest
  refine ⟨run, blocks, first, ?_⟩
  rw [cutBlocks, if_neg (fun leads => joins (SortedSet.contains_iff_mem.mp leads)), first, extendBlock]

/-- A cut list by its first two instructions: the second leads a block, or it
stays with the first. -/
theorem cutBlocks_cases (leaders : SortedSet Addr) (instruction next : Instruction)
    (rest : List Instruction) :
    (next.addr ∈ leaders ∧ cutBlocks leaders (instruction :: next :: rest) =
      ⟨[instruction]⟩ :: cutBlocks leaders (next :: rest)) ∨
    (next.addr ∉ leaders ∧ ∃ run blocks, cutBlocks leaders (next :: rest) = ⟨next :: run⟩ :: blocks ∧
      cutBlocks leaders (instruction :: next :: rest) =
        ⟨instruction :: next :: run⟩ :: blocks) := by
  by_cases leads : next.addr ∈ leaders
  · refine .inl ⟨leads, ?_⟩
    rw [cutBlocks, if_pos (SortedSet.contains_iff_mem.mpr leads)]
  · exact .inr ⟨leads, cutBlocks_joins leads⟩

/-- Two instructions are neighbours in a block if they are neighbours in the list
and the second is no leader. -/
theorem neighbours_cutBlocks {leaders : SortedSet Addr} {list : List Instruction}
    {earlier later : Instruction} :
    (∃ block ∈ cutBlocks leaders list, [earlier, later] <:+: block.instructions) ↔
      [earlier, later] <:+: list ∧ later.addr ∉ leaders := by
  induction list with
  | nil => simp [cutBlocks]
  | cons instruction rest ih =>
      cases rest with
      | nil => simp [cutBlocks, neighbours_cons]
      | cons next rest =>
          rw [neighbours_cons, List.head?_cons, Option.some.injEq, or_and_right, ← ih]
          rcases cutBlocks_cases leaders instruction next rest with
            ⟨leads, cut⟩ | ⟨joins, run, blocks, before, after⟩
          · rw [cut, List.exists_mem_cons_iff]
            refine or_congr_left ⟨fun inside => ?_, ?_⟩
            · simp [neighbours_cons] at inside
            · rintro ⟨⟨-, rfl⟩, joins⟩
              exact absurd leads joins
          · rw [before, after, List.exists_mem_cons_iff, List.exists_mem_cons_iff, neighbours_cons,
              or_assoc]
            refine or_congr_left ⟨?_, ?_⟩
            · rintro ⟨rfl, second⟩
              obtain rfl := Option.some.inj second
              exact ⟨⟨rfl, rfl⟩, joins⟩
            · rintro ⟨⟨rfl, rfl⟩, -⟩
              exact ⟨rfl, rfl⟩

theorem cutBlocks_ne_nil {leaders : SortedSet Addr} {list : List Instruction} :
    ∀ block ∈ cutBlocks leaders list, block.instructions ≠ [] := by
  induction list with
  | nil => simp [cutBlocks]
  | cons instruction rest ih =>
      cases rest with
      | nil => simp [cutBlocks]
      | cons next rest =>
          rcases cutBlocks_cases leaders instruction next rest with
            ⟨leads, cut⟩ | ⟨joins, run, blocks, before, after⟩
          · rw [cut]
            exact List.forall_mem_cons.mpr ⟨List.cons_ne_nil _ _, ih⟩
          · rw [before] at ih
            rw [after]
            exact List.forall_mem_cons.mpr ⟨List.cons_ne_nil _ _, (List.forall_mem_cons.mp ih).2⟩

/-- A block found by its address is in its place and starts there. -/
theorem lastStartingAt_eq_some {blocks : List Block} {addr : Addr} {base number : Nat}
    (found : lastStartingAt addr base blocks = some number) :
    ∃ index block, number = base + index ∧ blocks[index]? = some block ∧ block.start = addr := by
  induction blocks generalizing base with
  | nil => simp [lastStartingAt] at found
  | cons block rest ih =>
      rw [lastStartingAt, Option.or_eq_some_iff] at found
      rcases found with later | ⟨-, here⟩
      · obtain ⟨index, other, rfl, place, starts⟩ := ih later
        exact ⟨index + 1, other, by omega, place, starts⟩
      · by_cases starts : block.start = addr
        · rw [if_pos starts, Option.some.injEq] at here
          exact ⟨0, block, here.symm, rfl, starts⟩
        · simp [starts] at here

theorem blockAt_eq_ok {blocks : List Block} {addr : Addr} {number : Nat}
    (success : blockAt blocks addr = .ok number) :
    ∃ block, blocks[number]? = some block ∧ block.start = addr := by
  unfold blockAt at success
  split at success
  · rename_i found
    obtain rfl := Except.ok.inj success
    obtain ⟨index, block, rfl, place, starts⟩ := lastStartingAt_eq_some found
    exact ⟨block, by rwa [Nat.zero_add], starts⟩
  · cases success

/-- The edges out of one block are the steps from its last instruction to other
blocks. -/
theorem blockEdges_eq_ok {code : Code} {pool : Pool} {blocks : List Block} {number : Nat}
    {block : Block} {edges : List Edge}
    (success : blockEdges code pool blocks number block = .ok edges) :
    (∀ edge ∈ edges, edge.source = number ∧ ∃ last target, block.instructions.getLast? = some last ∧
      blocks[edge.target]? = some target ∧ code.Steps last edge.branch.isCatch target.start) ∧
    ∀ last caught addr, block.instructions.getLast? = some last → code.Steps last caught addr →
      ∃ edge ∈ edges, edge.source = number ∧ edge.branch.isCatch = caught ∧
        ∃ target, blocks[edge.target]? = some target ∧ target.start = addr := by
  unfold blockEdges at success
  split at success
  · rename_i none
    obtain rfl := Except.ok.inj success
    simp [none]
  · rename_i last isLast
    rw [bind_eq_ok] at success
    obtain ⟨ways, leaves, success⟩ := success
    constructor
    · intro edge member
      obtain ⟨⟨branch, addr⟩, listed, done⟩ := (mem_of_mapM_eq_ok success edge).mp member
      simp only [bind_eq_ok, pure_eq_ok] at done
      obtain ⟨number', leads, rfl⟩ := done
      obtain ⟨target, place, rfl⟩ := blockAt_eq_ok leads
      exact ⟨rfl, last, target, isLast, place, (exits_eq_ok leaves _ _).mp ⟨branch, rfl, listed⟩⟩
    · intro other caught addr same steps
      obtain rfl := Option.some.inj (isLast.symm.trans same)
      obtain ⟨branch, kind, listed⟩ := (exits_eq_ok leaves caught addr).mpr steps
      obtain ⟨edge, inEdges, done⟩ := exists_of_mapM_eq_ok success listed
      simp only [bind_eq_ok, pure_eq_ok] at done
      obtain ⟨number', leads, rfl⟩ := done
      exact ⟨_, inEdges, rfl, kind, blockAt_eq_ok leads⟩

theorem edgesFrom_eq_ok {code : Code} {pool : Pool} {blocks list : List Block} {base : Nat}
    {edges : List Edge} (success : edgesFrom code pool blocks base list = .ok edges) :
    (∀ edge ∈ edges, ∃ index source last target, edge.source = base + index ∧
      list[index]? = some source ∧ source.instructions.getLast? = some last ∧
      blocks[edge.target]? = some target ∧ code.Steps last edge.branch.isCatch target.start) ∧
    ∀ index source last caught addr, list[index]? = some source →
      source.instructions.getLast? = some last → code.Steps last caught addr →
      ∃ edge ∈ edges, edge.source = base + index ∧ edge.branch.isCatch = caught ∧
        ∃ target, blocks[edge.target]? = some target ∧ target.start = addr := by
  induction list generalizing base edges with
  | nil =>
      obtain rfl := Except.ok.inj success
      simp
  | cons block rest ih =>
      simp only [edgesFrom, bind_eq_ok, pure_eq_ok] at success
      obtain ⟨own, first, others, more, rfl⟩ := success
      obtain ⟨ownSound, ownComplete⟩ := blockEdges_eq_ok first
      obtain ⟨sound, complete⟩ := ih more
      constructor
      · intro edge member
        rcases List.mem_append.mp member with inOwn | inOthers
        · obtain ⟨number, last, target, rest⟩ := ownSound edge inOwn
          exact ⟨0, block, last, target, number, rfl, rest⟩
        · obtain ⟨index, source, last, target, number, place, rest⟩ := sound edge inOthers
          exact ⟨index + 1, source, last, target, by omega, place, rest⟩
      · intro index source last caught addr place isLast steps
        cases index with
        | zero =>
            obtain rfl := Option.some.inj place
            obtain ⟨edge, inOwn, rest⟩ := ownComplete last caught addr isLast steps
            exact ⟨edge, List.mem_append_left _ inOwn, rest⟩
        | succ index =>
            obtain ⟨edge, inOthers, number, rest⟩ :=
              complete index source last caught addr place isLast steps
            exact ⟨edge, List.mem_append_right _ inOthers, by omega, rest⟩

/-- How a graph comes from code: its blocks are the instructions in order, cut
where the code is cut, and its edges are the steps from their last
instructions. -/
structure Built (code : Code) (graph : FlowGraph) : Prop where
  instructions : graph.blocks.flatMap Block.instructions = code.instructions
  nonempty : ∀ block ∈ graph.blocks, block.instructions ≠ []
  neighbours : ∀ earlier later,
    (∃ block ∈ graph.blocks, [earlier, later] <:+: block.instructions) ↔
      [earlier, later] <:+: code.instructions ∧ ¬ code.IsCutAt later.addr
  falls : ∀ instruction ∈ code.instructions, instruction.endsFlow = false →
    code.hasInstruction instruction.nextAddr = true
  start : ∃ block, graph.blocks[graph.start]? = some block ∧ block.start = 0
  edge_steps : ∀ edge ∈ graph.edges, ∃ source last target,
    graph.blocks[edge.source]? = some source ∧ source.instructions.getLast? = some last ∧
      graph.blocks[edge.target]? = some target ∧ code.Steps last edge.branch.isCatch target.start
  steps_edge : ∀ number source last caught addr, graph.blocks[number]? = some source →
    source.instructions.getLast? = some last → code.Steps last caught addr →
    ∃ edge ∈ graph.edges, edge.source = number ∧ edge.branch.isCatch = caught ∧
      ∃ target, graph.blocks[edge.target]? = some target ∧ target.start = addr

theorem build_eq_ok {code : Code} {pool : Pool} {graph : FlowGraph}
    (success : build code pool = .ok graph) : Built code graph := by
  unfold build at success
  split at success
  · cases success
  · simp only [bind_eq_ok, pure_eq_ok] at success
    obtain ⟨cuts, cut, edges, leave, start, begins, rfl⟩ := success
    obtain ⟨leaders, falls⟩ := Cuts.ofCode_eq_ok cut
    obtain ⟨sound, complete⟩ := edgesFrom_eq_ok leave
    exact {
      instructions := cutBlocks_instructions _ _
      nonempty := cutBlocks_ne_nil
      neighbours := by
        intro earlier later
        rw [neighbours_cutBlocks, leaders]
      falls
      start := blockAt_eq_ok begins
      edge_steps := by
        intro edge member
        obtain ⟨index, source, last, target, number, place, rest⟩ := sound edge member
        refine ⟨source, last, target, ?_, rest⟩
        rwa [number, Nat.zero_add]
      steps_edge := by
        intro number source last caught addr place isLast steps
        obtain ⟨edge, inEdges, source', rest⟩ :=
          complete number source last caught addr place isLast steps
        exact ⟨edge, inEdges, source'.trans (Nat.zero_add _), rest⟩ }

theorem Built.closed {code : Code} {graph : FlowGraph} (built : Built code graph) :
    graph.Closed where
  start_lt := by
    obtain ⟨block, place, -⟩ := built.start
    exact (List.getElem?_eq_some_iff.mp place).1
  source_lt := by
    intro edge member
    obtain ⟨source, last, target, place, -⟩ := built.edge_steps edge member
    exact (List.getElem?_eq_some_iff.mp place).1
  target_lt := by
    intro edge member
    obtain ⟨source, last, target, -, -, place, -⟩ := built.edge_steps edge member
    exact (List.getElem?_eq_some_iff.mp place).1

end FlowGraph

end Dalvik
