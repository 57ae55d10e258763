import Dalvik.Proofs.Reaching.Result

/-!
# The equations of reaching definitions

A solution has, at the start of each block, the join of what the edges into it
bring.  A block is taken the first time without what an edge to itself brings,
and is not queued again for it, so the solver's result is a solution except
where a block that leads to itself leaves definitions that its entry state does
not have.
-/

namespace Dalvik

namespace Solving

variable {graph : FlowGraph} {frame : RegisterFrame}

/-- The solver before a block was taken. -/
def forget (solving : Solving) (block : Nat) : Solving :=
  { solving with known := solving.known.set block none }

/-- A block that is known is settled if it has the entry state it would have now,
or if it leads to itself and has the one it would have without its own states. -/
def Settled (graph : FlowGraph) (frame : RegisterFrame) (solving : Solving) (block : Nat)
    (entry : Reaching) : Prop :=
  entry = entryOf graph frame solving block ∨
    (graph.Leads block block ∧ entry = entryOf graph frame (solving.forget block) block)

theorem statesOf_forget_self (solving : Solving) (block : Nat) :
    (solving.forget block).statesOf block = none := by
  simp only [statesOf, forget, List.getElem?_set]
  split
  · split <;> rfl
  · contradiction

theorem statesOf_forget_of_ne (solving : Solving) {block other : Nat} (different : other ≠ block) :
    (solving.forget block).statesOf other = solving.statesOf other := by
  simp [statesOf, forget, Ne.symm different]

/-- The entry state of a block depends on the states of the blocks that lead to it. -/
theorem entryOf_congr_states {first second : Solving} {block : Nat}
    (same : ∀ source, graph.Leads source block → first.statesOf source = second.statesOf source) :
    entryOf graph frame first block = entryOf graph frame second block := by
  refine entryOf_congr fun edge listed leads => ?_
  rw [passedOn, passedOn, same edge.source (FlowGraph.leads_iff.mpr ⟨edge, listed, rfl, leads⟩)]

/-- A settled block stays settled while the states of the blocks that lead to it
stay. -/
theorem Settled.congr {first second : Solving} {block : Nat} {entry : Reaching}
    (settled : Settled graph frame first block entry)
    (same : ∀ source, graph.Leads source block → first.statesOf source = second.statesOf source) :
    Settled graph frame second block entry := by
  rcases settled with now | ⟨leads, before⟩
  · exact .inl (now.trans (entryOf_congr_states same))
  · refine .inr ⟨leads, before.trans (entryOf_congr_states fun source toBlock => ?_)⟩
    by_cases self : source = block
    · rw [self, statesOf_forget_self, statesOf_forget_self]
    · rw [statesOf_forget_of_ne _ self, statesOf_forget_of_ne _ self, same source toBlock]

/-- A block is settled when it has been taken, or it is queued. -/
theorem settled_taken {before after : Solving} {block : Nat} {rest : List Nat}
    (takes : Takes graph frame before block rest after) :
    block ∈ after.queue ∨ Settled graph frame after block (entryOf graph frame before block) := by
  by_cases unchanged : before.statesOf block = after.statesOf block
  · refine .inr (.inl (entryOf_congr_states fun source _ => ?_))
    by_cases self : source = block
    · rw [self, unchanged]
    · rw [takes.others source self]
  · by_cases leads : graph.Leads block block
    · cases first : before.statesOf block with
      | some states => exact .inl ((takes.changed unchanged block).mpr (.inr ⟨leads, by simp [first]⟩))
      | none =>
          -- The block is not known before, so it is not queued for its own sake.
          refine .inr (.inr ⟨leads, entryOf_congr_states fun source _ => ?_⟩)
          by_cases self : source = block
          · rw [self, first, statesOf_forget_self]
          · rw [statesOf_forget_of_ne _ self, takes.others source self]
    · refine .inr (.inl (entryOf_congr_states fun source toBlock => ?_))
      exact (takes.others source fun self => leads (self ▸ toBlock)).symm

def AllSettled (graph : FlowGraph) (frame : RegisterFrame) (solving : Solving) : Prop :=
  ∀ block states, solving.statesOf block = some states →
    block ∈ solving.queue ∨ Settled graph frame solving block states.entry

theorem allSettled_step {solving : Solving} (consistent : Consistent graph frame solving)
    (settled : AllSettled graph frame solving) :
    AllSettled graph frame (solving.step graph frame) := by
  rcases consistent.step_cases with ⟨-, same⟩ | ⟨block, rest, first, -, takes⟩
  · rwa [same]
  · intro other states known
    rcases takes.statesOf_cases known with ⟨rfl, rfl⟩ | ⟨different, before⟩
    · exact settled_taken takes
    · rcases settled other states before with queued | isSettled
      · rw [first] at queued
        exact .inl (takes.keeps ((List.mem_cons.mp queued).resolve_left different))
      · by_cases unchanged : solving.statesOf block = (solving.step graph frame).statesOf block
        · refine .inr (isSettled.congr fun source _ => ?_)
          by_cases isBlock : source = block
          · rw [isBlock, unchanged]
          · rw [takes.others source isBlock]
        · by_cases leads : graph.Leads block other
          · exact .inl ((takes.changed unchanged other).mpr (.inr ⟨leads, by simp [before]⟩))
          · refine .inr (isSettled.congr fun source toOther => ?_)
            exact (takes.others source fun isBlock => leads (isBlock ▸ toOther)).symm

/-- What the result of a run is: all blocks are known and settled. -/
theorem settled_of_run {final : Solving} (closed : graph.Closed)
    (result : run graph frame (start graph) = some final) :
    Consistent graph frame final ∧ ∀ block < graph.blocks.length, ∃ states,
      final.statesOf block = some states ∧ Settled graph frame final block states.entry := by
  obtain ⟨count, reached, empty⟩ := run_eq_some.mp result
  have holds := @iterate_invariant graph frame
    (fun solving => Consistent graph frame solving ∧ AllSettled graph frame solving) _
    ⟨consistent_start closed frame, fun block states known => by simp [statesOf_start] at known⟩
    (fun solving both => ⟨both.1.step, allSettled_step both.1 both.2⟩) count
  rw [reached] at holds
  obtain ⟨consistent, settled⟩ := holds
  refine ⟨consistent, fun block inside => ?_⟩
  cases known : final.statesOf block with
  | none =>
      have queued := consistent.queued block inside known
      simp [empty] at queued
  | some states =>
      refine ⟨states, rfl, (settled block states known).resolve_left ?_⟩
      simp [empty]

/-- What control brings to a block without the block's own states it brings with
them, and else only what an edge from the block to itself passes on. -/
theorem flowsInto_forget_iff {solving : Solving} {block : Nat} {state : Reaching} :
    FlowsInto graph frame solving block state ↔
      FlowsInto graph frame (solving.forget block) block state ∨
        ∃ edge ∈ graph.edges, edge.source = block ∧ edge.target = block ∧
          solving.passedOn edge = some state := by
  have passed : ∀ edge, edge.source ≠ block →
      (solving.forget block).passedOn edge = solving.passedOn edge := by
    intro edge different
    rw [passedOn, passedOn, statesOf_forget_of_ne _ different]
  constructor
  · intro flows
    cases flows with
    | start isStart => exact .inl (.start isStart)
    | @along edge _ listed leads passes =>
        by_cases self : edge.source = block
        · exact .inr ⟨edge, listed, self, leads, passes⟩
        · exact .inl (.along listed leads ((passed edge self).trans passes))
  · rintro (flows | ⟨edge, listed, -, leads, passes⟩)
    · cases flows with
      | start isStart => exact .start isStart
      | @along edge _ listed leads passes =>
          refine .along listed leads ((passed edge fun self => ?_).symm.trans passes)
          rw [passedOn, self, statesOf_forget_self] at passes
          cases passes
    · exact .along listed leads passes

/-- A run of instructions leaves the state as it is, or leaves a definition of its
own in it. -/
theorem exitOf_eq_or_holds (entry : Reaching) (instructions : List Instruction) :
    exitOf entry instructions = entry ∨
      ∃ number d, (exitOf entry instructions).Holds number d ∧ d.site ≠ .param := by
  induction instructions generalizing entry with
  | nil => exact .inl rfl
  | cons instruction rest ih =>
      change exitOf (entry.transfer instruction) rest = entry ∨ ∃ number d,
        (exitOf (entry.transfer instruction) rest).Holds number d ∧ d.site ≠ .param
      rcases ih (entry.transfer instruction) with unchanged | own
      · rw [unchanged]
        cases writes : instruction.definition with
        | none => exact .inl (by simp [Reaching.transfer, writes])
        | some value =>
            obtain ⟨reg, width⟩ := value
            simp only [Reaching.transfer, writes]
            by_cases outside : entry.regs.length < reg.number + width.slots
            · exact .inl (Reaching.write_outside outside _)
            · refine .inr ⟨reg.number, ⟨.at instruction.addr, reg, width.halfAt 0⟩, ?_, Site.noConfusion⟩
              rw [Reaching.holds_write (Nat.not_lt.mp outside)]
              refine .inl ⟨⟨Nat.le_refl _, ?_⟩, by rw [Nat.sub_self]⟩
              cases width <;> simp [Width.slots]
      · exact .inr own

/-- If a run of instructions adds nothing to the initial state, it leaves it as it is. -/
theorem exitOf_init_eq {instructions : List Instruction}
    (below : exitOf (Reaching.init frame) instructions ≤ Reaching.init frame) :
    exitOf (Reaching.init frame) instructions = Reaching.init frame := by
  rcases exitOf_eq_or_holds (Reaching.init frame) instructions with unchanged | ⟨number, d, holds, own⟩
  · exact unchanged
  · exact absurd (Reaching.site_of_holds_init (below.2 number d holds)) own

/-- If a block that leads to itself adds nothing to its entry state, what it passes
on to itself does not change this state. -/
theorem entryOf_forget {solving : Solving} {block : Nat} {states : BlockStates}
    (consistent : Consistent graph frame solving)
    (known : solving.statesOf block = some states) (leads : graph.Leads block block)
    (before : states.entry = entryOf graph frame (solving.forget block) block)
    (stable : ∀ edge ∈ graph.edges, edge.source = block → edge.target = block →
      edge.branch.isCatch = false → states.exit ≤ states.entry) :
    states.entry = entryOf graph frame solving block := by
  have adds : ∀ edge ∈ graph.edges, edge.source = block → edge.target = block →
      ∀ state, solving.passedOn edge = some state →
        state = states.entry ∨ (state = states.exit ∧ states.exit ≤ states.entry) := by
    intro edge listed fromBlock toBlock state passes
    rw [passedOn_eq (fromBlock ▸ known)] at passes
    obtain rfl := Option.some.inj passes
    cases caught : edge.branch.isCatch with
    | true => exact .inl rfl
    | false => exact .inr ⟨rfl, stable edge listed fromBlock toBlock caught⟩
  obtain ⟨edge, listed, fromBlock, toBlock⟩ := FlowGraph.leads_iff.mp leads
  have brought : ∃ state, FlowsInto graph frame solving block state :=
    ⟨_, .along listed toBlock (passedOn_eq (fromBlock ▸ known))⟩
  refine IsLUB.unique (s := {state | FlowsInto graph frame solving block state}) ?_
    (isLUB_entryOf brought)
  by_cases others : ∃ state, FlowsInto graph frame (solving.forget block) block state
  · have least := isLUB_entryOf others
    rw [← before] at least
    refine ⟨fun state flows => ?_, fun upper above => least.2 fun state flows => ?_⟩
    · rcases flowsInto_forget_iff.mp flows with flows | ⟨edge, listed, fromBlock, toBlock, passes⟩
      · exact least.1 flows
      · rcases adds edge listed fromBlock toBlock state passes with rfl | ⟨rfl, below⟩
        · exact le_rfl
        · exact below
    · exact above (flowsInto_forget_iff.mpr (.inl flows))
  · -- Control comes from the block alone, so its entry state is the initial one.
    have initial : states.entry = Reaching.init frame :=
      before.trans (entryOf_eq_init fun state flows => others ⟨state, flows⟩)
    have only : ∀ state, FlowsInto graph frame solving block state → state = states.entry := by
      intro state flows
      rcases flowsInto_forget_iff.mp flows with flows | ⟨edge, listed, fromBlock, toBlock, passes⟩
      · exact absurd ⟨state, flows⟩ others
      · rcases adds edge listed fromBlock toBlock state passes with rfl | ⟨rfl, below⟩
        · rfl
        · rw [consistent.exit block states known, initial] at below ⊢
          exact exitOf_init_eq below
    obtain ⟨state, flows⟩ := brought
    refine ⟨fun other flows => le_of_eq (only other flows), fun upper above => ?_⟩
    exact only state flows ▸ above flows

/-- A settled block has the entry state it would have now exactly if what it leaves
by an edge to itself adds nothing to it. -/
theorem Settled.eq_entryOf_iff {solving : Solving} {block : Nat} {states : BlockStates}
    (consistent : Consistent graph frame solving)
    (known : solving.statesOf block = some states)
    (settled : Settled graph frame solving block states.entry) :
    states.entry = entryOf graph frame solving block ↔
      ∀ edge ∈ graph.edges, edge.source = block → edge.target = block →
        edge.branch.isCatch = false → states.exit ≤ states.entry := by
  constructor
  · intro now edge listed fromBlock toBlock completes
    have passes := passedOn_eq (fromBlock ▸ known)
    rw [completes] at passes
    have flows : FlowsInto graph frame solving block states.exit := .along listed toBlock passes
    rw [now]
    exact (isLUB_entryOf ⟨_, flows⟩).1 flows
  · intro stable
    rcases settled with now | ⟨leads, before⟩
    · exact now
    · exact entryOf_forget consistent known leads before stable

end Solving

namespace Dataflow

/-- The states that control brings to the start of a block, by a result: the initial
one to the first block, along an edge the one after the last instruction of the block
it comes from, and to a handler the one before the first instruction. -/
inductive FlowsInto (graph : FlowGraph) (frame : RegisterFrame) (dataflow : Dataflow)
    (number : Nat) : Reaching → Prop where
  | start (isStart : number = graph.start) :
      FlowsInto graph frame dataflow number (Reaching.init frame)
  | onward {edge : Edge} {source : Block} {last : Instruction} {state : Reaching}
      (listed : edge ∈ graph.edges) (leads : edge.target = number)
      (completes : edge.branch.isCatch = false)
      (isBlock : graph.blocks[edge.source]? = some source)
      (isLast : source.instructions.getLast? = some last)
      (leaves : dataflow.exitAt last.addr = some state) :
      FlowsInto graph frame dataflow number state
  | caught {edge : Edge} {source : Block} {state : Reaching} (listed : edge ∈ graph.edges)
      (leads : edge.target = number) (throws : edge.branch.isCatch = true)
      (isBlock : graph.blocks[edge.source]? = some source)
      (enters : dataflow.entryAt source.start = some state) :
      FlowsInto graph frame dataflow number state

/-- The state a solution has at the start of a block: the join of what control brings
there, or the initial state if it brings nothing. -/
structure IsEntry (graph : FlowGraph) (frame : RegisterFrame) (dataflow : Dataflow) (number : Nat)
    (entry : Reaching) : Prop where
  joins : (∃ state, FlowsInto graph frame dataflow number state) →
    IsLUB {state | FlowsInto graph frame dataflow number state} entry
  initial : (∀ state, ¬ FlowsInto graph frame dataflow number state) → entry = Reaching.init frame

/-- A solution of the equations: each block starts with the join of what control
brings there, and each state inside is what the instruction makes of the one before. -/
def Solves (graph : FlowGraph) (frame : RegisterFrame) (dataflow : Dataflow) : Prop :=
  ∀ number block, graph.blocks[number]? = some block → ∃ entry,
    dataflow.Follows entry block.instructions ∧ IsEntry graph frame dataflow number entry

/-- What a block passes on to itself adds nothing to the state at its start. -/
def SelfContained (graph : FlowGraph) (dataflow : Dataflow) : Prop :=
  ∀ edge ∈ graph.edges, edge.source = edge.target → edge.branch.isCatch = false →
    ∀ block last entry exit, graph.blocks[edge.source]? = some block →
      block.instructions.getLast? = some last → dataflow.entryAt block.start = some entry →
        dataflow.exitAt last.addr = some exit → exit ≤ entry

section

variable {code : Code} {graph : FlowGraph} {frame : RegisterFrame} {final : Solving}

/-- What control brings by the result is what it brings by the states of the blocks. -/
theorem flowsInto_ofSolving_iff (built : FlowGraph.Built code graph)
    (distinct : (code.instructions.map Instruction.addr).Nodup)
    (consistent : Solving.Consistent graph frame final)
    (known : ∀ number < graph.blocks.length, ∃ states, final.statesOf number = some states)
    {number : Nat} {state : Reaching} :
    FlowsInto graph frame (ofSolving graph final) number state ↔
      Solving.FlowsInto graph frame final number state := by
  constructor
  · intro flows
    cases flows with
    | start isStart => exact .start isStart
    | @onward edge source last _ listed leads completes isBlock isLast leaves =>
        obtain ⟨states, isKnown⟩ := known edge.source (built.closed.source_lt edge listed)
        rw [ofSolving_at_last built distinct consistent isBlock isKnown isLast] at leaves
        refine .along listed leads ?_
        rw [Solving.passedOn_eq isKnown, completes]
        exact leaves
    | @caught edge source _ listed leads throws isBlock enters =>
        obtain ⟨states, isKnown⟩ := known edge.source (built.closed.source_lt edge listed)
        rw [ofSolving_at_start built distinct consistent isBlock isKnown] at enters
        refine .along listed leads ?_
        rw [Solving.passedOn_eq isKnown, throws]
        exact enters
  · intro flows
    cases flows with
    | start isStart => exact .start isStart
    | @along edge _ listed leads passes =>
        obtain ⟨states, isKnown⟩ := known edge.source (built.closed.source_lt edge listed)
        obtain ⟨source, last, -, isBlock, isLast, -⟩ := built.edge_steps edge listed
        rw [Solving.passedOn_eq isKnown] at passes
        cases caught : edge.branch.isCatch with
        | true =>
            rw [caught] at passes
            exact .caught listed leads caught isBlock
              ((ofSolving_at_start built distinct consistent isBlock isKnown).trans passes)
        | false =>
            rw [caught] at passes
            exact .onward listed leads caught isBlock isLast
              ((ofSolving_at_last built distinct consistent isBlock isKnown isLast).trans passes)

/-- A block starts with what a solution has there exactly if it has the entry state it
would get now. -/
theorem isEntry_ofSolving_iff (built : FlowGraph.Built code graph)
    (distinct : (code.instructions.map Instruction.addr).Nodup)
    (consistent : Solving.Consistent graph frame final)
    (known : ∀ number < graph.blocks.length, ∃ states, final.statesOf number = some states)
    {number : Nat} {entry : Reaching} :
    IsEntry graph frame (ofSolving graph final) number entry ↔
      entry = Solving.entryOf graph frame final number := by
  have same : ∀ state, FlowsInto graph frame (ofSolving graph final) number state ↔
      Solving.FlowsInto graph frame final number state :=
    fun _ => flowsInto_ofSolving_iff built distinct consistent known
  constructor
  · intro isEntry
    by_cases brought : ∃ state, Solving.FlowsInto graph frame final number state
    · have joins := isEntry.joins (by simpa only [same] using brought)
      simp only [same] at joins
      exact joins.unique (Solving.isLUB_entryOf brought)
    · have nothing := not_exists.mp brought
      rw [Solving.entryOf_eq_init nothing]
      exact isEntry.initial (by simpa only [same] using nothing)
  · rintro rfl
    constructor
    · simp only [same]
      exact Solving.isLUB_entryOf
    · simp only [same]
      exact Solving.entryOf_eq_init

end

/-- The solver's result is a solution if no block passes on a definition to itself that
it does not start with. -/
theorem solves_of_selfContained {code : Code} {pool : Pool} {graph : FlowGraph}
    {frame : RegisterFrame} {dataflow : Dataflow} (success : FlowGraph.build code pool = .ok graph)
    (distinct : (code.instructions.map Instruction.addr).Nodup)
    (solved : solveReaching graph frame = some dataflow) (contained : dataflow.SelfContained graph) :
    dataflow.Solves graph frame := by
  have built := FlowGraph.build_eq_ok success
  obtain ⟨final, result, rfl⟩ := Option.map_eq_some_iff.mp solved
  obtain ⟨consistent, settled⟩ := Solving.settled_of_run built.closed result
  have known : ∀ number < graph.blocks.length, ∃ states, final.statesOf number = some states :=
    fun number inside => (settled number inside).imp fun _ both => both.1
  intro number block isBlock
  obtain ⟨states, isKnown, isSettled⟩ :=
    settled number (List.getElem?_eq_some_iff.mp isBlock).1
  refine ⟨states.entry, follows_ofSolving built distinct consistent isBlock isKnown, ?_⟩
  rw [isEntry_ofSolving_iff built distinct consistent known,
    isSettled.eq_entryOf_iff consistent isKnown]
  rintro edge listed rfl toBlock completes
  obtain ⟨source, last, -, isSource, isLast, -⟩ := built.edge_steps edge listed
  obtain rfl := Option.some.inj (isBlock.symm.trans isSource)
  exact contained edge listed toBlock.symm completes block last states.entry states.exit isBlock isLast
    (ofSolving_at_start built distinct consistent isBlock isKnown)
    (ofSolving_at_last built distinct consistent isBlock isKnown isLast)

/-- The solver's result is a solution exactly if no block that leads to itself passes
on a definition to itself that it does not start with. -/
theorem solves_iff_selfContained {code : Code} {pool : Pool} {graph : FlowGraph}
    {frame : RegisterFrame} {dataflow : Dataflow} (success : FlowGraph.build code pool = .ok graph)
    (distinct : (code.instructions.map Instruction.addr).Nodup)
    (solved : solveReaching graph frame = some dataflow) :
    dataflow.Solves graph frame ↔ dataflow.SelfContained graph := by
  refine ⟨fun solves => ?_, solves_of_selfContained success distinct solved⟩
  have built := FlowGraph.build_eq_ok success
  obtain ⟨final, result, rfl⟩ := Option.map_eq_some_iff.mp solved
  obtain ⟨consistent, settled⟩ := Solving.settled_of_run built.closed result
  have known : ∀ number < graph.blocks.length, ∃ states, final.statesOf number = some states :=
    fun number inside => (settled number inside).imp fun _ both => both.1
  intro edge listed self completes block last entry exit isBlock isLast enters leaves
  obtain ⟨states, isKnown, isSettled⟩ :=
    settled edge.source (built.closed.source_lt edge listed)
  rw [ofSolving_at_start built distinct consistent isBlock isKnown] at enters
  rw [ofSolving_at_last built distinct consistent isBlock isKnown isLast] at leaves
  obtain rfl := Option.some.inj enters
  obtain rfl := Option.some.inj leaves
  obtain ⟨entry, follows, isEntry⟩ := solves edge.source block isBlock
  have start := follows.entryAt_start (built.nonempty block (List.mem_of_getElem? isBlock))
  rw [ofSolving_at_start built distinct consistent isBlock isKnown] at start
  rw [← Option.some.inj start, isEntry_ofSolving_iff built distinct consistent known] at isEntry
  exact (isSettled.eq_entryOf_iff consistent isKnown).mp isEntry edge listed rfl self.symm completes

end Dataflow

def Instruction.negate (addr : Addr) : Instruction :=
  .ofOpcode addr .negInt [.ofNat 0, .ofNat 0] none none

/-- A block that jumps to itself, with an instruction before the jump. -/
def Code.selfLoop (body : Instruction) : Code where
  method := 0
  flags := ⟨8⟩
  registers := 1
  instructions := [.setZero 0, body, .ofOpcode 2 .goto [] (some (-1)) none]
  tries := []

namespace Dataflow

/-- A loop that defines nothing is solved. -/
theorem solves_selfLoop_nop : ∃ graph dataflow,
    FlowGraph.build (.selfLoop (.ofOpcode 1 .nop [] none none)) .empty = .ok graph ∧
      solveReaching graph ⟨1, []⟩ = some dataflow ∧ dataflow.Solves graph ⟨1, []⟩ := by
  obtain ⟨graph, success, empty, edges, place, before, after⟩ : ∃ graph,
      FlowGraph.build (.selfLoop (.ofOpcode 1 .nop [] none none)) .empty = .ok graph ∧
        ((Solving.step graph ⟨1, []⟩)^[2] (.start graph)).queue = [] ∧
        graph.edges = [⟨0, .sequence, 1⟩, ⟨1, .jump, 1⟩] ∧
        graph.blocks[1]? =
          some ⟨[.ofOpcode 1 .nop [] none none, .ofOpcode 2 .goto [] (some (-1)) none]⟩ ∧
        (ofSolving graph ((Solving.step graph ⟨1, []⟩)^[2] (.start graph))).entryAt 1 =
          some ⟨[.singleton ⟨.at 0, .ofNat 0, .narrow⟩]⟩ ∧
        (ofSolving graph ((Solving.step graph ⟨1, []⟩)^[2] (.start graph))).exitAt 2 =
          some ⟨[.singleton ⟨.at 0, .ofNat 0, .narrow⟩]⟩ := exists_ok_of_decide (by decide +kernel)
  have solved := Solving.solveReaching_of_empty empty
  refine ⟨graph, _, success, solved, (solves_iff_selfContained success (by decide) solved).mpr ?_⟩
  intro edge listed self completes block last entry exit isBlock isLast enters leaves
  rw [edges] at listed
  rcases List.mem_cons.mp listed with rfl | inRest
  · exact absurd self (by decide)
  · obtain rfl := List.mem_singleton.mp inRest
    obtain rfl := Option.some.inj (place.symm.trans isBlock)
    obtain rfl := Option.some.inj isLast
    obtain rfl := Option.some.inj (before.symm.trans enters)
    obtain rfl := Option.some.inj (after.symm.trans leaves)
    exact le_rfl

/-- The loop's own definition is missing at its start: the block was taken once,
before it was known to lead to itself. -/
theorem not_solves_selfLoop_negate : ∃ graph dataflow,
    FlowGraph.build (.selfLoop (.negate 1)) .empty = .ok graph ∧
      solveReaching graph ⟨1, []⟩ = some dataflow ∧ ¬ dataflow.Solves graph ⟨1, []⟩ := by
  obtain ⟨graph, success, empty, edges, place, before, after⟩ : ∃ graph,
      FlowGraph.build (.selfLoop (.negate 1)) .empty = .ok graph ∧
        ((Solving.step graph ⟨1, []⟩)^[2] (.start graph)).queue = [] ∧
        graph.edges = [⟨0, .sequence, 1⟩, ⟨1, .jump, 1⟩] ∧
        graph.blocks[1]? = some ⟨[.negate 1, .ofOpcode 2 .goto [] (some (-1)) none]⟩ ∧
        (ofSolving graph ((Solving.step graph ⟨1, []⟩)^[2] (.start graph))).entryAt 1 =
          some ⟨[.singleton ⟨.at 0, .ofNat 0, .narrow⟩]⟩ ∧
        (ofSolving graph ((Solving.step graph ⟨1, []⟩)^[2] (.start graph))).exitAt 2 =
          some ⟨[.singleton ⟨.at 1, .ofNat 0, .narrow⟩]⟩ := exists_ok_of_decide (by decide +kernel)
  refine ⟨graph, _, success, Solving.solveReaching_of_empty empty, fun solves => ?_⟩
  obtain ⟨entry, follows, isEntry⟩ := solves 1 _ place
  obtain rfl := Option.some.inj (before.symm.trans (follows.entryAt_start (List.cons_ne_nil _ _)))
  have flows : FlowsInto graph ⟨1, []⟩ _ 1 _ := @FlowsInto.onward graph _ _ 1 ⟨1, .jump, 1⟩ _ _ _
    (by simp [edges]) rfl rfl place rfl after
  have below := (isEntry.joins ⟨_, flows⟩).1 flows
  obtain ⟨defs, found, member⟩ :=
    below.2 0 ⟨.at 1, .ofNat 0, .narrow⟩ ⟨_, rfl, List.mem_singleton_self _⟩
  obtain rfl := Option.some.inj found
  exact absurd (List.mem_singleton.mp member) (by decide)

end Dataflow

end Dalvik
