import Dalvik.Proofs.Reaching.Paths
import Dalvik.Proofs.Reaching.Turns

/-!
# Routes of definitions

Each definition that the solver reports was put into its register by an instruction
of the graph, or as an argument, and there is a route through the graph from there on
which nothing inside the frame overwrites it.  The initial state only counts where a
method may be entered: each other block is taken after one that leads to it.
-/

namespace Dalvik

def Half.width : Half → Width
  | .narrow => .narrow
  | .low | .high => .wide

/-- How many registers after the first one of its value a half is. -/
def Half.offset : Half → Nat
  | .narrow | .low => 0
  | .high => 1

theorem Half.width_halfAt (width : Width) (offset : Nat) : (width.halfAt offset).width = width := by
  cases width <;> cases offset <;> rfl

theorem Half.offset_halfAt {width : Width} {offset : Nat} (inside : offset < width.slots) :
    (width.halfAt offset).offset = offset := by
  cases width with
  | narrow => exact (Nat.lt_one_iff.mp inside).symm
  | wide =>
      match offset, inside with
      | 0, _ | 1, _ => rfl

/-- Whether an instruction writes over a part of the value of a definition, inside the
frame. -/
def Instruction.Overwrites (instruction : Instruction) (frame : RegisterFrame) (d : Def) : Prop :=
  instruction.touches d.reg d.half.width = true ∧
    ∀ reg width, instruction.definition = some (reg, width) → reg.number + width.slots ≤ frame.registers

namespace FlowGraph

/-- A place in a graph: before the instruction of an index in a block, or at the end of
the block. -/
structure Place where
  block : Nat
  index : Nat
  deriving DecidableEq, Repr

def instructionAt? (graph : FlowGraph) (place : Place) : Option Instruction :=
  (graph.instructionsOf place.block)[place.index]?

def startOf (block : Nat) : Place :=
  ⟨block, 0⟩

def endOf (graph : FlowGraph) (block : Nat) : Place :=
  ⟨block, (graph.instructionsOf block).length⟩

def Place.next (place : Place) : Place :=
  ⟨place.block, place.index + 1⟩

/-- A route through a graph, with the instructions that were passed on it, the last one
first.  An edge to a handler leaves its block before the first instruction. -/
inductive Route (graph : FlowGraph) (origin : Place) : List Instruction → Place → Prop where
  | here : Route graph origin [] origin
  | past {done : List Instruction} {place : Place} {instruction : Instruction}
      (route : Route graph origin done place) (next : graph.instructionAt? place = some instruction) :
      Route graph origin (instruction :: done) place.next
  | onward {done : List Instruction} {edge : Edge} (route : Route graph origin done (graph.endOf edge.source))
      (listed : edge ∈ graph.edges) (completes : edge.branch.isCatch = false) :
      Route graph origin done (startOf edge.target)
  | caught {done : List Instruction} {edge : Edge} (route : Route graph origin done (startOf edge.source))
      (listed : edge ∈ graph.edges) (throws : edge.branch.isCatch = true) :
      Route graph origin done (startOf edge.target)

/-- Whether the method may be entered at a block: it is the first one, or no edges lead
to it from there. -/
def IsEntered (graph : FlowGraph) (block : Nat) : Prop :=
  block = graph.start ∨ ¬ Relation.ReflTransGen graph.Leads graph.start block

end FlowGraph

open FlowGraph

/-- Where a definition comes from: an instruction that writes its value, or an argument
where the method is entered. -/
inductive Def.Begins (graph : FlowGraph) (frame : RegisterFrame) (d : Def) : Place → Prop where
  | written {place : Place} {instruction : Instruction}
      (listed : graph.instructionAt? place = some instruction)
      (site : d.site = .at instruction.addr)
      (defines : instruction.definition = some (d.reg, d.half.width)) :
      Begins graph frame d place.next
  | passed {block : Nat} (site : d.site = .param) (listed : (d.reg, d.half.width) ∈ frame.params)
      (inside : block < graph.blocks.length) (entered : graph.IsEntered block) :
      Begins graph frame d (startOf block)

/-- Whether a definition gets to a place: on a route from where it begins no instruction
overwrites it. -/
def Def.Reaches (graph : FlowGraph) (frame : RegisterFrame) (d : Def) (place : Place) : Prop :=
  ∃ origin done, d.Begins graph frame origin ∧ graph.Route origin done place ∧
    ∀ instruction ∈ done, ¬ instruction.Overwrites frame d

namespace Def.Reaches

variable {graph : FlowGraph} {frame : RegisterFrame} {d : Def}

theorem begins {place : Place} (begins : d.Begins graph frame place) : d.Reaches graph frame place :=
  ⟨place, [], begins, .here, by simp⟩

theorem past {place : Place} (reaches : d.Reaches graph frame place) {instruction : Instruction}
    (next : graph.instructionAt? place = some instruction)
    (spares : ¬ instruction.Overwrites frame d) : d.Reaches graph frame place.next := by
  obtain ⟨origin, done, begins, route, clear⟩ := reaches
  exact ⟨origin, instruction :: done, begins, .past route next, List.forall_mem_cons.mpr ⟨spares, clear⟩⟩

theorem onward {edge : Edge} (reaches : d.Reaches graph frame (graph.endOf edge.source))
    (listed : edge ∈ graph.edges) (completes : edge.branch.isCatch = false) :
    d.Reaches graph frame (startOf edge.target) := by
  obtain ⟨origin, done, begins, route, clear⟩ := reaches
  exact ⟨origin, done, begins, .onward route listed completes, clear⟩

theorem caught {edge : Edge} (reaches : d.Reaches graph frame (startOf edge.source))
    (listed : edge ∈ graph.edges) (throws : edge.branch.isCatch = true) :
    d.Reaches graph frame (startOf edge.target) := by
  obtain ⟨origin, done, begins, route, clear⟩ := reaches
  exact ⟨origin, done, begins, .caught route listed throws, clear⟩

end Def.Reaches

namespace Reaching

variable {graph : FlowGraph} {frame : RegisterFrame}

/-- Whether all definitions of a state are in the register of their part of the value, and
get to a place. -/
def Genuine (graph : FlowGraph) (frame : RegisterFrame) (place : Place) (state : Reaching) : Prop :=
  ∀ number d, state.Holds number d →
    number = d.reg.number + d.half.offset ∧ d.Reaches graph frame place

/-- What is kept in a register by a write is of a value that the write does not touch. -/
theorem not_overwrites_of_kept {instruction : Instruction} {reg : Reg} {width : Width} {number : Nat}
    {d : Def} (defines : instruction.definition = some (reg, width))
    (kept : Kept reg width number d) (own : number = d.reg.number + d.half.offset) :
    ¬ instruction.Overwrites frame d := by
  rintro ⟨touches, -⟩
  obtain ⟨outside, notLow, notHigh⟩ := kept
  simp only [Instruction.touches, defines, Bool.and_eq_true, decide_eq_true_iff] at touches
  unfold Reg.Spans at outside
  cases half : d.half <;> simp only [half, Half.width, Half.offset, Width.slots, and_true, and_false,
    reduceCtorEq, not_false_eq_true] at * <;> omega

/-- An instruction leaves a genuine state behind it. -/
theorem Genuine.transfer {place : Place} {state : Reaching} (genuine : state.Genuine graph frame place)
    (registers : state.regs.length = frame.registers) {instruction : Instruction}
    (next : graph.instructionAt? place = some instruction) :
    (state.transfer instruction).Genuine graph frame place.next := by
  have untouched : (∀ d : Def, ¬ instruction.Overwrites frame d) →
      state.Genuine graph frame place.next := by
    intro spares number d holds
    obtain ⟨own, reaches⟩ := genuine number d holds
    exact ⟨own, reaches.past next (spares d)⟩
  unfold Reaching.transfer
  split
  · rename_i reg width defines
    by_cases outside : state.regs.length < reg.number + width.slots
    · rw [write_outside outside]
      refine untouched fun d overwrites => ?_
      have inside := overwrites.2 reg width defines
      omega
    · intro number d holds
      rcases (holds_write (Nat.not_lt.mp outside) _ number d).mp holds with
        ⟨spans, rfl⟩ | ⟨before, kept⟩
      · have offset : number - reg.number < width.slots := by
          unfold Reg.Spans at spans
          omega
        refine ⟨?_, .begins (.written next rfl (by rw [defines, Half.width_halfAt]))⟩
        rw [Half.offset_halfAt offset]
        exact (Nat.add_sub_cancel' spans.1).symm
      · obtain ⟨own, reaches⟩ := genuine number d before
        exact ⟨own, reaches.past next (not_overwrites_of_kept defines kept own)⟩
  · rename_i nothing
    refine untouched fun d overwrites => ?_
    have touches := overwrites.1
    simp [Instruction.touches, nothing] at touches

/-- The first instructions of a block leave a genuine state behind them. -/
theorem Genuine.exitOf {block : Nat} {state : Reaching}
    (genuine : state.Genuine graph frame (startOf block))
    (registers : state.regs.length = frame.registers) {count : Nat}
    (inside : count ≤ (graph.instructionsOf block).length) :
    (Solving.exitOf state ((graph.instructionsOf block).take count)).Genuine graph frame
      ⟨block, count⟩ := by
  induction count with
  | zero => exact genuine
  | succ count ih =>
      have next : graph.instructionAt? ⟨block, count⟩ = some (graph.instructionsOf block)[count] :=
        List.getElem?_eq_getElem inside
      rw [← List.take_append_getElem inside, Solving.exitOf_append]
      exact (ih (Nat.le_of_succ_le inside)).transfer
        ((Solving.length_exitOf _ _).trans registers) next

/-- The initial state is genuine where the method is entered. -/
theorem genuine_init {block : Nat} (inside : block < graph.blocks.length)
    (entered : graph.IsEntered block) : (init frame).Genuine graph frame (startOf block) := by
  refine init_induction (fun _ _ holds => absurd holds not_holds_empty) ?_
  intro param listed state genuine number d holds
  by_cases outside : state.regs.length < param.1.number + param.2.slots
  · rw [write_outside outside] at holds
    exact genuine number d holds
  · rcases (holds_write (Nat.not_lt.mp outside) _ number d).mp holds with ⟨spans, rfl⟩ | ⟨holds, -⟩
    · have offset : number - param.1.number < param.2.slots := by
        unfold Reg.Spans at spans
        omega
      refine ⟨?_, .begins (.passed rfl (by rwa [Half.width_halfAt]) inside entered)⟩
      rw [Half.offset_halfAt offset]
      exact (Nat.add_sub_cancel' spans.1).symm
    · exact genuine number d holds

theorem Genuine.sup {place : Place} {first second : Reaching} (one : first.Genuine graph frame place)
    (two : second.Genuine graph frame place) : (first ⊔ second).Genuine graph frame place :=
  fun number d holds => (holds_join.mp holds).elim (one number d) (two number d)

end Reaching

namespace Solving

variable {graph : FlowGraph} {frame : RegisterFrame} {solving : Solving}

/-- What holds at every point of a run: the method is entered at a known block, or one
that leads to it is known, and the states of the known blocks are genuine. -/
structure AllGenuine (graph : FlowGraph) (frame : RegisterFrame) (solving : Solving) : Prop where
  consistent : Consistent graph frame solving
  inTurn : InTurn graph solving
  led : ∀ block, (solving.statesOf block).isSome = true → graph.IsEntered block ∨
    ∃ source, graph.Leads source block ∧ (solving.statesOf source).isSome = true
  genuine : ∀ block states, solving.statesOf block = some states →
    states.entry.Genuine graph frame (startOf block)

namespace AllGenuine

theorem start (closed : graph.Closed) (frame : RegisterFrame) :
    AllGenuine graph frame (Solving.start graph) where
  consistent := consistent_start closed frame
  inTurn := inTurn_start graph
  led block isKnown := by simp [statesOf_start] at isKnown
  genuine block states known := by simp [statesOf_start] at known

/-- A block that is taken is one where the method is entered, or one that leads to it
is known. -/
theorem led_first (all : AllGenuine graph frame solving) (closed : graph.Closed) {block : Nat}
    {queue : List Nat} (first : solving.queue = block :: queue) : graph.IsEntered block ∨
      ∃ source, graph.Leads source block ∧ (solving.statesOf source).isSome = true := by
  rcases all.inTurn.first closed first with isKnown | before
  · exact all.led block isKnown
  · by_cases entered : graph.IsEntered block
    · exact .inl entered
    · obtain ⟨notStart, path⟩ := not_or.mp entered
      obtain ⟨source, earlier, later, split, inEarlier, inLater, leads⟩ :=
        schedule_source_first closed ((mem_reachableBlocks closed).mpr (not_not.mp path)) notStart
      exact .inr ⟨source, leads, before source earlier later split inEarlier inLater⟩

/-- What control brings to a block is genuine there. -/
theorem genuine_of_flowsInto (all : AllGenuine graph frame solving) {block : Nat}
    (inside : block < graph.blocks.length) {state : Reaching}
    (flows : FlowsInto graph frame solving block state) :
    state.Genuine graph frame (startOf block) := by
  cases flows with
  | start isStart => exact Reaching.genuine_init inside (.inl isStart)
  | @along edge _ listed leads passes =>
      obtain ⟨states, known, rfl⟩ := Option.map_eq_some_iff.mp passes
      have entry := all.genuine edge.source states known
      rw [← leads]
      split
      · rename_i throws
        intro number d holds
        obtain ⟨own, reaches⟩ := entry number d holds
        exact ⟨own, reaches.caught listed throws⟩
      · rename_i completes
        have exit : states.exit.Genuine graph frame (graph.endOf edge.source) := by
          have whole := entry.exitOf (all.consistent.registers edge.source states known) le_rfl
          rwa [List.take_length, ← all.consistent.exit edge.source states known] at whole
        intro number d holds
        obtain ⟨own, reaches⟩ := exit number d holds
        exact ⟨own, reaches.onward listed (Bool.eq_false_iff.mpr completes)⟩

/-- The entry state of a block that is taken is genuine. -/
theorem genuine_entryOf (all : AllGenuine graph frame solving) {block : Nat}
    (inside : block < graph.blocks.length) (led : graph.IsEntered block ∨
      ∃ source, graph.Leads source block ∧ (solving.statesOf source).isSome = true) :
    (entryOf graph frame solving block).Genuine graph frame (startOf block) := by
  refine entryOf_induction (fun nothing => ?_) (fun _ _ => Reaching.Genuine.sup)
    fun state => all.genuine_of_flowsInto inside
  rcases led with entered | ⟨source, leads, isKnown⟩
  · exact Reaching.genuine_init inside entered
  · obtain ⟨edge, listed, rfl, toBlock⟩ := leads_iff.mp leads
    obtain ⟨states, known⟩ := Option.isSome_iff_exists.mp isKnown
    exact absurd (.along listed toBlock (passedOn_eq known)) (nothing _)

theorem step (all : AllGenuine graph frame solving) (closed : graph.Closed) :
    AllGenuine graph frame (solving.step graph frame) := by
  rcases all.consistent.step_cases with ⟨-, same⟩ | ⟨block, queue, first, inside, takes⟩
  · rwa [same]
  · have ledFirst := all.led_first closed first
    have staysLed : ∀ other, (graph.IsEntered other ∨
        ∃ source, graph.Leads source other ∧ (solving.statesOf source).isSome = true) →
        graph.IsEntered other ∨ ∃ source, graph.Leads source other ∧
          ((solving.step graph frame).statesOf source).isSome = true :=
      fun other led => led.imp_right fun ⟨source, leads, isKnown⟩ => ⟨source, leads, takes.stays isKnown⟩
    exact {
      consistent := all.consistent.step
      inTurn := all.inTurn.step first takes
      led := by
        intro other isKnown
        obtain ⟨states, known⟩ := Option.isSome_iff_exists.mp isKnown
        rcases takes.statesOf_cases known with ⟨rfl, -⟩ | ⟨-, before⟩
        · exact staysLed other ledFirst
        · exact staysLed other (all.led other (by simp [before]))
      genuine := by
        intro other states known
        rcases takes.statesOf_cases known with ⟨rfl, rfl⟩ | ⟨-, before⟩
        · exact all.genuine_entryOf inside ledFirst
        · exact all.genuine other states before }

/-- At every point of a run all states are genuine. -/
theorem iterate (closed : graph.Closed) (frame : RegisterFrame) (count : Nat) :
    AllGenuine graph frame ((Solving.step graph frame)^[count] (Solving.start graph)) :=
  iterate_invariant (AllGenuine.start closed frame) (fun _ all => all.step closed) count

end AllGenuine

end Solving

namespace Dataflow

variable {code : Code} {pool : Pool} {graph : FlowGraph} {frame : RegisterFrame}
  {dataflow : Dataflow}

/-- The result before an instruction is what the entry state of a block becomes on the
way to an instruction of the same address. -/
theorem exists_place (built : Built code graph) (solved : solveReaching graph frame = some dataflow)
    {instruction : Instruction} (listed : instruction ∈ code.instructions) :
    ∃ count block index states other,
      ((Solving.step graph frame)^[count] (.start graph)).statesOf block = some states ∧
        graph.instructionAt? ⟨block, index⟩ = some other ∧ other.addr = instruction.addr ∧
        dataflow.entryAt instruction.addr =
          some (Solving.exitOf states.entry ((graph.instructionsOf block).take index)) := by
  obtain ⟨final, result, rfl⟩ := Option.map_eq_some_iff.mp solved
  obtain ⟨consistent, settled⟩ := Solving.settled_of_run built.closed result
  obtain ⟨block, isBlock, inBlock⟩ := built.mem_instructions.mp listed
  obtain ⟨number, place⟩ := List.getElem?_of_mem isBlock
  obtain ⟨position, found⟩ := List.getElem?_of_mem inBlock
  obtain ⟨states, known, -⟩ := settled number (List.getElem?_eq_some_iff.mp place).1
  have isRow := mem_latestRows.mpr ⟨number, (consistent.taken number).mpr (by simp [known]), block,
    states, place, known, mem_ofBlock.mpr ⟨position, instruction, found, rfl⟩⟩
  cases latest : (latestRows graph final).lookup instruction.addr with
  | none => exact absurd (List.lookup_eq_none_iff.mp latest _ isRow) (by simp)
  | some row =>
      obtain ⟨entry, exit⟩ := row
      obtain ⟨before, after, split, -⟩ := List.lookup_eq_some_iff.mp latest
      have isLatest : (instruction.addr, entry, exit) ∈ latestRows graph final :=
        split ▸ List.mem_append_right _ List.mem_cons_self
      obtain ⟨number, -, block', states, place', known, inRows⟩ := mem_latestRows.mp isLatest
      obtain ⟨index, other, isOther, same⟩ := mem_ofBlock.mp inRows
      obtain ⟨sameAddr, sameStates⟩ := Prod.mk.inj same
      have own : graph.instructionsOf number = block'.instructions := by
        rw [instructionsOf, place', Option.map_some, Option.getD_some]
      obtain ⟨count, rfl, -⟩ := Solving.run_eq_some.mp result
      refine ⟨count, number, index, states, other, known, by rwa [instructionAt?, own], sameAddr.symm, ?_⟩
      rw [own, ← (Prod.mk.inj sameStates).1]
      exact (ofSolving_at (List.mem_flatMap.mpr ⟨block, isBlock, List.mem_map_of_mem inBlock⟩) latest).1

/-- Whenever solving comes to a result, the state before each instruction is genuine: its
definitions are in the registers of their parts and get to the instruction.  Where
instructions share an address, the state is that of one of them. -/
theorem entryAt_genuine (success : FlowGraph.build code pool = .ok graph)
    (solved : solveReaching graph frame = some dataflow) :
    ∀ instruction ∈ code.instructions, ∃ state place other,
      dataflow.entryAt instruction.addr = some state ∧ state.Genuine graph frame place ∧
        graph.instructionAt? place = some other ∧ other.addr = instruction.addr ∧
        ((code.instructions.map Instruction.addr).Nodup → other = instruction) := by
  intro instruction listed
  have built := build_eq_ok success
  obtain ⟨count, block, index, states, other, known, isOther, sameAddr, enters⟩ :=
    exists_place built solved listed
  have all := Solving.AllGenuine.iterate built.closed frame count
  have inside : index < (graph.instructionsOf block).length := (List.getElem?_eq_some_iff.mp isOther).1
  refine ⟨_, ⟨block, index⟩, other, enters, ?_, isOther, sameAddr, fun distinct => ?_⟩
  · exact (all.genuine block states known).exitOf (all.consistent.registers block states known)
      (Nat.le_of_lt inside)
  · have otherListed : other ∈ code.instructions :=
      built.mem_instructions.mpr (mem_instructionsOf (List.mem_of_getElem? isOther))
    exact List.inj_on_of_nodup_map distinct otherListed listed sameAddr

end Dataflow

/-- An instruction that puts a wide zero into the first two registers. -/
def Instruction.setWideZero (addr : Addr) : Instruction :=
  { Instruction.ofOpcode addr .constWide16 [.ofNat 0] none none with literal := some 0 }

/-- Zero in the first register, then a wide zero there. -/
def Code.widened (registers : Nat) : Code where
  method := 0
  flags := ⟨8⟩
  registers
  instructions := [.setZero 0, .setWideZero 1, .ofOpcode 3 .returnVoid [] none none]
  tries := []

namespace Dataflow

/-- In a frame with room for it the wide zero has replaced the other one, and the
argument in the third register is still there. -/
theorem entryAt_widened : ∃ graph dataflow state place,
    FlowGraph.build (.widened 3) .empty = .ok graph ∧
      solveReaching graph ⟨3, [(.ofNat 2, .narrow)]⟩ = some dataflow ∧
      dataflow.entryAt 3 = some state ∧ state.Holds 1 ⟨.at 1, .ofNat 0, .high⟩ ∧
      state.Holds 2 ⟨.param, .ofNat 2, .narrow⟩ ∧
      state.Genuine graph ⟨3, [(.ofNat 2, .narrow)]⟩ place := by
  obtain ⟨graph, success, empty, found⟩ : ∃ graph,
      FlowGraph.build (.widened 3) .empty = .ok graph ∧
        ((Solving.step graph ⟨3, [(.ofNat 2, .narrow)]⟩)^[1] (.start graph)).queue = [] ∧
        (ofSolving graph ((Solving.step graph ⟨3, [(.ofNat 2, .narrow)]⟩)^[1]
          (.start graph))).entryAt 3 = some ⟨[.singleton ⟨.at 1, .ofNat 0, .low⟩,
            .singleton ⟨.at 1, .ofNat 0, .high⟩, .singleton ⟨.param, .ofNat 2, .narrow⟩]⟩ :=
    exists_ok_of_decide (by decide +kernel)
  have solved := Solving.solveReaching_of_empty empty
  obtain ⟨state, place, other, enters, genuine, -⟩ := entryAt_genuine success solved
    (.ofOpcode 3 .returnVoid [] none none) (by decide)
  obtain rfl := Option.some.inj (found.symm.trans enters)
  exact ⟨graph, _, _, place, success, solved, enters, ⟨_, rfl, List.mem_singleton_self _⟩,
    ⟨_, rfl, List.mem_singleton_self _⟩, genuine⟩

/-- In a frame of one register the wide zero is not written: the other one is reported
before the `return-void`, although each route there passes the `const-wide`. -/
theorem not_clear_widened : ∃ graph dataflow state,
    FlowGraph.build (.widened 1) .empty = .ok graph ∧
      solveReaching graph ⟨1, []⟩ = some dataflow ∧ dataflow.entryAt 3 = some state ∧
      state.Holds 0 ⟨.at 0, .ofNat 0, .narrow⟩ ∧
      ∀ origin first place last done, graph.instructionAt? origin = some first → first.addr = 0 →
        graph.instructionAt? place = some last → last.addr = 3 → graph.Route origin.next done place →
        ∃ instruction ∈ done, instruction.touches (.ofNat 0) .narrow = true := by
  obtain ⟨graph, success, empty, found, edges, blocks⟩ : ∃ graph,
      FlowGraph.build (.widened 1) .empty = .ok graph ∧
        ((Solving.step graph ⟨1, []⟩)^[1] (.start graph)).queue = [] ∧
        (ofSolving graph ((Solving.step graph ⟨1, []⟩)^[1] (.start graph))).entryAt 3 =
          some ⟨[.singleton ⟨.at 0, .ofNat 0, .narrow⟩]⟩ ∧
        graph.edges = [] ∧ graph.blocks = [⟨(Code.widened 1).instructions⟩] :=
    exists_ok_of_decide (by decide +kernel)
  refine ⟨graph, _, _, success, Solving.solveReaching_of_empty empty, found,
    ⟨_, rfl, List.mem_singleton_self _⟩, ?_⟩
  have only : ∀ place instruction, graph.instructionAt? place = some instruction →
      place.block = 0 ∧ (Code.widened 1).instructions[place.index]? = some instruction := by
    intro place instruction next
    rw [instructionAt?, instructionsOf, blocks] at next
    cases isBlock : place.block with
    | zero => exact ⟨rfl, by simpa [isBlock] using next⟩
    | succ block => simp [isBlock] at next
  have passes : ∀ done place, graph.Route ⟨0, 1⟩ done place →
      place = ⟨0, 1⟩ ∨ ∃ instruction ∈ done, instruction.touches (.ofNat 0) .narrow = true := by
    intro done place route
    induction route with
    | here => exact .inl rfl
    | past _ next ih =>
        right
        rcases ih with rfl | ⟨instruction, member, touches⟩
        · obtain rfl := Option.some.inj (only _ _ next).2
          exact ⟨_, List.mem_cons_self, by decide⟩
        · exact ⟨instruction, List.mem_cons_of_mem _ member, touches⟩
    | onward _ listed _ | caught _ listed _ => simp [edges] at listed
  have only_first : ∀ index < 3,
      (Code.widened 1).instructions[index]?.map Instruction.addr = some 0 → index = 0 := by decide
  intro origin first place last done isFirst atFirst isLast atLast route
  obtain ⟨inFirst, isFirst⟩ := only origin first isFirst
  have same : origin = ⟨0, 0⟩ := by
    obtain ⟨block, index⟩ := origin
    obtain rfl : block = 0 := inFirst
    obtain rfl := only_first index (List.getElem?_eq_some_iff.mp isFirst).1
      (by rw [isFirst, Option.map_some, atFirst])
    rfl
  rw [same] at route
  refine (passes done place route).resolve_left ?_
  rintro rfl
  obtain rfl := Option.some.inj (only _ _ isLast).2
  exact absurd atLast (by decide)

end Dataflow

end Dalvik
