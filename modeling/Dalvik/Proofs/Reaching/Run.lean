import Dalvik.Proofs.Flow.Search
import Dalvik.Proofs.Reaching.State
import Mathlib.Order.Bounds.Basic

/-!
# Runs of the solver

A step takes the first block of the queue: it sets the states of this block
only, and if they change it queues the known blocks after it.  A run has a
result exactly when steps from its start empty the queue, so what holds at the
start and passes on to each step holds of the result.
-/

namespace Dalvik

def FlowGraph.instructionsOf (graph : FlowGraph) (number : Nat) : List Instruction :=
  (graph.blocks[number]?.map Block.instructions).getD []

theorem FlowGraph.mem_instructionsOf {graph : FlowGraph} {number : Nat} {instruction : Instruction}
    (listed : instruction ∈ graph.instructionsOf number) :
    ∃ block ∈ graph.blocks, instruction ∈ block.instructions := by
  unfold instructionsOf at listed
  cases place : graph.blocks[number]? with
  | none => simp [place] at listed
  | some block =>
      rw [place] at listed
      exact ⟨block, List.mem_of_getElem? place, listed⟩

namespace Solving

variable {graph : FlowGraph} {frame : RegisterFrame}

def statesNow (graph : FlowGraph) (frame : RegisterFrame) (solving : Solving) (block : Nat) :
    BlockStates :=
  let entry := entryOf graph frame solving block
  ⟨entry, exitOf entry (graph.instructionsOf block)⟩

/-- The states that control brings to the start of a block. -/
inductive FlowsInto (graph : FlowGraph) (frame : RegisterFrame) (solving : Solving) (block : Nat) :
    Reaching → Prop where
  | start (isStart : block = graph.start) :
      FlowsInto graph frame solving block (Reaching.init frame)
  | along {edge : Edge} {state : Reaching} (listed : edge ∈ graph.edges)
      (leads : edge.target = block) (passes : solving.passedOn edge = some state) :
      FlowsInto graph frame solving block state

theorem passedOn_eq {solving : Solving} {edge : Edge} {states : BlockStates}
    (known : solving.statesOf edge.source = some states) :
    solving.passedOn edge = some (if edge.branch.isCatch then states.entry else states.exit) := by
  rw [passedOn, known, Option.map_some]

theorem mem_incoming {edge : Edge} {block : Nat} :
    edge ∈ graph.incoming block ↔ edge ∈ graph.edges ∧ edge.target = block := by
  simp [FlowGraph.incoming]

theorem foldl_joinInto (passed : List Reaching) (first : Reaching) :
    ∃ joined, passed.foldl joinInto (some first) = some joined ∧
      ∀ upper, joined ≤ upper ↔ first ≤ upper ∧ ∀ state ∈ passed, state ≤ upper := by
  induction passed generalizing first with
  | nil => exact ⟨first, rfl, by simp⟩
  | cons state rest ih =>
      obtain ⟨joined, result, bounds⟩ := ih (first.join state)
      refine ⟨joined, result, fun upper => ?_⟩
      rw [bounds, Reaching.join_eq_sup, sup_le_iff, List.forall_mem_cons, and_assoc]

theorem flowsInto_iff {solving : Solving} {block : Nat} {state : Reaching} :
    FlowsInto graph frame solving block state ↔
      (block = graph.start ∧ state = Reaching.init frame) ∨
        state ∈ (graph.incoming block).filterMap solving.passedOn := by
  simp only [List.mem_filterMap, mem_incoming]
  constructor
  · intro flows
    cases flows with
    | start isStart => exact .inl ⟨isStart, rfl⟩
    | along listed leads passes => exact .inr ⟨_, ⟨listed, leads⟩, passes⟩
  · rintro (⟨isStart, rfl⟩ | ⟨edge, ⟨listed, leads⟩, passes⟩)
    · exact .start isStart
    · exact .along listed leads passes

theorem entryOf_le_iff {solving : Solving} {block : Nat}
    (brought : ∃ state, FlowsInto graph frame solving block state) (upper : Reaching) :
    entryOf graph frame solving block ≤ upper ↔
      ∀ state, FlowsInto graph frame solving block state → state ≤ upper := by
  simp only [flowsInto_iff] at brought ⊢
  unfold entryOf
  by_cases isStart : block = graph.start
  · obtain ⟨joined, result, bounds⟩ :=
      foldl_joinInto ((graph.incoming block).filterMap solving.passedOn) (Reaching.init frame)
    simp only [isStart, if_true] at result ⊢
    rw [result, Option.getD_some, bounds]
    simp [isStart, or_imp, forall_and]
  · cases passed : (graph.incoming block).filterMap solving.passedOn with
    | nil => simp [isStart, passed] at brought
    | cons first rest =>
        obtain ⟨joined, result, bounds⟩ := foldl_joinInto rest first
        simp only [isStart, if_false, List.foldl_cons, joinInto, false_and, false_or,
          List.forall_mem_cons]
        rw [result, Option.getD_some, bounds]

/-- The entry state is the least one above all states that control brings. -/
theorem isLUB_entryOf {solving : Solving} {block : Nat}
    (brought : ∃ state, FlowsInto graph frame solving block state) :
    IsLUB {state | FlowsInto graph frame solving block state}
      (entryOf graph frame solving block) :=
  ⟨(entryOf_le_iff brought _).mp le_rfl, fun _ above => (entryOf_le_iff brought _).mpr above⟩

/-- Where control brings no state the entry state is the initial one. -/
theorem entryOf_eq_init {solving : Solving} {block : Nat}
    (nothing : ∀ state, ¬ FlowsInto graph frame solving block state) :
    entryOf graph frame solving block = Reaching.init frame := by
  simp only [flowsInto_iff, not_or, ← List.eq_nil_iff_forall_not_mem, forall_and] at nothing
  have notStart : block ≠ graph.start := fun isStart => nothing.1 _ ⟨isStart, rfl⟩
  simp [entryOf, nothing.2, notStart]

/-- What holds of the states that control brings, of the initial state where it brings
none, and of joins of such states, holds of the entry state. -/
theorem entryOf_induction {property : Reaching → Prop} {solving : Solving} {block : Nat}
    (initial : (∀ state, ¬ FlowsInto graph frame solving block state) →
      property (Reaching.init frame))
    (joins : ∀ first second, property first → property second → property (first ⊔ second))
    (flows : ∀ state, FlowsInto graph frame solving block state → property state) :
    property (entryOf graph frame solving block) := by
  have folds : ∀ (states : List Reaching) (first : Reaching), (∀ state ∈ states, property state) →
      property first → ∀ joined, states.foldl joinInto (some first) = some joined →
        property joined := by
    intro states
    induction states with
    | nil => exact fun first _ holds joined same => Option.some.inj same ▸ holds
    | cons next rest ih =>
        intro first each holds
        obtain ⟨isNext, others⟩ := List.forall_mem_cons.mp each
        exact ih (first ⊔ next) others (joins first next holds isNext)
  have passed : ∀ state ∈ (graph.incoming block).filterMap solving.passedOn, property state :=
    fun state member => flows state (flowsInto_iff.mpr (.inr member))
  by_cases nothing : ∀ state, ¬ FlowsInto graph frame solving block state
  · rw [entryOf_eq_init nothing]
    exact initial nothing
  · unfold entryOf
    by_cases isStart : block = graph.start
    · obtain ⟨joined, result, -⟩ :=
        foldl_joinInto ((graph.incoming block).filterMap solving.passedOn) (Reaching.init frame)
      simp only [isStart, if_true] at result passed ⊢
      rw [result]
      exact folds _ _ passed (flows _ (.start isStart)) _ result
    · cases isPassed : (graph.incoming block).filterMap solving.passedOn with
      | nil => simp [flowsInto_iff, isStart, isPassed] at nothing
      | cons first rest =>
          rw [isPassed] at passed
          obtain ⟨isFirst, others⟩ := List.forall_mem_cons.mp passed
          obtain ⟨joined, result, -⟩ := foldl_joinInto rest first
          simp only [isStart, if_false, List.foldl_cons, joinInto]
          rw [result]
          exact folds _ _ others isFirst _ result

/-- The entry state depends on what the edges into a block pass on. -/
theorem entryOf_congr {first second : Solving} {block : Nat}
    (same : ∀ edge ∈ graph.edges, edge.target = block → first.passedOn edge = second.passedOn edge) :
    entryOf graph frame first block = entryOf graph frame second block := by
  have passed : (graph.incoming block).filterMap first.passedOn =
      (graph.incoming block).filterMap second.passedOn := by
    refine List.filterMap_congr fun edge listed => ?_
    obtain ⟨isEdge, leads⟩ := mem_incoming.mp listed
    exact same edge isEdge leads
  unfold entryOf
  rw [passed]

theorem mem_requeue {known : List (Option BlockStates)} {queue : List Nat} {block other : Nat} :
    other ∈ requeue known queue block ↔
      other ∈ queue ∨ (other = block ∧ ((known[block]?).join).isSome = true) := by
  unfold requeue
  by_cases isKnown : ((known[block]?).join).isSome = true
  · by_cases queued : block ∈ queue
    · simp only [isKnown, List.contains_iff_mem.mpr queued, Bool.not_true, Bool.and_false,
        Bool.false_eq_true, if_false, and_true]
      exact ⟨.inl, fun either => either.elim id (fun same => same ▸ queued)⟩
    · simp [isKnown, queued]
  · simp [isKnown]

theorem mem_requeueAll {known : List (Option BlockStates)} {queue blocks : List Nat} {other : Nat} :
    other ∈ blocks.foldl (requeue known) queue ↔
      other ∈ queue ∨ (other ∈ blocks ∧ ((known[other]?).join).isSome = true) := by
  induction blocks generalizing queue with
  | nil => simp
  | cons block rest ih =>
      rw [List.foldl_cons, ih, mem_requeue, List.mem_cons, or_and_right, or_assoc]
      refine or_congr_right (or_congr_left (and_congr_right ?_))
      rintro rfl
      exact Iff.rfl

/-- Blocks are queued at the end, and only known ones. -/
theorem requeueAll_appends (known : List (Option BlockStates)) (queue blocks : List Nat) :
    ∃ extra, blocks.foldl (requeue known) queue = queue ++ extra ∧
      ∀ other ∈ extra, ((known[other]?).join).isSome = true := by
  induction blocks generalizing queue with
  | nil => exact ⟨[], (List.append_nil _).symm, by simp⟩
  | cons block rest ih =>
      obtain ⟨extra, appended, allKnown⟩ := ih (requeue known queue block)
      rw [List.foldl_cons, appended]
      unfold requeue
      split
      · rename_i added
        refine ⟨block :: extra, by rw [List.append_assoc, List.singleton_append], ?_⟩
        exact List.forall_mem_cons.mpr ⟨(Bool.and_eq_true_iff.mp added).1, allKnown⟩
      · exact ⟨extra, rfl, allKnown⟩

theorem mem_outgoing {block other : Nat} :
    other ∈ (graph.outgoing block).map Edge.target ↔ graph.Leads block other := by
  simp only [FlowGraph.outgoing, FlowGraph.Leads, FlowGraph.successors, List.map_reverse,
    List.mem_reverse]

/-- What taking the first block of the queue does. -/
structure Takes (graph : FlowGraph) (frame : RegisterFrame) (before : Solving) (block : Nat)
    (rest : List Nat) (after : Solving) : Prop where
  length : after.known.length = before.known.length
  own : after.statesOf block = some (statesNow graph frame before block)
  others : ∀ other, other ≠ block → after.statesOf other = before.statesOf other
  same : before.statesOf block = after.statesOf block → after.queue = rest
  changed : before.statesOf block ≠ after.statesOf block → ∀ other, other ∈ after.queue ↔
    other ∈ rest ∨ (graph.Leads block other ∧ (before.statesOf other).isSome = true)
  appends : ∃ extra, after.queue = rest ++ extra ∧
    ∀ other ∈ extra, (before.statesOf other).isSome = true
  taken : after.taken = block :: before.taken.filter (· != block)

theorem Takes.keeps {before after : Solving} {block other : Nat} {rest : List Nat}
    (takes : Takes graph frame before block rest after) (member : other ∈ rest) :
    other ∈ after.queue := by
  by_cases unchanged : before.statesOf block = after.statesOf block
  · rwa [takes.same unchanged]
  · exact (takes.changed unchanged other).mpr (.inl member)

theorem Takes.mem_queue {before after : Solving} {block other : Nat} {rest : List Nat}
    (takes : Takes graph frame before block rest after) (member : other ∈ after.queue) :
    other ∈ rest ∨ (graph.Leads block other ∧ (before.statesOf other).isSome = true) := by
  by_cases unchanged : before.statesOf block = after.statesOf block
  · rw [takes.same unchanged] at member
    exact .inl member
  · exact (takes.changed unchanged other).mp member

/-- A block that is known stays known. -/
theorem Takes.stays {before after : Solving} {block other : Nat} {rest : List Nat}
    (takes : Takes graph frame before block rest after)
    (isKnown : (before.statesOf other).isSome = true) : (after.statesOf other).isSome = true := by
  by_cases same : other = block
  · simp [same, takes.own]
  · rwa [takes.others other same]

/-- The states a block has after a step are new if it was taken, else those it had. -/
theorem Takes.statesOf_cases {before after : Solving} {block other : Nat} {rest : List Nat}
    {states : BlockStates} (takes : Takes graph frame before block rest after)
    (known : after.statesOf other = some states) :
    (other = block ∧ states = statesNow graph frame before block) ∨
      (other ≠ block ∧ before.statesOf other = some states) := by
  by_cases same : other = block
  · rw [same, takes.own] at known
    exact .inl ⟨same, (Option.some.inj known).symm⟩
  · rw [takes.others other same] at known
    exact .inr ⟨same, known⟩

theorem step_nil {solving : Solving} (empty : solving.queue = []) :
    solving.step graph frame = solving := by
  rw [step, empty]

theorem step_eq {solving : Solving} {block : Nat} {rest : List Nat}
    (first : solving.queue = block :: rest) :
    solving.step graph frame =
      { known := solving.known.set block (some (statesNow graph frame solving block))
        queue := if solving.statesOf block = some (statesNow graph frame solving block) then rest
          else ((graph.outgoing block).map Edge.target).foldl (requeue solving.known) rest
        taken := block :: solving.taken.filter (· != block) } := by
  rw [step, first]
  rfl

theorem step_cons {solving : Solving} {block : Nat} {rest : List Nat}
    (first : solving.queue = block :: rest) (inside : block < solving.known.length) :
    Takes graph frame solving block rest (solving.step graph frame) := by
  have step := @step_eq graph frame solving block rest first
  have own : (solving.step graph frame).statesOf block =
      some (statesNow graph frame solving block) := by
    simp [step, statesOf, inside]
  refine ⟨by simp [step], own, ?_, ?_, ?_, ?_, by rw [step]⟩
  · intro other different
    simp [step, statesOf, Ne.symm different]
  · intro unchanged
    rw [own] at unchanged
    rw [step, if_pos unchanged]
  · intro differ other
    rw [own] at differ
    rw [step, if_neg differ, mem_requeueAll, mem_outgoing]
    rfl
  · rw [step]
    by_cases unchanged : solving.statesOf block = some (statesNow graph frame solving block)
    · rw [if_pos unchanged]
      exact ⟨[], (List.append_nil _).symm, by simp⟩
    · rw [if_neg unchanged]
      exact requeueAll_appends _ _ _

/-- What holds before each step and after it holds after any number of steps. -/
theorem iterate_invariant {property : Solving → Prop} {start : Solving} (holds : property start)
    (next : ∀ solving, property solving → property (solving.step graph frame)) (count : Nat) :
    property ((step graph frame)^[count] start) := by
  induction count with
  | zero => exact holds
  | succ count ih =>
      rw [Function.iterate_succ_apply']
      exact next _ ih

/-- A run has a result exactly when steps empty the queue. -/
theorem run_eq_some {start final : Solving} :
    run graph frame start = some final ↔
      ∃ count, (step graph frame)^[count] start = final ∧ final.queue = [] := by
  constructor
  · intro result
    refine run.partial_correctness graph frame
      (fun start final => ∃ count, (step graph frame)^[count] start = final ∧ final.queue = [])
      ?_ start final result
    intro rest ih start final result
    split at result
    · rename_i empty
      obtain rfl := Option.some.inj result
      exact ⟨0, rfl, List.isEmpty_iff.mp empty⟩
    · obtain ⟨count, reached, empty⟩ := ih _ _ result
      exact ⟨count + 1, reached, empty⟩
  · rintro ⟨count, reached, empty⟩
    induction count generalizing start with
    | zero =>
        obtain rfl : start = final := reached
        rw [run, if_pos (List.isEmpty_iff.mpr empty)]
    | succ count ih =>
        rw [run]
        by_cases done : start.queue = []
        · rw [if_pos (List.isEmpty_iff.mpr done)]
          rw [Function.iterate_fixed (step_nil done)] at reached
          rw [reached]
        · rw [if_neg (fun isEmpty => done (List.isEmpty_iff.mp isEmpty))]
          exact ih reached

/-- Steps that empty the queue give a result. -/
theorem solveReaching_of_empty {count : Nat}
    (empty : ((step graph frame)^[count] (start graph)).queue = []) :
    solveReaching graph frame =
      some (Dataflow.ofSolving graph ((step graph frame)^[count] (start graph))) := by
  rw [solveReaching, run_eq_some.mpr ⟨count, rfl, empty⟩, Option.map_some]

/-- What holds at every point of a run: the states of a block belong together, and
a block without states is queued. -/
structure Consistent (graph : FlowGraph) (frame : RegisterFrame) (solving : Solving) : Prop where
  length : solving.known.length = graph.blocks.length
  queue_lt : ∀ block ∈ solving.queue, block < graph.blocks.length
  queued : ∀ block < graph.blocks.length, solving.statesOf block = none → block ∈ solving.queue
  exit : ∀ block states, solving.statesOf block = some states →
    states.exit = exitOf states.entry (graph.instructionsOf block)
  registers : ∀ block states, solving.statesOf block = some states →
    states.entry.regs.length = frame.registers
  taken : ∀ block, block ∈ solving.taken ↔ (solving.statesOf block).isSome = true

theorem statesOf_start (block : Nat) : (start graph).statesOf block = none := by
  simp only [statesOf, start, List.getElem?_replicate]
  split <;> rfl

theorem consistent_start (closed : graph.Closed) (frame : RegisterFrame) :
    Consistent graph frame (start graph) where
  length := List.length_replicate
  queue_lt block member := (FlowGraph.mem_schedule closed).mp member
  queued block inside _ := (FlowGraph.mem_schedule closed).mpr inside
  exit block states known := by simp [statesOf_start] at known
  registers block states known := by simp [statesOf_start] at known
  taken block := by
    rw [statesOf_start]
    exact iff_of_false List.not_mem_nil Bool.false_ne_true

namespace Consistent

variable {solving : Solving}

theorem lt (consistent : Consistent graph frame solving) {block : Nat}
    (isKnown : (solving.statesOf block).isSome = true) : block < graph.blocks.length := by
  by_contra outside
  rw [← consistent.length] at outside
  simp [statesOf, List.getElem?_eq_none (Nat.not_lt.mp outside)] at isKnown

/-- The states that are passed on have the registers of the frame. -/
theorem passed_registers (consistent : Consistent graph frame solving) {edge : Edge}
    {state : Reaching} (passes : solving.passedOn edge = some state) :
    state.regs.length = frame.registers := by
  obtain ⟨states, isKnown, rfl⟩ := Option.map_eq_some_iff.mp passes
  have entry := consistent.registers edge.source states isKnown
  split
  · exact entry
  · rw [consistent.exit edge.source states isKnown, length_exitOf, entry]

theorem entryOf_registers (consistent : Consistent graph frame solving) (block : Nat) :
    (entryOf graph frame solving block).regs.length = frame.registers := by
  refine @entryOf_induction graph frame (fun state => state.regs.length = frame.registers) _ _
    (fun _ => Reaching.length_init frame) ?_ ?_
  · intro first second firstLength secondLength
    rw [← Reaching.join_eq_sup, Reaching.length_join, firstLength, secondLength, Nat.max_self]
  · rintro state (_ | ⟨_, _, passes⟩)
    · exact Reaching.length_init frame
    · exact consistent.passed_registers passes

/-- A step takes the first block of the queue, if there is one. -/
theorem step_cases (consistent : Consistent graph frame solving) :
    (solving.queue = [] ∧ solving.step graph frame = solving) ∨
      ∃ block rest, solving.queue = block :: rest ∧ block < graph.blocks.length ∧
        Takes graph frame solving block rest (solving.step graph frame) := by
  cases first : solving.queue with
  | nil => exact .inl ⟨rfl, step_nil first⟩
  | cons block rest =>
      have inside := consistent.queue_lt block (first ▸ List.mem_cons_self)
      exact .inr ⟨block, rest, rfl, inside, step_cons first (consistent.length ▸ inside)⟩

theorem step (consistent : Consistent graph frame solving) :
    Consistent graph frame (solving.step graph frame) := by
  rcases consistent.step_cases with ⟨-, same⟩ | ⟨block, rest, first, inside, takes⟩
  · rwa [same]
  · exact {
      length := takes.length.trans consistent.length
      queue_lt := by
        intro other member
        rcases takes.mem_queue member with inRest | ⟨-, isKnown⟩
        · exact consistent.queue_lt other (first ▸ List.mem_cons_of_mem _ inRest)
        · exact consistent.lt isKnown
      queued := by
        intro other inside' unknown
        have different : other ≠ block := by
          rintro rfl
          simp [takes.own] at unknown
        rw [takes.others other different] at unknown
        have member := consistent.queued other inside' unknown
        rw [first] at member
        exact takes.keeps ((List.mem_cons.mp member).resolve_left different)
      exit := by
        intro other states known
        rcases takes.statesOf_cases known with ⟨rfl, rfl⟩ | ⟨-, before⟩
        · rfl
        · exact consistent.exit other states before
      registers := by
        intro other states known
        rcases takes.statesOf_cases known with ⟨rfl, rfl⟩ | ⟨-, before⟩
        · exact consistent.entryOf_registers other
        · exact consistent.registers other states before
      taken := by
        intro other
        by_cases same : other = block
        · simp [takes.taken, takes.own, same]
        · simp [takes.taken, takes.others other same, same, consistent.taken other] }

end Consistent

/-- A property that the initial state has and that joins and the instructions of a graph
keep. -/
structure Preserved (graph : FlowGraph) (frame : RegisterFrame) (property : Reaching → Prop) : Prop where
  init : property (Reaching.init frame)
  join : ∀ first second, property first → property second → property (first ⊔ second)
  transfer : ∀ block, ∀ instruction ∈ graph.instructionsOf block, ∀ state, property state →
    property (state.transfer instruction)

namespace Preserved

variable {property : Reaching → Prop} {solving : Solving}

theorem exitOf (preserved : Preserved graph frame property) {block : Nat} {instructions : List Instruction}
    (listed : ∀ instruction ∈ instructions, instruction ∈ graph.instructionsOf block)
    {entry : Reaching} (holds : property entry) : property (Solving.exitOf entry instructions) :=
  List.foldlRecOn instructions _ holds fun state holds instruction member =>
    preserved.transfer block instruction (listed instruction member) state holds

/-- What the known entry states have the next one has as well. -/
theorem entryOf (preserved : Preserved graph frame property) (consistent : Consistent graph frame solving)
    (known : ∀ block states, solving.statesOf block = some states → property states.entry)
    (block : Nat) : property (Solving.entryOf graph frame solving block) := by
  refine entryOf_induction (fun _ => preserved.init) preserved.join ?_
  rintro state (_ | @⟨edge, _, _, _, passes⟩)
  · exact preserved.init
  · obtain ⟨states, isKnown, rfl⟩ := Option.map_eq_some_iff.mp passes
    have entry := known edge.source states isKnown
    split
    · exact entry
    · rw [consistent.exit edge.source states isKnown]
      exact preserved.exitOf (fun _ member => member) entry

theorem step (preserved : Preserved graph frame property) (consistent : Consistent graph frame solving)
    (known : ∀ block states, solving.statesOf block = some states → property states.entry) :
    ∀ block states, (solving.step graph frame).statesOf block = some states →
      property states.entry := by
  intro block states isKnown
  rcases consistent.step_cases with ⟨-, same⟩ | ⟨taken, rest, -, -, takes⟩
  · exact known block states (same ▸ isKnown)
  · rcases takes.statesOf_cases isKnown with ⟨rfl, rfl⟩ | ⟨-, before⟩
    · exact preserved.entryOf consistent known block
    · exact known block states before

/-- At every point of a run all entry states have a property that is preserved. -/
theorem iterate (preserved : Preserved graph frame property) (closed : graph.Closed) (count : Nat) :
    Consistent graph frame ((Solving.step graph frame)^[count] (start graph)) ∧
      ∀ block states,
        ((Solving.step graph frame)^[count] (start graph)).statesOf block = some states →
          property states.entry := by
  refine @iterate_invariant graph frame (fun solving => Consistent graph frame solving ∧
    ∀ block states, solving.statesOf block = some states → property states.entry) _
    ⟨consistent_start closed frame, fun block states known => ?_⟩ ?_ count
  · simp [statesOf_start] at known
  · rintro solving ⟨consistent, known⟩
    exact ⟨consistent.step, preserved.step consistent known⟩

end Preserved

end Solving

end Dalvik
