import Dalvik.Proofs.Flow.Reachability
import Dalvik.Proofs.Reaching.Turns
import Mathlib.Data.Finset.Option
import Mathlib.Data.Finset.Prod

/-!
# When the solver settles

A definition that an entry state gets is one of finitely many, so steps that only
add to entry states empty the queue.  An entry state is not kept, though, but
computed again from what is known, and may lose definitions: a block that was
taken first, from the initial state, and then from the blocks that lead to it.
The solver settles exactly if that happens finitely often, and it does not happen
at all where all blocks are reachable.
-/

namespace Dalvik

namespace Reaching

/-- The definitions that a write may leave in a register. -/
def halves (site : Site) (reg : Reg) : List Def :=
  [⟨site, reg, .narrow⟩, ⟨site, reg, .low⟩, ⟨site, reg, .high⟩]

theorem mem_halves (site : Site) (reg : Reg) (half : Half) : ⟨site, reg, half⟩ ∈ halves site reg := by
  cases half <;> simp [halves]

/-- Whether all definitions a state holds are among some. -/
def Within (defs : List Def) (state : Reaching) : Prop :=
  ∀ number d, state.Holds number d → d ∈ defs

theorem Within.write {defs : List Def} {state : Reaching} {site : Site} {reg : Reg}
    (within : state.Within defs) (listed : ∀ d ∈ halves site reg, d ∈ defs) (width : Width) :
    (state.write site reg width).Within defs := by
  intro number d holds
  by_cases outside : state.regs.length < reg.number + width.slots
  · rw [write_outside outside] at holds
    exact within number d holds
  · rcases (holds_write (Nat.not_lt.mp outside) _ number d).mp holds with ⟨-, rfl⟩ | ⟨kept, -⟩
    · exact listed _ (mem_halves site reg _)
    · exact within number d kept

theorem Within.sup {defs : List Def} {first second : Reaching} (firstWithin : first.Within defs)
    (secondWithin : second.Within defs) : (first ⊔ second).Within defs := by
  intro number d holds
  exact (holds_join.mp holds).elim (firstWithin number d) (secondWithin number d)

end Reaching

namespace Solving

variable {graph : FlowGraph} {frame : RegisterFrame}

/-- The definitions there can be: those of the arguments and of the instructions. -/
def possibleDefs (graph : FlowGraph) (frame : RegisterFrame) : List Def :=
  frame.params.flatMap (fun param => Reaching.halves .param param.1) ++
    graph.blocks.flatMap fun block => block.instructions.flatMap fun instruction =>
      instruction.definition.toList.flatMap fun value =>
        Reaching.halves (.at instruction.addr) value.1

theorem preserved_within (graph : FlowGraph) (frame : RegisterFrame) :
    Preserved graph frame (Reaching.Within (possibleDefs graph frame)) where
  init := by
    apply Reaching.init_induction (fun _ _ holds => absurd holds Reaching.not_holds_empty)
    intro param listed state within
    refine within.write (fun d isHalf => ?_) param.2
    exact List.mem_append_left _ (List.mem_flatMap.mpr ⟨param, listed, isHalf⟩)
  join _ _ := Reaching.Within.sup
  transfer block instruction listed state within := by
    cases writes : instruction.definition with
    | none => simpa only [Reaching.transfer, writes] using within
    | some value =>
        obtain ⟨reg, width⟩ := value
        simp only [Reaching.transfer, writes]
        refine within.write (fun d isHalf => List.mem_append_right _ ?_) width
        obtain ⟨found, inBlocks, inBlock⟩ := FlowGraph.mem_instructionsOf listed
        exact List.mem_flatMap.mpr ⟨found, inBlocks, List.mem_flatMap.mpr
          ⟨instruction, inBlock, List.mem_flatMap.mpr ⟨(reg, width), by simp [writes], isHalf⟩⟩⟩

/-- Whether the states of the known blocks hold possible definitions only. -/
def AllWithin (graph : FlowGraph) (frame : RegisterFrame) (solving : Solving) : Prop :=
  ∀ block states, solving.statesOf block = some states →
    states.entry.Within (possibleDefs graph frame)

/-- What can become known: the states of a block, and a definition in a register of
its entry state. -/
def Present (solving : Solving) (block : Nat) : Option (Nat × Def) → Prop
  | none => (solving.statesOf block).isSome = true
  | some (number, d) => ∃ states, solving.statesOf block = some states ∧
      states.entry.Holds number d

def possibleFacts (graph : FlowGraph) (frame : RegisterFrame) :
    Finset (Nat × Option (Nat × Def)) :=
  Finset.range graph.blocks.length ×ˢ
    (Finset.range frame.registers ×ˢ (possibleDefs graph frame).toFinset).insertNone

open Classical in
noncomputable def missing (graph : FlowGraph) (frame : RegisterFrame) (solving : Solving) : Nat :=
  ((possibleFacts graph frame).filter fun fact => ¬ solving.Present fact.1 fact.2).card

/-- The next block to be taken gets an entry state that lacks a definition it had. -/
def Shrinks (graph : FlowGraph) (frame : RegisterFrame) (solving : Solving) : Prop :=
  ∃ block rest states, solving.queue = block :: rest ∧ solving.statesOf block = some states ∧
    ¬ states.entry ≤ entryOf graph frame solving block

theorem le_entryOf_of_not_shrinks {solving : Solving} {block : Nat} {rest : List Nat}
    {states : BlockStates} (first : solving.queue = block :: rest)
    (known : solving.statesOf block = some states) (grows : ¬ Shrinks graph frame solving) :
    states.entry ≤ entryOf graph frame solving block := by
  by_contra loses
  exact grows ⟨block, rest, states, first, known, loses⟩

/-- A step that does not shrink a state keeps what is known. -/
theorem present_step {before after : Solving} {block : Nat} {rest : List Nat}
    (first : before.queue = block :: rest) (takes : Takes graph frame before block rest after)
    (grows : ¬ Shrinks graph frame before) {other : Nat} {fact : Option (Nat × Def)}
    (present : before.Present other fact) : after.Present other fact := by
  by_cases same : other = block
  · obtain rfl := same
    cases fact with
    | none => simp [Present, takes.own]
    | some pair =>
        obtain ⟨states, known, holds⟩ := present
        have below := le_entryOf_of_not_shrinks first known grows
        exact ⟨_, takes.own, below.2 pair.1 pair.2 holds⟩
  · have states := takes.others other same
    cases fact with
    | none => rwa [Present, states]
    | some pair => rwa [Present, states]

/-- A step that changes states without shrinking one makes something known. -/
theorem present_new {before after : Solving} {block : Nat} {rest : List Nat}
    (consistent : Consistent graph frame before) (within : AllWithin graph frame before)
    (inside : block < graph.blocks.length)
    (first : before.queue = block :: rest) (takes : Takes graph frame before block rest after)
    (grows : ¬ Shrinks graph frame before)
    (changed : before.statesOf block ≠ after.statesOf block) :
    ∃ fact, (block, fact) ∈ possibleFacts graph frame ∧ after.Present block fact ∧
      ¬ before.Present block fact := by
  cases known : before.statesOf block with
  | none =>
      refine ⟨none, ?_, by simp [Present, takes.own], by simp [Present, known]⟩
      exact Finset.mem_product.mpr ⟨Finset.mem_range.mpr inside, Finset.none_mem_insertNone⟩
  | some states =>
      have below := le_entryOf_of_not_shrinks first known grows
      have registers := consistent.entryOf_registers block
      -- With the same definitions the states would be the same.
      obtain ⟨number, d, holds, new⟩ : ∃ number d,
          (entryOf graph frame before block).Holds number d ∧ ¬ states.entry.Holds number d := by
        by_contra same
        simp only [not_exists, not_and, not_not] at same
        have entry : states.entry = entryOf graph frame before block :=
          Reaching.eq_of_holds ((consistent.registers block states known).trans registers.symm)
            fun number d => ⟨below.2 number d, same number d⟩
        refine changed (known.trans (Eq.trans ?_ takes.own.symm))
        have exit := consistent.exit block states known
        rw [entry] at exit
        rw [statesNow, ← exit, ← entry]
      refine ⟨some (number, d), ?_, ⟨_, takes.own, holds⟩, ?_⟩
      · refine Finset.mem_product.mpr ⟨Finset.mem_range.mpr inside, Finset.some_mem_insertNone.mpr ?_⟩
        exact Finset.mem_product.mpr ⟨Finset.mem_range.mpr (registers ▸ holds.lt),
          List.mem_toFinset.mpr ((preserved_within graph frame).entryOf consistent within block number d holds)⟩
      · rintro ⟨other, isKnown, old⟩
        obtain rfl := Option.some.inj (known.symm.trans isKnown)
        exact new old

theorem missing_step_le {before after : Solving} {block : Nat} {rest : List Nat}
    (first : before.queue = block :: rest) (takes : Takes graph frame before block rest after)
    (grows : ¬ Shrinks graph frame before) :
    missing graph frame after ≤ missing graph frame before := by
  classical
  refine Finset.card_le_card (Finset.monotone_filter_right _ fun fact _ absent present => ?_)
  exact absent (present_step first takes grows present)

theorem missing_step_lt {before after : Solving} {block : Nat} {rest : List Nat}
    (consistent : Consistent graph frame before) (within : AllWithin graph frame before)
    (inside : block < graph.blocks.length)
    (first : before.queue = block :: rest) (takes : Takes graph frame before block rest after)
    (grows : ¬ Shrinks graph frame before)
    (changed : before.statesOf block ≠ after.statesOf block) :
    missing graph frame after < missing graph frame before := by
  classical
  obtain ⟨fact, possible, now, notBefore⟩ :=
    present_new consistent within inside first takes grows changed
  refine Finset.card_lt_card (Finset.ssubset_iff_of_subset ?_ |>.mpr ⟨(block, fact), ?_, ?_⟩)
  · refine Finset.monotone_filter_right _ fun other _ absent present => ?_
    exact absent (present_step first takes grows present)
  · exact Finset.mem_filter.mpr ⟨possible, notBefore⟩
  · exact fun member => (Finset.mem_filter.mp member).2 now

/-- Steps that shrink no state empty the queue. -/
theorem empties_of_grows {invariant : Solving → Prop}
    (next : ∀ solving, invariant solving → invariant (solving.step graph frame))
    (grows : ∀ solving, invariant solving → ¬ Shrinks graph frame solving)
    (solving : Solving) (consistent : Consistent graph frame solving)
    (within : AllWithin graph frame solving) (holds : invariant solving) :
    ∃ count, ((step graph frame)^[count] solving).queue = [] := by
  rcases consistent.step_cases with ⟨empty, -⟩ | ⟨block, rest, first, inside, takes⟩
  · exact ⟨0, empty⟩
  · obtain ⟨count, empty⟩ := empties_of_grows next grows (solving.step graph frame) consistent.step
      ((preserved_within graph frame).step consistent within) (next solving holds)
    exact ⟨count + 1, empty⟩
termination_by (missing graph frame solving, solving.queue.length)
decreasing_by
  by_cases changed : solving.statesOf block = (solving.step graph frame).statesOf block
  · have shorter : (solving.step graph frame).queue.length < solving.queue.length := by
      rw [takes.same changed, first]
      exact Nat.lt_succ_self _
    rcases (missing_step_le first takes (grows solving holds)).lt_or_eq with less | same
    · exact Prod.Lex.left _ _ less
    · rw [same]
      exact Prod.Lex.right _ shorter
  · exact Prod.Lex.left _ _
      (missing_step_lt consistent within inside first takes (grows solving holds) changed)

def Settles (graph : FlowGraph) (frame : RegisterFrame) : Prop :=
  ∃ final, run graph frame (start graph) = some final

theorem settles_iff_empties : Settles graph frame ↔
    ∃ count, ((step graph frame)^[count] (start graph)).queue = [] := by
  constructor
  · rintro ⟨final, result⟩
    obtain ⟨count, reached, empty⟩ := run_eq_some.mp result
    exact ⟨count, reached ▸ empty⟩
  · rintro ⟨count, empty⟩
    exact ⟨_, run_eq_some.mpr ⟨count, rfl, empty⟩⟩

/-- What every point of a run satisfies. -/
theorem iterate_within (closed : graph.Closed) (count : Nat) :
    Consistent graph frame ((step graph frame)^[count] (start graph)) ∧
      AllWithin graph frame ((step graph frame)^[count] (start graph)) :=
  (preserved_within graph frame).iterate closed count

/-- A run comes to a result exactly if from some step on no state shrinks. -/
theorem settles_iff_finitely_many_shrink (closed : graph.Closed) : Settles graph frame ↔
    ∃ count, ∀ later ≥ count, ¬ Shrinks graph frame ((step graph frame)^[later] (start graph)) := by
  rw [settles_iff_empties]
  constructor
  · rintro ⟨count, empty⟩
    refine ⟨count, fun later after => ?_⟩
    obtain ⟨more, rfl⟩ := Nat.exists_eq_add_of_le after
    rw [Nat.add_comm, Function.iterate_add_apply, Function.iterate_fixed (step_nil empty)]
    rintro ⟨block, rest, states, first, -⟩
    rw [empty] at first
    cases first
  · rintro ⟨count, grows⟩
    obtain ⟨consistent, within⟩ := @iterate_within graph frame closed count
    obtain ⟨more, empty⟩ := @empties_of_grows graph frame
      (fun solving => ∃ later ≥ count, solving = (step graph frame)^[later] (start graph))
      (by
        rintro solving ⟨later, after, rfl⟩
        exact ⟨later + 1, Nat.le_succ_of_le after, (Function.iterate_succ_apply' _ _ _).symm⟩)
      (by
        rintro solving ⟨later, after, rfl⟩
        exact grows later after)
      _ consistent within ⟨count, Nat.le_refl _, rfl⟩
    exact ⟨more + count, by rwa [Function.iterate_add_apply]⟩

/-- Blocks that edges lead to come after the source of one of these edges. -/
def SourceFirst (graph : FlowGraph) : Prop :=
  ∀ block < graph.blocks.length, block ≠ graph.start → (∃ source, graph.Leads source block) →
    ∃ source earlier later, graph.schedule = earlier ++ later ∧ source ∈ earlier ∧
      block ∈ later ∧ graph.Leads source block

/-- Whether what a block starts with comes from control: it is the first one, or a
block that leads to it is known, or there is none. -/
def Fed (graph : FlowGraph) (solving : Solving) (block : Nat) : Prop :=
  block = graph.start ∨ (∃ source, graph.Leads source block ∧ (solving.statesOf source).isSome = true) ∨
    ∀ source, ¬ graph.Leads source block

/-- Where a block is fed its entry state grows with what is passed on. -/
theorem entryOf_mono {before after : Solving} {block : Nat} (fed : Fed graph before block)
    (grows : ∀ edge state, before.passedOn edge = some state →
      ∃ more, after.passedOn edge = some more ∧ state ≤ more) :
    entryOf graph frame before block ≤ entryOf graph frame after block := by
  by_cases brought : ∃ state, FlowsInto graph frame before block state
  · refine (entryOf_le_iff brought _).mpr fun state flows => ?_
    cases flows with
    | start isStart =>
        have starts : FlowsInto graph frame after block (Reaching.init frame) := .start isStart
        exact (isLUB_entryOf ⟨_, starts⟩).1 starts
    | along listed leads passes =>
        obtain ⟨more, passesMore, below⟩ := grows _ state passes
        have flows : FlowsInto graph frame after block more := .along listed leads passesMore
        exact below.trans ((isLUB_entryOf ⟨_, flows⟩).1 flows)
  · rcases fed with isStart | ⟨source, leads, isKnown⟩ | alone
    · exact absurd ⟨_, .start isStart⟩ brought
    · obtain ⟨edge, listed, rfl, toBlock⟩ := FlowGraph.leads_iff.mp leads
      obtain ⟨states, known⟩ := Option.isSome_iff_exists.mp isKnown
      exact absurd ⟨_, .along listed toBlock (passedOn_eq known)⟩ brought
    · refine le_of_eq (entryOf_congr fun edge listed leads => ?_)
      exact absurd (FlowGraph.leads_iff.mpr ⟨edge, listed, rfl, leads⟩) (alone _)

/-- What holds of a run as long as blocks are taken after a source: the entry states
of known blocks are below those they would have now. -/
structure Rising (graph : FlowGraph) (frame : RegisterFrame) (solving : Solving) : Prop where
  consistent : Consistent graph frame solving
  below : ∀ block states, solving.statesOf block = some states →
    states.entry ≤ entryOf graph frame solving block
  fed : ∀ block, (solving.statesOf block).isSome = true → Fed graph solving block
  order : InTurn graph solving

namespace Rising

variable {solving : Solving}

theorem not_shrinks (rising : Rising graph frame solving) : ¬ Shrinks graph frame solving := by
  rintro ⟨block, rest, states, -, known, loses⟩
  exact loses (rising.below block states known)

theorem start (closed : graph.Closed) (frame : RegisterFrame) :
    Rising graph frame (Solving.start graph) where
  consistent := consistent_start closed frame
  below block states known := by simp [statesOf_start] at known
  fed block isKnown := by simp [statesOf_start] at isKnown
  order := inTurn_start graph

/-- A block that is taken is fed. -/
theorem fed_first (rising : Rising graph frame solving) (closed : graph.Closed)
    (ordered : SourceFirst graph) {block : Nat} {queue : List Nat}
    (first : solving.queue = block :: queue) (inside : block < graph.blocks.length) :
    Fed graph solving block := by
  rcases rising.order.first closed first with isKnown | before
  · exact rising.fed block isKnown
  · by_cases isStart : block = graph.start
    · exact .inl isStart
    · by_cases led : ∃ source, graph.Leads source block
      · obtain ⟨source, earlier, later, split, inEarlier, inLater, leads⟩ :=
          ordered block inside isStart led
        exact .inr (.inl ⟨source, leads, before source earlier later split inEarlier inLater⟩)
      · exact .inr (.inr fun source leads => led ⟨source, leads⟩)

/-- What is passed on grows when a block is taken. -/
theorem passedOn_step (rising : Rising graph frame solving) {block : Nat} {rest : List Nat}
    {after : Solving} (takes : Takes graph frame solving block rest after) (edge : Edge)
    (state : Reaching) (passes : solving.passedOn edge = some state) :
    ∃ more, after.passedOn edge = some more ∧ state ≤ more := by
  obtain ⟨states, known, rfl⟩ := Option.map_eq_some_iff.mp passes
  by_cases same : edge.source = block
  · subst same
    have below := rising.below edge.source states known
    refine ⟨_, passedOn_eq takes.own, ?_⟩
    split
    · exact below
    · rw [rising.consistent.exit edge.source states known]
      have registers := rising.consistent.registers edge.source states known
      exact exitOf_mono (registers.trans (rising.consistent.entryOf_registers _).symm) below _
  · exact ⟨_, passedOn_eq ((takes.others edge.source same).trans known), le_rfl⟩

theorem step (rising : Rising graph frame solving) (closed : graph.Closed)
    (ordered : SourceFirst graph) : Rising graph frame (solving.step graph frame) := by
  rcases rising.consistent.step_cases with ⟨-, same⟩ | ⟨block, queue, first, inside, takes⟩
  · rwa [same]
  · have fedFirst := rising.fed_first closed ordered first inside
    have grows := rising.passedOn_step takes
    have staysFed : ∀ other, Fed graph solving other →
        Fed graph (solving.step graph frame) other := by
      rintro other (isStart | ⟨source, leads, isKnown⟩ | alone)
      · exact .inl isStart
      · exact .inr (.inl ⟨source, leads, takes.stays isKnown⟩)
      · exact .inr (.inr alone)
    exact {
      consistent := rising.consistent.step
      below := by
        intro other states known
        rcases takes.statesOf_cases known with ⟨rfl, rfl⟩ | ⟨-, before⟩
        · exact entryOf_mono fedFirst grows
        · exact (rising.below other states before).trans
            (entryOf_mono (rising.fed other (by simp [before])) grows)
      fed := by
        intro other isKnown
        obtain ⟨states, known⟩ := Option.isSome_iff_exists.mp isKnown
        rcases takes.statesOf_cases known with ⟨rfl, -⟩ | ⟨-, before⟩
        · exact staysFed other fedFirst
        · exact staysFed other (rising.fed other (by simp [before]))
      order := rising.order.step first takes }

end Rising

/-- Where blocks are taken after a source of theirs, a run comes to a result. -/
theorem settles_of_sourceFirst (closed : graph.Closed) (ordered : SourceFirst graph) :
    Settles graph frame := by
  rw [settles_iff_empties]
  exact empties_of_grows (fun solving (rising : Rising graph frame solving) =>
    rising.step closed ordered) (fun solving rising => rising.not_shrinks) (Solving.start graph)
    (consistent_start closed frame) (iterate_within closed 0).2 (Rising.start closed frame)

/-- Blocks that are all found from the start are scheduled after a source. -/
theorem sourceFirst_of_reachable (closed : graph.Closed)
    (reachable : ∀ block < graph.blocks.length, block ∈ graph.reachableBlocks) :
    SourceFirst graph :=
  fun block inside notStart _ => FlowGraph.schedule_source_first closed (reachable block inside) notStart

/-- Solving comes to a result exactly if only finitely many steps take definitions
from an entry state, and so it does if all blocks are found from the start. -/
theorem settles_iff {code : Code} {pool : Pool} (success : FlowGraph.build code pool = .ok graph)
    (frame : RegisterFrame) :
    (Settles graph frame ↔ ∃ count, ∀ later ≥ count,
      ¬ Shrinks graph frame ((step graph frame)^[later] (Solving.start graph))) ∧
    ((∀ block < graph.blocks.length, block ∈ graph.reachableBlocks) → Settles graph frame) := by
  have closed := (FlowGraph.build_eq_ok success).closed
  constructor
  · exact settles_iff_finitely_many_shrink closed
  · exact fun reachable => settles_of_sourceFirst closed (sourceFirst_of_reachable closed reachable)

/-- A run that comes back to a point with a queue comes to no result. -/
theorem not_settles_of_cycle {first period : Nat} (positive : 0 < period)
    (cycle : (step graph frame)^[period] ((step graph frame)^[first] (start graph)) =
      (step graph frame)^[first] (start graph))
    (busy : ((step graph frame)^[first] (start graph)).queue ≠ []) : ¬ Settles graph frame := by
  rw [settles_iff_empties]
  rintro ⟨count, empty⟩
  have again : (step graph frame)^[period * count + first] (start graph) =
      (step graph frame)^[first] (start graph) := by
    rw [Function.iterate_add_apply, Function.iterate_mul, Function.iterate_fixed cycle]
  have past : count ≤ period * count + first :=
    Nat.le_add_right_of_le (Nat.le_mul_of_pos_left count positive)
  obtain ⟨more, split⟩ := Nat.exists_eq_add_of_le past
  rw [split, Nat.add_comm, Function.iterate_add_apply, Function.iterate_fixed (step_nil empty)] at again
  exact busy (again ▸ empty)

end Solving

/-- A cycle of three jumps after an argument was overwritten, and more code behind. -/
def Code.cycle (behind : List Instruction) : Code where
  method := 0
  flags := ⟨8⟩
  registers := 1
  instructions := [.setZero 0, .ofOpcode 1 .goto [] (some 1) none, .ofOpcode 2 .goto [] (some 1) none,
    .ofOpcode 3 .goto [] (some (-2)) none] ++ behind
  tries := []

namespace Solving

/-- A cycle that is entered from the start only settles. -/
theorem settles_cycle_nil : ∃ graph, FlowGraph.build (.cycle []) .empty = .ok graph ∧
    Settles graph ⟨1, [(.ofNat 0, .narrow)]⟩ := by
  obtain ⟨graph, success, reachable⟩ : ∃ graph, FlowGraph.build (.cycle []) .empty = .ok graph ∧
      ∀ block < graph.blocks.length, block ∈ graph.reachableBlocks := exists_ok_of_decide (by decide)
  exact ⟨graph, success, (settles_iff success _).2 reachable⟩

/-- A jump into the cycle from dead code that is taken before the code that leads to
it brings the argument once, and then no more: the loss goes around forever. -/
theorem not_settles_cycle_dead : ∃ graph, FlowGraph.build (.cycle [.ofOpcode 4 .goto [] (some (-3)) none,
      .setZero 5, .ofOpcode 6 .goto [] (some (-2)) none]) .empty = .ok graph ∧
    ¬ Settles graph ⟨1, [(.ofNat 0, .narrow)]⟩ := by
  obtain ⟨graph, success, cycle, busy⟩ : ∃ graph,
      FlowGraph.build (.cycle [.ofOpcode 4 .goto [] (some (-3)) none, .setZero 5,
        .ofOpcode 6 .goto [] (some (-2)) none]) .empty = .ok graph ∧
      (step graph ⟨1, [(.ofNat 0, .narrow)]⟩)^[6]
          ((step graph ⟨1, [(.ofNat 0, .narrow)]⟩)^[14] (start graph)) =
        (step graph ⟨1, [(.ofNat 0, .narrow)]⟩)^[14] (start graph) ∧
      ((step graph ⟨1, [(.ofNat 0, .narrow)]⟩)^[14] (start graph)).queue ≠ [] :=
    exists_ok_of_decide (by decide +kernel)
  exact ⟨graph, success, not_settles_of_cycle (by decide) cycle busy⟩

end Solving

end Dalvik
