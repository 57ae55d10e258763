import Dalvik.Proofs.Flow.Paired
import Dalvik.Proofs.Reaching.Equations

/-!
# Runs of the solver on paired graphs

A block that is not found from the start changes nothing at those that are, as
long as it does not lead to one: the solver gives it states and queues others of
its kind.  Runs on two graphs whose blocks found from the start are paired take
paired blocks in the same order, with such blocks between, and end with the same
states.
-/

namespace Dalvik

namespace Solving

open FlowGraph

variable {first second : FlowGraph} {pairs : Nat → Nat → Prop} {frame : RegisterFrame}
  {solving twin : Solving} {number other : Nat}

/-- Two runs stand alike at paired blocks: these have the same states and are queued
in the same order. -/
structure Alike (first second : FlowGraph) (pairs : Nat → Nat → Prop) (solving twin : Solving) :
    Prop where
  queue : List.Forall₂ pairs (solving.queue.filter first.finds) (twin.queue.filter second.finds)
  states : ∀ number other, pairs number other → solving.statesOf number = twin.statesOf other

theorem Alike.symm (alike : Alike first second pairs solving twin) :
    Alike second first (flip pairs) twin solving where
  queue := alike.queue.flip
  states number other pair := (alike.states other number pair).symm

theorem alike_start (paired : Paired first second pairs) (closed : first.Closed)
    (closed' : second.Closed) : Alike first second pairs (start first) (start second) where
  queue := paired.schedule closed closed'
  states number other _ := (statesOf_start number).trans (statesOf_start other).symm

/-- What flows into a block also flows into the one it is paired with. -/
theorem FlowsInto.paired (paired : Paired first second pairs) (secluded : first.Secluded)
    (alike : Alike first second pairs solving twin) (pair : pairs number other) {state : Reaching}
    (flows : FlowsInto first frame solving number state) :
    FlowsInto second frame twin other state := by
  cases flows with
  | start isStart =>
      obtain rfl := isStart
      exact paired.unique.2 pair paired.start ▸ .start rfl
  | @along edge _ listed leads passes =>
      obtain rfl := leads
      have isSource := secluded edge listed (paired.finds_left pair)
      obtain ⟨source, sources⟩ := (paired.left edge.source).mp isSource
      obtain ⟨copy, isCopy, branch, targets⟩ := exists_of_forall₂
        (paired.edges edge.source source sources) (List.mem_filter.mpr ⟨listed, BEq.rfl⟩)
      obtain ⟨isEdge, ownSource⟩ := List.mem_filter.mp isCopy
      refine .along isEdge (paired.unique.2 targets pair) ?_
      rw [passedOn, eq_of_beq ownSource, ← alike.states edge.source source sources, ← branch]
      exact passes

/-- Paired blocks have the same entry state. -/
theorem entryOf_paired (paired : Paired first second pairs) (secluded : first.Secluded)
    (secluded' : second.Secluded) (alike : Alike first second pairs solving twin)
    (pair : pairs number other) :
    entryOf first frame solving number = entryOf second frame twin other := by
  have same : ∀ state,
      FlowsInto first frame solving number state ↔ FlowsInto second frame twin other state :=
    fun state => ⟨.paired paired secluded alike pair, .paired paired.symm secluded' alike.symm pair⟩
  by_cases brought : ∃ state, FlowsInto first frame solving number state
  · have least := isLUB_entryOf brought
    simp only [same] at brought least
    exact least.unique (isLUB_entryOf brought)
  · have nothing : ∀ state, ¬ FlowsInto first frame solving number state := not_exists.mp brought
    rw [entryOf_eq_init nothing]
    simp only [same] at nothing
    rw [entryOf_eq_init nothing]

theorem instructionsOf_paired (paired : Paired first second pairs) (pair : pairs number other) :
    first.instructionsOf number = second.instructionsOf other := by
  rw [instructionsOf, paired.blocks number other pair, instructionsOf]

theorem statesNow_paired (paired : Paired first second pairs) (secluded : first.Secluded)
    (secluded' : second.Secluded) (alike : Alike first second pairs solving twin)
    (pair : pairs number other) :
    statesNow first frame solving number = statesNow second frame twin other := by
  rw [statesNow, entryOf_paired paired secluded secluded' alike pair,
    instructionsOf_paired paired pair, statesNow]

/-- Queueing blocks that are not found from the start leaves those that are. -/
theorem filter_requeueAll {graph : FlowGraph} {known : List (Option BlockStates)}
    {queue blocks : List Nat} (lost : ∀ block ∈ blocks, graph.finds block = false) :
    (blocks.foldl (requeue known) queue).filter graph.finds = queue.filter graph.finds := by
  induction blocks generalizing queue with
  | nil => rfl
  | cons block rest ih =>
      obtain ⟨here, others⟩ := List.forall_mem_cons.mp lost
      rw [List.foldl_cons, ih others]
      unfold requeue
      split
      · rw [List.filter_append, List.filter_singleton, here]
        exact List.append_nil _
      · rfl

theorem mem_queue_paired (paired : Paired first second pairs) {queue queue' : List Nat}
    (matched : List.Forall₂ pairs (queue.filter first.finds) (queue'.filter second.finds))
    (pair : pairs number other) : number ∈ queue ↔ other ∈ queue' := by
  have same := List.rel_mem paired.unique pair matched
  simpa only [List.mem_filter, paired.finds_left pair, paired.finds_right pair, and_true] using same

/-- Queueing paired blocks keeps the queues alike. -/
theorem requeueAll_paired (paired : Paired first second pairs)
    (states : ∀ number other, pairs number other → solving.statesOf number = twin.statesOf other)
    {blocks twins : List Nat} (matched : List.Forall₂ pairs blocks twins)
    {queue queue' : List Nat}
    (alike : List.Forall₂ pairs (queue.filter first.finds) (queue'.filter second.finds)) :
    List.Forall₂ pairs ((blocks.foldl (requeue solving.known) queue).filter first.finds)
      ((twins.foldl (requeue twin.known) queue').filter second.finds) := by
  induction matched generalizing queue queue' with
  | nil => exact alike
  | @cons block copy _ _ pair _ ih =>
      refine ih ?_
      have known : (solving.known[block]?).join = (twin.known[copy]?).join := states block copy pair
      have queued : queue.contains block = queue'.contains copy := by
        rw [Bool.eq_iff_iff, List.contains_iff_mem, List.contains_iff_mem]
        exact mem_queue_paired paired alike pair
      unfold requeue
      rw [known, queued]
      split
      · simp only [List.filter_append, List.filter_singleton, paired.finds_left pair,
          paired.finds_right pair]
        exact List.rel_append alike (.cons pair .nil)
      · exact alike

theorem outgoing_paired (paired : Paired first second pairs) (pair : pairs number other) :
    List.Forall₂ pairs ((first.outgoing number).map Edge.target)
      ((second.outgoing other).map Edge.target) := by
  simp only [outgoing, List.map_reverse]
  exact List.rel_reverse (paired.successors pair)

theorem Consistent.takes {graph : FlowGraph} (consistent : Consistent graph frame solving)
    {rest : List Nat} (head : solving.queue = number :: rest) :
    Takes graph frame solving number rest (solving.step graph frame) :=
  step_cons head (consistent.length ▸ consistent.queue_lt number (head ▸ List.mem_cons_self))

/-- Taking a block that is not found from the start changes nothing at paired blocks. -/
theorem Alike.step_lost (paired : Paired first second pairs) (secluded : first.Secluded)
    (consistent : Consistent first frame solving) (alike : Alike first second pairs solving twin)
    {rest : List Nat} (head : solving.queue = number :: rest) (lost : first.finds number = false) :
    Alike first second pairs (solving.step first frame) twin where
  queue := by
    have leads : ∀ block ∈ (first.outgoing number).map Edge.target, first.finds block = false := by
      intro block member
      obtain ⟨edge, isEdge, rfl, rfl⟩ := leads_iff.mp (mem_outgoing.mp member)
      exact Bool.eq_false_iff.mpr fun found => by simp [secluded edge isEdge found] at lost
    have unchanged : (solving.step first frame).queue.filter first.finds =
        solving.queue.filter first.finds := by
      rw [step_eq head, head, List.filter_cons_of_neg (by simp [lost])]
      dsimp only
      split
      · rfl
      · exact filter_requeueAll leads
    rw [unchanged]
    exact alike.queue
  states block copy pair := by
    have different : block ≠ number := by
      rintro rfl
      simp [paired.finds_left pair] at lost
    rw [(consistent.takes head).others block different]
    exact alike.states block copy pair

/-- Taking paired blocks on both sides keeps the runs alike. -/
theorem Alike.step_paired (paired : Paired first second pairs) (secluded : first.Secluded)
    (secluded' : second.Secluded) (consistent : Consistent first frame solving)
    (consistent' : Consistent second frame twin) (alike : Alike first second pairs solving twin)
    {rest rest' : List Nat} (head : solving.queue = number :: rest)
    (head' : twin.queue = other :: rest') (pair : pairs number other) :
    Alike first second pairs (solving.step first frame) (twin.step second frame) where
  queue := by
    have later : List.Forall₂ pairs (rest.filter first.finds) (rest'.filter second.finds) := by
      have queued := alike.queue
      rw [head, head', List.filter_cons_of_pos (paired.finds_left pair),
        List.filter_cons_of_pos (paired.finds_right pair)] at queued
      exact (List.forall₂_cons.mp queued).2
    rw [step_eq head, step_eq head']
    dsimp only
    rw [alike.states number other pair, statesNow_paired paired secluded secluded' alike pair]
    split
    · exact later
    · exact requeueAll_paired paired alike.states (outgoing_paired paired pair) later
  states block copy same := by
    have takes := consistent.takes head
    have takes' := consistent'.takes head'
    by_cases own : block = number
    · obtain rfl := own
      obtain rfl := paired.unique.2 same pair
      rw [takes.own, takes'.own, statesNow_paired paired secluded secluded' alike pair]
    · have own' : copy ≠ other := fun equal => own (paired.unique.1 same (equal ▸ pair))
      rw [takes.others block own, takes'.others copy own']
      exact alike.states block copy same

/-- Where the next block to be taken stands: nothing is queued, or it is not found
from the start, or it is the next of those that are. -/
theorem queue_cases (graph : FlowGraph) (queue : List Nat) :
    queue = [] ∨ (∃ number rest, queue = number :: rest ∧ graph.finds number = false) ∨
      ∃ number rest, queue = number :: rest ∧
        queue.filter graph.finds = number :: rest.filter graph.finds := by
  cases queue with
  | nil => exact .inl rfl
  | cons number rest =>
      cases found : graph.finds number with
      | false => exact .inr (.inl ⟨number, rest, rfl, found⟩)
      | true => exact .inr (.inr ⟨number, rest, rfl, List.filter_cons_of_pos found⟩)

/-- A queue that is not empty takes a step to empty. -/
theorem exists_succ_of_cons {graph : FlowGraph} {count : Nat} {rest : List Nat}
    (head : solving.queue = number :: rest)
    (empty : ((step graph frame)^[count] solving).queue = []) : ∃ fewer, count = fewer + 1 := by
  cases count with
  | zero => exact absurd (head.symm.trans empty) (List.cons_ne_nil _ _)
  | succ fewer => exact ⟨fewer, rfl⟩

/-- Runs that stand alike stand alike when both queues are empty.  The blocks that are
not found from the start are taken on one side while the other waits. -/
theorem Alike.iterate (paired : Paired first second pairs) (secluded : first.Secluded)
    (secluded' : second.Secluded) {count count' : Nat}
    (consistent : Consistent first frame solving) (consistent' : Consistent second frame twin)
    (alike : Alike first second pairs solving twin)
    (empty : ((step first frame)^[count] solving).queue = [])
    (empty' : ((step second frame)^[count'] twin).queue = []) :
    Alike first second pairs ((step first frame)^[count] solving)
      ((step second frame)^[count'] twin) := by
  generalize total : count + count' = steps
  induction steps using Nat.strong_induction_on generalizing count count' solving twin with
  | _ steps ih =>
    rcases queue_cases first solving.queue with done | ⟨number, rest, head, lost⟩ |
      ⟨number, rest, head, next⟩
    case inr.inl =>
      obtain ⟨count, rfl⟩ := exists_succ_of_cons head empty
      rw [Function.iterate_succ_apply] at empty ⊢
      exact ih (count + count') (by omega) consistent.step consistent'
        (alike.step_lost paired secluded consistent head lost) empty empty' rfl
    all_goals
      rcases queue_cases second twin.queue with done' | ⟨other, rest', head', lost'⟩ |
        ⟨other, rest', head', next'⟩
    case inl.inr.inl | inr.inr.inr.inl =>
      obtain ⟨count', rfl⟩ := exists_succ_of_cons head' empty'
      rw [Function.iterate_succ_apply] at empty' ⊢
      exact ih (count + count') (by omega) consistent consistent'.step
        (alike.symm.step_lost paired.symm secluded' consistent' head' lost').symm empty empty' rfl
    case inl.inl =>
      rwa [Function.iterate_fixed (step_nil done), Function.iterate_fixed (step_nil done')]
    case inl.inr.inr =>
      have queued := alike.queue
      simp [done, next'] at queued
    case inr.inr.inl =>
      have queued := alike.queue
      simp [done', next] at queued
    case inr.inr.inr.inr =>
      obtain ⟨count, rfl⟩ := exists_succ_of_cons head empty
      obtain ⟨count', rfl⟩ := exists_succ_of_cons head' empty'
      have queued := alike.queue
      rw [next, next'] at queued
      have pair := (List.forall₂_cons.mp queued).1
      rw [Function.iterate_succ_apply] at empty empty' ⊢
      rw [Function.iterate_succ_apply]
      exact ih (count + count') (by omega) consistent.step consistent'.step
        (alike.step_paired paired secluded secluded' consistent consistent' head head' pair)
        empty empty' rfl

/-- Runs that end leave paired blocks with the same states. -/
theorem statesOf_run_paired (paired : Paired first second pairs) (closed : first.Closed)
    (closed' : second.Closed) (secluded : first.Secluded) (secluded' : second.Secluded)
    {final final' : Solving} (result : run first frame (start first) = some final)
    (result' : run second frame (start second) = some final') (pair : pairs number other) :
    final.statesOf number = final'.statesOf other := by
  obtain ⟨count, rfl, empty⟩ := run_eq_some.mp result
  obtain ⟨count', rfl, empty'⟩ := run_eq_some.mp result'
  have alike := (alike_start paired closed closed').iterate paired secluded secluded'
    (consistent_start closed frame) (consistent_start closed' frame) empty empty'
  exact alike.states number other pair

end Solving

namespace Dataflow

open FlowGraph

/-- At the instructions of paired blocks both results have the same states. -/
theorem entryAt_paired {code code' : Code} {first second : FlowGraph} {pairs : Nat → Nat → Prop}
    {frame : RegisterFrame} {states states' : Dataflow} (built : Built code first)
    (built' : Built code' second) (distinct : (code.instructions.map Instruction.addr).Nodup)
    (distinct' : (code'.instructions.map Instruction.addr).Nodup)
    (paired : Paired first second pairs) (secluded : first.Secluded)
    (secluded' : second.Secluded) (solved : solveReaching first frame = some states)
    (solved' : solveReaching second frame = some states') {number other : Nat}
    (pair : pairs number other) {block : Block} (isBlock : first.blocks[number]? = some block)
    {instruction : Instruction} (inBlock : instruction ∈ block.instructions) :
    states.entryAt instruction.addr = states'.entryAt instruction.addr := by
  obtain ⟨final, result, rfl⟩ := Option.map_eq_some_iff.mp solved
  obtain ⟨final', result', rfl⟩ := Option.map_eq_some_iff.mp solved'
  obtain ⟨consistent, settled⟩ := Solving.settled_of_run built.closed result
  obtain ⟨consistent', -⟩ := Solving.settled_of_run built'.closed result'
  obtain ⟨own, known, -⟩ := settled number (paired.lt built.closed pair)
  have known' : final'.statesOf other = some own := by
    rw [← known, Solving.statesOf_run_paired paired built.closed built'.closed secluded secluded'
      result result' pair]
  have isBlock' : second.blocks[other]? = some block := by
    rw [← isBlock, paired.blocks number other pair]
  obtain ⟨place, found⟩ := List.getElem?_of_mem inBlock
  rw [(ofSolving_at_place built distinct consistent isBlock known found).1,
    (ofSolving_at_place built' distinct' consistent' isBlock' known' found).1]

end Dataflow

end Dalvik
