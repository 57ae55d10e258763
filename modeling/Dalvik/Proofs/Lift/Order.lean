import Dalvik.Proofs.Flow.Dead
import Dalvik.Proofs.Lift.Casts
import Dalvik.Proofs.Lift.Segments

/-!
# The order of statements

The statements of a body are in the order of the code, and what an instruction falls through to
follows it: the instructions that are passed over become nothing, and nothing leads to them.
-/

namespace Dalvik

namespace Lift

/-- A live instruction that becomes nothing: it does nothing or a call has taken it over, and no
branch and no handler leads to it. -/
structure PassedOver (context : LoweringContext) (isLive : Addr → Bool) (body : Body)
    (instruction : Instruction) : Prop where
  listed : instruction ∈ context.code.instructions
  lives : isLive instruction.addr = true
  silent : body.placedAt instruction.addr = []
  idle : instruction.opcode.map Opcode.family = some .nop ∨
    ∃ call kind, HandsOver context isLive call instruction kind
  unbranched : ∀ other ∈ context.code.instructions, other.isBranching = true →
    ¬ other.Continues instruction.addr
  uncaught : ∀ item ∈ context.code.tries, ∀ handler ∈ item.handlers, handler.addr ≠ instruction.addr

/-- Where control falls from an instruction: to the first one with statements, from the next
address on. -/
inductive FallsTo (context : LoweringContext) (isLive : Addr → Bool) (body : Body) :
    Instruction → Instruction → Prop where
  | next {earlier later : Instruction} (listed : later ∈ context.code.instructions)
      (lives : isLive later.addr = true) (follows : later.addr = earlier.nextAddr)
      (some : body.placedAt later.addr ≠ []) : FallsTo context isLive body earlier later
  | over {earlier middle later : Instruction} (follows : middle.addr = earlier.nextAddr)
      (passed : PassedOver context isLive body middle)
      (falls : FallsTo context isLive body middle later) : FallsTo context isLive body earlier later

variable {isLive : Addr → Bool} {code : Code} {pool : Pool} {options : LiftOptions} {body : Body}
  {context : LoweringContext} {lowered : Lowered}

/-- Control falls through what is passed over. -/
theorem PassedOver.falls {instruction : Instruction}
    (passed : PassedOver context isLive body instruction) : instruction.endsFlow = false := by
  rw [FlowGraph.endsFlow_eq]
  rcases passed.idle with family | ⟨call, kind, hands⟩
  · rw [family]
    rfl
  · obtain ⟨-, -, moves, -⟩ := Instruction.takesOver_eq_some.mp hands.takes
    rw [moves]
    rfl

/-- Statements are placed in the order of the code. -/
theorem pairwise_placedAt (apart : code.Apart) (isLive : Addr → Bool) (body : Body) :
    ((code.instructions.filter (isLive ·.addr)).flatMap (body.placedAt ·.addr)).Pairwise
      fun first second => ∀ one two, first.1 = some one → second.1 = some two → one ≤ two := by
  rw [List.pairwise_flatMap]
  constructor
  · refine fun instruction _ => List.pairwise_of_forall_mem_list fun first inFirst second inSecond => ?_
    intro one two isOne isTwo
    rw [(Body.mem_placedAt.mp inFirst).2] at isOne
    rw [(Body.mem_placedAt.mp inSecond).2] at isTwo
    exact Nat.le_of_eq (Option.some.inj (isOne.symm.trans isTwo))
  · refine (apart.sublist List.filter_sublist).imp fun {earlier later} before first inFirst second inSecond => ?_
    intro one two isOne isTwo
    rw [(Body.mem_placedAt.mp inFirst).2] at isOne
    rw [(Body.mem_placedAt.mp inSecond).2] at isTwo
    obtain rfl := Option.some.inj isOne
    obtain rfl := Option.some.inj isTwo
    exact Nat.le_trans (Nat.le_of_lt earlier.addr_lt_nextAddr) before

namespace Lifts

variable (lifts : Lifts code pool options body context lowered)
include lifts

/-- An instruction that falls through is followed by one at the next address, which is live if it
is itself. -/
theorem next_lives (apart : code.Apart) {earlier later : List Instruction} {instruction : Instruction}
    (split : code.instructions = earlier ++ instruction :: later)
    (lives : options.keeps context.graph instruction.addr = true) (falls : instruction.endsFlow = false) :
    ∃ next, later.head? = some next ∧ next.addr = instruction.nextAddr ∧
      options.keeps context.graph next.addr = true := by
  obtain ⟨rfl, rfl, success, -⟩ := contextOf_eq_ok.mp lifts.ofCode
  have built := FlowGraph.build_eq_ok success
  have listed : instruction ∈ context.code.instructions :=
    split ▸ List.mem_append_right _ List.mem_cons_self
  obtain ⟨next, isNext, follows⟩ := Code.hasInstruction_iff.mp (built.falls instruction listed falls)
  refine ⟨next, apart.head_eq_next split isNext follows, follows, ?_⟩
  rw [LiftOptions.keeps, Bool.or_eq_true, SortedSet.contains_iff_mem] at lives ⊢
  exact lives.imp_right fun reached => follows ▸ built.next_reached apart listed reached falls

/-- A live instruction without statements is passed over. -/
theorem passedOver (distinct : (code.instructions.map Instruction.addr).Nodup) {instruction : Instruction}
    (listed : instruction ∈ code.instructions)
    (lives : options.keeps context.graph instruction.addr = true)
    (silent : body.placedAt instruction.addr = []) :
    PassedOver context (options.keeps context.graph) body instruction := by
  obtain ⟨next, isSegment⟩ := lifts.exists_segment distinct listed lives
  obtain ⟨rfl, rfl, success, -⟩ := contextOf_eq_ok.mp lifts.ofCode
  obtain ⟨idle, plain⟩ := isSegment.silent silent
  have noTarget : instruction.addr ∉ context.graph.targets := fun member =>
    Bool.false_ne_true (plain.symm.trans (SortedSet.contains_iff_mem.mpr member))
  rw [FlowGraph.mem_targets success, not_or] at noTarget
  exact {
    listed, lives, silent, idle
    unbranched := fun other isOther branching continues =>
      noTarget.1 ⟨other, isOther, branching, continues⟩
    uncaught := fun item isItem handler isHandler same =>
      noTarget.2 ⟨item, isItem, handler, isHandler, same⟩ }

/-- What is placed after a live instruction that falls through starts with what it falls to. -/
theorem exists_fallsTo (apart : code.Apart) {earlier later : List Instruction} {instruction : Instruction}
    (split : code.instructions = earlier ++ instruction :: later)
    (lives : options.keeps context.graph instruction.addr = true) (falls : instruction.endsFlow = false) :
    ∃ into after, FallsTo context (options.keeps context.graph) body instruction into ∧
      (later.filter (options.keeps context.graph ·.addr)).flatMap (body.placedAt ·.addr) =
        body.placedAt into.addr ++ after := by
  induction later generalizing earlier instruction with
  | nil =>
      obtain ⟨next, isHead, -⟩ := lifts.next_lives apart split lives falls
      cases isHead
  | cons next rest ih =>
      obtain ⟨_, isHead, follows, nextLives⟩ := lifts.next_lives apart split lives falls
      obtain rfl := Option.some.inj isHead
      have listed : next ∈ code.instructions := by simp [split]
      rw [List.filter_cons, if_pos nextLives, List.flatMap_cons]
      by_cases silent : body.placedAt next.addr = []
      · have passed := lifts.passedOver apart.distinct listed nextLives silent
        have moved : code.instructions = (earlier ++ [instruction]) ++ next :: rest := by
          rw [split, List.append_assoc, List.singleton_append]
        obtain ⟨into, after, fallsTo, same⟩ := ih moved nextLives passed.falls
        exact ⟨into, after, .over follows passed fallsTo, by rw [silent, List.nil_append, same]⟩
      · obtain ⟨isCode, -⟩ := contextOf_eq_ok.mp lifts.ofCode
        exact ⟨next, _, .next (isCode ▸ listed) nextLives follows silent, rfl⟩

end Lifts

/-- The statements of a body are those of its arguments, and then those of its live instructions
in the order of the code.  After those of an instruction that falls through are those of what it
falls to. -/
theorem statements_in_order (lifted : run code pool options = .ok body) (apart : code.Apart) :
    ∃ context lowered, Lifts code pool options body context lowered ∧
      (∃ arguments head rest, Argument.ofCode code pool = .ok arguments ∧
        (∀ argument ∈ arguments, ∃ var, (none, .identity var argument.source) ∈ head) ∧
        body.statements = head ++ rest ∧ (∀ item ∈ head, item.1 = none) ∧
        (∀ item ∈ rest, ∃ instruction ∈ code.instructions,
          options.keeps context.graph instruction.addr = true ∧ item.1 = some instruction.addr) ∧
        rest.Pairwise fun first second =>
          ∀ one two, first.1 = some one → second.1 = some two → one ≤ two) ∧
      ∀ instruction ∈ code.instructions, options.keeps context.graph instruction.addr = true →
        instruction.endsFlow = false → ∃ into before after,
          FallsTo context (options.keeps context.graph) body instruction into ∧
            body.statements =
              before ++ body.placedAt instruction.addr ++ body.placedAt into.addr ++ after := by
  obtain ⟨context, lowered, lifts⟩ := exists_lifts lifted
  obtain ⟨arguments, head, found, identified, isHead, same, -⟩ := lifts.segments apart.distinct
  refine ⟨context, lowered, lifts, ⟨arguments, head, _, found, identified, same,
    fun item inHead => (isHead item inHead).1, fun item inRest => ?_, pairwise_placedAt apart _ body⟩, ?_⟩
  · obtain ⟨instruction, isLive, inSegment⟩ := List.mem_flatMap.mp inRest
    obtain ⟨listed, lives⟩ := List.mem_filter.mp isLive
    exact ⟨instruction, listed, lives, (Body.mem_placedAt.mp inSegment).2⟩
  · intro instruction listed lives falls
    obtain ⟨earlier, later, split⟩ := List.append_of_mem listed
    obtain ⟨into, after, fallsTo, placed⟩ := lifts.exists_fallsTo apart split lives falls
    refine ⟨into, head ++ (earlier.filter (options.keeps context.graph ·.addr)).flatMap
      (body.placedAt ·.addr), after, fallsTo, ?_⟩
    rw [same, split, List.filter_append, List.filter_cons, if_pos lives, List.flatMap_append,
      List.flatMap_cons, placed]
    simp only [List.append_assoc]

end Lift

/-- A method that calls another one and moves its result, and then does nothing before it returns. -/
def Code.callsAndIdles : Code where
  method := 0
  flags := ⟨8⟩
  registers := 4
  instructions := [{ Instruction.ofOpcode 0 .invokeStatic [] none none with reference := some ⟨.method, 1⟩ },
    .ofOpcode 3 .moveResult [.ofNat 0] none none, .ofOpcode 4 .nop [] none none,
    .ofOpcode 5 .returnVoid [] none none]
  tries := []

namespace Lift

/-- The call is followed by what it falls to, past its result and what does nothing. -/
theorem statements_callsAndIdles : Code.callsAndIdles.Apart ∧
    ∃ body, run .callsAndIdles (.returning .int) ⟨false, false⟩ = .ok body ∧
      body.placedAt 0 ≠ [] ∧ body.placedAt 3 = [] ∧ body.placedAt 4 = [] ∧
      ∃ context lowered, Lifts .callsAndIdles (.returning .int) ⟨false, false⟩ body context lowered ∧
        ∃ call into before after, call ∈ Code.callsAndIdles.instructions ∧ call.addr = 0 ∧
          FallsTo context (LiftOptions.keeps ⟨false, false⟩ context.graph) body call into ∧
          body.statements = before ++ body.placedAt 0 ++ body.placedAt into.addr ++ after := by
  have apart : Code.callsAndIdles.Apart := by decide
  have lowers : LowersTo .callsAndIdles (.returning .int) ⟨4, [(.ofNat 2, .narrow), (.ofNat 3, .narrow)]⟩
      4 ⟨false, false⟩ fun _ lowered =>
        (assemble .callsAndIdles lowered lowered.solution).placedAt 0 ≠ [] ∧
          (assemble .callsAndIdles lowered lowered.solution).placedAt 3 = [] ∧
          (assemble .callsAndIdles lowered lowered.solution).placedAt 4 = [] := by
    decide +kernel
  obtain ⟨body, _, _, lifted, lifts, some, moved, idle⟩ := @LowersTo.exists_lifts .callsAndIdles
    (.returning .int) Argument.objectAndInt 4 ⟨false, false⟩ _ _ (by decide) (by decide) rfl lowers
  rw [← lifts.assembled] at some moved idle
  obtain ⟨context, lowered, own, -, falls⟩ := statements_in_order lifted apart
  let call : Instruction :=
    { Instruction.ofOpcode 0 .invokeStatic [] none none with reference := .some ⟨.method, 1⟩ }
  have listed : call ∈ Code.callsAndIdles.instructions := by decide
  obtain ⟨into, before, after, fallsTo, same⟩ := falls call listed rfl (by decide)
  exact ⟨apart, body, lifted, some, moved, idle, context, lowered, own, call, into, before, after,
    listed, rfl, fallsTo, same⟩

end Lift

end Dalvik
