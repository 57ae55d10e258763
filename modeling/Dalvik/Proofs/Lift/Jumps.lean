import Dalvik.Proofs.Flow.Dead
import Dalvik.Proofs.Flow.Reachability
import Dalvik.Proofs.Lift.Segments

/-!
# Jumps and labels

The label of an address is the number of its first statement.  All that a body jumps to has a
label exactly if what its live instructions jump to is kept: a kept instruction that is jumped
to becomes at least one statement.
-/

namespace Dalvik

namespace Instruction

variable {instruction : Instruction} {target : Addr}

theorem continues_of_target {family : Family}
    (isFamily : instruction.opcode.map Opcode.family = some family)
    (jumps : family = .goto ∨ family = .branch ∨ family = .branchZero)
    (leads : instruction.target = some target) :
    instruction.isBranching = true ∧ instruction.Continues target := by
  obtain ⟨offset, isOffset, leads⟩ := Option.bind_eq_some_iff.mp leads
  have offsets : instruction.jumpOffsets = [offset] ∧ instruction.isBranching = true := by
    rw [jumpOffsets, isBranching, isFamily, isOffset]
    rcases jumps with rfl | rfl | rfl <;> exact ⟨rfl, rfl⟩
  exact ⟨offsets.2, .jump (offsets.1 ▸ List.mem_cons_self) leads⟩

/-- Where an instruction jumps it branches, if a switch has an offset. -/
theorem continues_of_jumps (member : target ∈ instruction.jumps)
    (hasOffset : instruction.opcode.map Opcode.family = some .switch → instruction.offset.isSome = true) :
    instruction.isBranching = true ∧ instruction.Continues target := by
  unfold jumps at member
  split at member
  · exact continues_of_target ‹_› (.inl rfl) (Option.mem_toList.mp member)
  · exact continues_of_target ‹_› (.inr (.inl rfl)) (Option.mem_toList.mp member)
  · exact continues_of_target ‹_› (.inr (.inr rfl)) (Option.mem_toList.mp member)
  · rename_i isSwitch
    obtain ⟨offset, isOffset⟩ := Option.isSome_iff_exists.mp (hasOffset isSwitch)
    have branching : instruction.isBranching = true := by rw [isBranching, isSwitch, isOffset]
    refine ⟨branching, ?_⟩
    rcases List.mem_append.mp member with isCase | isNext
    · obtain ⟨way, isWay, leads⟩ := List.mem_filterMap.mp isCase
      refine @Continues.jump _ way.2 _ ?_ leads
      rw [jumpOffsets, isSwitch, isOffset]
      exact List.mem_map_of_mem isWay
    · rw [List.mem_singleton.mp isNext]
      refine .next ?_
      rw [FlowGraph.endsFlow_eq, isSwitch]
      rfl
  · cases member

end Instruction

namespace Lift

/-- Labels that are there stay, and the others are the first statements of their addresses. -/
theorem labelsFrom_lookup {addr : Addr} {labels : List (Addr × Nat)} {index : Nat}
    {statements : List (Option Addr × Statement Local)} :
    (labelsFrom labels index statements).lookup addr =
      (labels.lookup addr).or ((statements.findIdx? (·.1 == some addr)).map (index + ·)) := by
  induction statements generalizing labels index with
  | nil => simp [labelsFrom]
  | cons item rest ih =>
      obtain ⟨place, statement⟩ := item
      have further : ∀ found : Option Nat,
          (found.map (· + 1)).map (index + ·) = found.map (index + 1 + ·) := by
        intro found
        rw [Option.map_map]
        exact congrArg (Option.map · found) (funext fun number => by simp; lia)
      rw [List.findIdx?_cons]
      cases place with
      | none =>
          rw [labelsFrom, ih]
          simp [further]
      | some own =>
          rw [labelsFrom]
          by_cases isOwn : own = addr
          · subst isOwn
            split
            · rename_i known
              obtain ⟨number, isNumber⟩ := Option.isSome_iff_exists.mp known
              rw [ih, isNumber, Option.some_or, Option.some_or]
            · rename_i unknown
              rw [ih, List.lookup_append, Option.not_isSome_iff_eq_none.mp unknown]
              simp
          · have differs : (some own == some addr) = false := by simpa using isOwn
            rw [differs, if_neg Bool.false_ne_true, further]
            split
            · exact ih
            · have notHere : [(own, index)].lookup addr = none := by
                rw [List.lookup_cons, beq_false_of_ne (Ne.symm isOwn)]
                rfl
              rw [ih, List.lookup_append, notHere, Option.or_none]

/-- A label is the number of the first statement of its address. -/
theorem labels_lookup (statements : List (Option Addr × Statement Local)) (addr : Addr) :
    (labels statements).lookup addr = statements.findIdx? (·.1 == some addr) := by
  rw [labels, labelsFrom_lookup]
  simp

end Lift

/-- Each address that a statement jumps to has a label, which is the number of its first
statement. -/
def Body.JumpsLabelled (body : Body) : Prop :=
  ∀ item ∈ body.statements, ∀ target ∈ item.2.targets, ∃ index,
    body.statementIndex target = some index ∧
      body.statements.findIdx? (·.1 == some target) = some index

namespace Lift

variable {code : Code} {pool : Pool} {options : LiftOptions} {body : Body}
  {context : LoweringContext} {lowered : Lowered}

/-- Where the live instructions jump is live. -/
def JumpsKept (code : Code) (isLive : Addr → Bool) : Prop :=
  ∀ instruction ∈ code.instructions, isLive instruction.addr = true →
    ∀ target ∈ instruction.jumps, isLive target = true

namespace Lifts

variable (lifts : Lifts code pool options body context lowered)
include lifts

/-- An address has a label exactly if it has a statement. -/
theorem exists_label_iff {addr : Addr} :
    (∃ index, body.statementIndex addr = some index ∧
        body.statements.findIdx? (·.1 == some addr) = some index) ↔ body.placedAt addr ≠ [] := by
  have isLabel : body.statementIndex addr = body.statements.findIdx? (·.1 == some addr) := by
    rw [lifts.assembled]
    exact labels_lookup _ _
  rw [← List.isEmpty_eq_false_iff, List.isEmpty_eq_false_iff_exists_mem]
  simp only [isLabel, and_self, ← Option.isSome_iff_exists, List.findIdx?_isSome, List.any_eq_true,
    beq_iff_eq, Body.mem_placedAt]

/-- What is jumped to and kept has a statement. -/
theorem placedAt_ne_nil (distinct : (code.instructions.map Instruction.addr).Nodup)
    (valid : validate code = .ok ()) {instruction : Instruction}
    (listed : instruction ∈ code.instructions) {target : Addr} (jumps : target ∈ instruction.jumps)
    (kept : options.keeps context.graph target = true) : body.placedAt target ≠ [] := by
  obtain ⟨rfl, rfl, success, -⟩ := contextOf_eq_ok.mp lifts.ofCode
  obtain ⟨branching, continues⟩ := Instruction.continues_of_jumps jumps (hasOffset_of_valid valid listed)
  obtain ⟨present, isTarget⟩ := FlowGraph.target_of_branch success listed branching continues
  obtain ⟨other, otherListed, rfl⟩ := Code.hasInstruction_iff.mp present
  obtain ⟨next, isSegment⟩ := lifts.exists_segment distinct otherListed kept
  intro nothing
  exact Bool.false_ne_true ((isSegment.silent nothing).2.symm.trans isTarget)

/-- All jumps of a body have labels exactly if where live instructions jump is live. -/
theorem jumpsLabelled_iff (distinct : (code.instructions.map Instruction.addr).Nodup)
    (valid : validate code = .ok ()) :
    body.JumpsLabelled ↔ JumpsKept code (options.keeps context.graph) := by
  constructor
  · intro labelled instruction listed lives target jumps
    obtain ⟨next, isSegment⟩ := lifts.exists_segment distinct listed lives
    rw [← isSegment.targets] at jumps
    obtain ⟨item, inSegment, isTarget⟩ := List.mem_flatMap.mp jumps
    exact lifts.lives_of_placedAt distinct
      (lifts.exists_label_iff.mp (labelled item (Body.mem_placedAt.mp inSegment).1 target isTarget))
  · intro kept item member target isTarget
    refine lifts.exists_label_iff.mpr ?_
    rcases lifts.place_cases distinct member with ⟨-, nowhere⟩ | ⟨instruction, listed, lives, inSegment⟩
    · rw [nowhere] at isTarget
      cases isTarget
    · obtain ⟨next, isSegment⟩ := lifts.exists_segment distinct listed lives
      have jumps : target ∈ instruction.jumps :=
        isSegment.targets ▸ List.mem_flatMap.mpr ⟨item, inSegment, isTarget⟩
      exact lifts.placedAt_ne_nil distinct valid listed jumps (kept instruction listed lives target jumps)

end Lifts

/-- Where live instructions jump is live if nothing is left out, or if code is cut after the flow
ends. -/
theorem jumpsKept_of_cutAfterFlow (isContext : contextOf code pool = .ok context)
    (valid : validate code = .ok ())
    (cut : options.prune = false ∨ code.Apart ∧ code.CutAfterFlow) :
    JumpsKept code (options.keeps context.graph) := by
  obtain ⟨rfl, rfl, success, -⟩ := contextOf_eq_ok.mp isContext
  intro instruction listed lives target jumps
  rcases cut with keepsAll | ⟨apart, cut⟩
  · rw [LiftOptions.keeps, keepsAll]
    rfl
  · have found := (FlowGraph.reachable_eq_reached_iff success apart).mpr cut
    rw [LiftOptions.keeps, Bool.or_eq_true, SortedSet.contains_iff_mem, found] at lives ⊢
    refine lives.imp_right fun reached => ?_
    obtain ⟨-, continues⟩ := Instruction.continues_of_jumps jumps (hasOffset_of_valid valid listed)
    exact .step listed reached (.onward continues)

/-- Each address that a body jumps to has a label, the number of its first statement, exactly if
where live instructions jump is live, as it is if nothing is left out or code is cut after the
flow ends. -/
theorem jumps_labelled_iff (lifted : run code pool options = .ok body)
    (distinct : (code.instructions.map Instruction.addr).Nodup) :
    ∃ context lowered, Lifts code pool options body context lowered ∧
      (body.JumpsLabelled ↔ JumpsKept code (options.keeps context.graph)) ∧
      (options.prune = false ∨ code.Apart ∧ code.CutAfterFlow → body.JumpsLabelled) := by
  obtain ⟨valid, -⟩ := run_eq_ok.mp lifted
  obtain ⟨context, lowered, lifts⟩ := exists_lifts lifted
  have iff := lifts.jumpsLabelled_iff distinct valid
  exact ⟨context, lowered, lifts, iff, fun cut =>
    iff.mpr (jumpsKept_of_cutAfterFlow lifts.ofCode valid cut)⟩

end Lift

/-- The pool of a class with one method, which takes an int. -/
def Pool.takesInt : Pool where
  methods := { items := [⟨.object "a/B", "f", ⟨[.int], .void⟩⟩] }

namespace Lift

/-- With the case right behind the table all that is jumped to has a label. -/
theorem jumpsLabelled_gotoOverTable_nil :
    (Code.gotoOverTable []).Apart ∧ (Code.gotoOverTable []).CutAfterFlow ∧
      ∃ body, run (.gotoOverTable []) .takesInt {} = .ok body ∧ body.JumpsLabelled := by
  have apart : (Code.gotoOverTable []).Apart := by decide
  have found : Argument.ofCode (.gotoOverTable []) .takesInt =
      .ok [⟨.ofNat 0, .narrow, .int, .parameter 0 .int⟩] := by decide
  have lowers : LowersTo (.gotoOverTable []) .takesInt ⟨1, [(.ofNat 0, .narrow)]⟩ 4 {} fun _ _ => True := by
    decide +kernel
  obtain ⟨body, _, _, lifted, -, -⟩ := lowers.exists_lifts (by decide) found rfl
  obtain ⟨_, _, -, -, labelled⟩ := jumps_labelled_iff lifted (by decide)
  have cut := Code.cutAfterFlow_gotoOverTable_nil
  exact ⟨apart, cut, body, lifted, labelled (.inr ⟨apart, cut⟩)⟩

/-- With an instruction between, the body jumps to what is left out. -/
theorem not_jumpsLabelled_gotoOverTable_nop : ∃ body,
    run (.gotoOverTable [.ofOpcode 10 .nop [] none none]) .takesInt {} = .ok body ∧
      ¬ body.JumpsLabelled := by
  have found : Argument.ofCode (.gotoOverTable [.ofOpcode 10 .nop [] none none]) .takesInt =
      .ok [⟨.ofNat 0, .narrow, .int, .parameter 0 .int⟩] := by decide
  have lowers : LowersTo (.gotoOverTable [.ofOpcode 10 .nop [] none none]) .takesInt
      ⟨1, [(.ofNat 0, .narrow)]⟩ 4 {} fun _ lowered =>
        (some 3, .goto 12) ∈ (assemble (.gotoOverTable [.ofOpcode 10 .nop [] none none]) lowered
            lowered.solution).statements ∧
          (assemble (.gotoOverTable [.ofOpcode 10 .nop [] none none]) lowered
            lowered.solution).statementIndex 12 = none := by
    decide +kernel
  obtain ⟨body, _, _, lifted, lifts, jumps, lost⟩ := lowers.exists_lifts (by decide) found rfl
  rw [← lifts.assembled] at jumps lost
  refine ⟨body, lifted, fun labelled => ?_⟩
  obtain ⟨index, isLabel, -⟩ := labelled _ jumps 12 List.mem_cons_self
  rw [lost] at isLabel
  cases isLabel

end Lift

end Dalvik
