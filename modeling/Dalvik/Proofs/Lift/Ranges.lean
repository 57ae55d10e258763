import Dalvik.Proofs.Lift.Kinds
import Dalvik.Proofs.Lift.Renaming
import Dalvik.Proofs.Typing.CheckedSplit

/-!
# Numbers in range

Lowering numbers values as they come up, and constraints, pairs and statements refer to them.
Solving numbers classes and diagnostics, and refers to constraints.  All of these numbers are in
range, so that solving and splitting find all that they look up.
-/

namespace Dalvik

namespace Lower

variable {context : LoweringContext} {final : LoweringState}

/-- Operands mention values that there are. -/
theorem OperandStated.mention_lt {operand : Operand Slot} (stated : OperandStated context final operand)
    {slot : Slot} (mentioned : slot ∈ operand.mentions) : slot.value < final.values.values.length := by
  cases stated with
  | var isStated | literal isStated _ _ =>
      obtain rfl := List.mem_singleton.mp mentioned
      exact isStated.present
  | constant _ => cases mentioned

theorem Sound.mention_lt {statement : Statement Slot} (sound : Sound context final statement) {slot : Slot}
    (mentioned : slot ∈ statement.mentions) : slot.value < final.values.values.length := by
  rcases List.mem_append.mp mentioned with inOperand | written
  · obtain ⟨operand, listed, inOperand⟩ := List.mem_flatMap.mp inOperand
    exact (sound.operands operand listed).mention_lt inOperand
  · exact (sound.written slot (Option.mem_toList.mp written)).present

end Lower

namespace Lift

/-- What a lowered method, its solution, and solving and splitting refer to by number is there. -/
structure InRange (lowered : Lowered) : Prop where
  /-- Constraints are about values that there are. -/
  owners : ∀ entry ∈ lowered.state.recorded,
    entry.constraint.owner < lowered.state.values.values.length
  joined : ∀ entry ∈ lowered.state.recorded, ∀ value other, entry.constraint = .sameAs value other →
    value < lowered.state.values.values.length ∧ other < lowered.state.values.values.length
  /-- Pairs are of values that there are. -/
  merged : ∀ pair ∈ lowered.state.merges, pair.1 < lowered.state.values.values.length ∧
    pair.2 < lowered.state.values.values.length
  /-- Statements mention values that there are. -/
  mentioned : ∀ item ∈ lowered.statements, ∀ slot ∈ item.2.mentions,
    slot.value < lowered.state.values.values.length
  /-- Each value has a class, classes have members, and there are the diagnostics they refer to. -/
  solution : lowered.solution.InRange lowered.state.values.values.length
  /-- What leaves no kind for a class is a constraint that restricts one of its members. -/
  culprits : ∀ value < lowered.state.values.values.length, ∀ kinds culprit,
    Solution.left lowered.state.values.values lowered.state.recorded value = .emptied kinds culprit →
      ∃ entry, lowered.state.recorded[culprit]? = some entry ∧ entry.constraint.kinds.isSome = true ∧
        entry.constraint.owner ∈
          Solution.classmates lowered.state.values.values lowered.state.recorded value
  /-- Solving looks up nothing that there is not. -/
  solves : Solution.solve? lowered.state.values.values lowered.state.recorded = some lowered.solution
  /-- Splitting looks up nothing that there is not. -/
  splits : split? lowered.statements lowered.state.values.values lowered.state.merges lowered.solution =
    some (split lowered.statements lowered.state.values.values lowered.state.merges lowered.solution)

/-- Whatever a method is lowered to, solving and splitting find all that they look up. -/
theorem numbers_in_range {code : Code} {pool : Pool} {options : LiftOptions} {context : LoweringContext}
    {lowered : Lowered} (isContext : contextOf code pool = .ok context)
    (isLowered : lower context options = .ok lowered) : InRange lowered := by
  have lifts : Lifts code pool options (assemble code lowered lowered.solution) context lowered :=
    ⟨isContext, isLowered, rfl⟩
  have owners := lifts.gathers.orderly.owned
  have mentioned : ∀ item ∈ lowered.statements, ∀ slot ∈ item.2.mentions,
      slot.value < lowered.state.values.values.length :=
    fun item listed slot isSlot => (lifts.gathers.sound item listed).mention_lt isSlot
  have inRange : lowered.solution.InRange lowered.state.values.values.length :=
    lifts.inside.inRange_solve
  exact {
    owners
    joined := lifts.inside
    merged := lifts.merges_inside
    mentioned
    solution := inRange
    culprits := fun _ _ _ _ emptied => Solution.culprit_of_narrowing emptied
    solves := Solution.solve?_eq_some lifts.inside owners
    splits := split?_eq_some inRange lifts.merges_inside mentioned }

end Lift

/-- A method that sets a register at one of two places, and negates it as a float and as an int. -/
def Code.negatesBoth : Code where
  method := 0
  flags := ⟨8⟩
  registers := 2
  instructions := [.ofOpcode 0 .ifEqz [.ofNat 1] (some 4) none, .setZero 2,
    .ofOpcode 3 .goto [] (some 2) none, .setZero 4,
    .ofOpcode 5 .negFloat [.ofNat 1, .ofNat 0] none none, .negate 6,
    .ofOpcode 7 .returnVoid [] none none]
  tries := []

namespace Lift

/-- The two places set values of one class, for which the constraint that makes it an int leaves no
kind. -/
theorem inRange_negatesBoth : ∃ context lowered,
    contextOf .negatesBoth .oneMethod = .ok context ∧ lower context {} = .ok lowered ∧
      InRange lowered ∧ (2, 1) ∈ lowered.state.merges ∧
      Solution.left lowered.state.values.values lowered.state.recorded 1 = .emptied (.ofKind .float) 4 ∧
      ∃ entry, lowered.state.recorded[4]? = some entry ∧ entry.constraint = .exactly 1 .int := by
  have lowers : LowersTo .negatesBoth .oneMethod ⟨2, []⟩ 5 {} fun _ lowered =>
      (2, 1) ∈ lowered.state.merges ∧
        Solution.left lowered.state.values.values lowered.state.recorded 1 =
          .emptied (.ofKind .float) 4 ∧
        lowered.state.recorded[4]?.map Recorded.constraint = some (.exactly 1 .int) := by
    decide +kernel
  obtain ⟨_, context, lowered, -, lifts, merged, emptied, culprit⟩ :=
    @LowersTo.exists_lifts .negatesBoth .oneMethod [] 5 {} _ _ (by decide) (by decide) rfl lowers
  exact ⟨context, lowered, lifts.ofCode, lifts.lowers, numbers_in_range lifts.ofCode lifts.lowers, merged,
    emptied, Option.map_eq_some_iff.mp culprit⟩

end Lift

end Dalvik
