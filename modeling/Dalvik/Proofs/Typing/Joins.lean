import Dalvik.Proofs.Typing.Assignment

/-!
# Where values are joined

Constraints that join values say which classes there are, and nothing else.  Wherever they are
recorded, a class is left the same kinds, and what is reported of it names the same constraints.
-/

namespace Dalvik

namespace Solution

def restrictions (recorded : List Recorded) : List Recorded :=
  recorded.filter fun entry => entry.constraint.kinds.isSome

/-- Constraints that join values follow from opcodes. -/
def JoinsInCode (recorded : List Recorded) : Prop :=
  ∀ entry ∈ recorded, entry.constraint.kinds = none → entry.origin = .opcode

instance {recorded : List Recorded} : Decidable (JoinsInCode recorded) :=
  inferInstanceAs (Decidable (∀ entry ∈ recorded, _))

/-- What some constraints leave and what the restrictions among them leave: the same, and the same
constraint is to blame for a conflict. -/
inductive Corresponds (recorded : List Recorded) : Narrowing → Narrowing → Prop where
  | mixed : Corresponds recorded .mixed .mixed
  | remaining (kinds : KindSet) (constrained : Bool) :
      Corresponds recorded (.remaining kinds constrained) (.remaining kinds constrained)
  | emptied {left : KindSet} {before after : List Recorded} {entry : Recorded}
      (culprit : recorded = before ++ entry :: after) (restricts : entry.constraint.kinds.isSome = true) :
      Corresponds recorded (.emptied left before.length) (.emptied left (restrictions before).length)

variable {values : List ProvisionalValue} {recorded other : List Recorded}

theorem restrictions_append {before after : List Recorded} :
    restrictions (before ++ after) = restrictions before ++ restrictions after :=
  List.filter_append _ _

theorem restrictions_cons_of_isSome {entry : Recorded} {rest : List Recorded}
    (restricts : entry.constraint.kinds.isSome = true) :
    restrictions (entry :: rest) = entry :: restrictions rest :=
  List.filter_cons_of_pos restricts

theorem restrictions_cons_of_eq_none {entry : Recorded} {rest : List Recorded}
    (joins : entry.constraint.kinds = none) : restrictions (entry :: rest) = restrictions rest :=
  List.filter_cons_of_neg (by rw [joins]; exact Bool.false_ne_true)

/-- The same constraints restrict members up to a restriction. -/
theorem restrictionsUpTo_restrictions (members : List Nat) (before after : List Recorded)
    (entry : Recorded) :
    restrictionsUpTo (restrictions before ++ entry :: restrictions after) members
        (restrictions before).length =
      restrictionsUpTo (before ++ entry :: after) members before.length := by
  have taken : ∀ earlier later : List Recorded,
      (earlier ++ entry :: later).take (earlier.length + 1) = earlier ++ [entry] := by
    intro earlier later
    rw [List.append_cons]
    exact List.take_left' List.length_append
  rw [restrictionsUpTo, restrictionsUpTo, taken, taken, List.filter_append, List.filter_append,
    restrictions, List.filter_filter]
  congr 1
  refine List.filter_congr fun entry _ => ?_
  cases entry.constraint.kinds.isSome with
  | false => rfl
  | true => exact Bool.and_true _

/-- Joins that follow from opcodes do not declare types. -/
theorem isDeclared_restrictions {before : List Recorded} (inCode : JoinsInCode before)
    (members : List Nat) (after later : List Recorded) :
    isDeclared (restrictions before ++ later) members (restrictions before).length =
      isDeclared (before ++ after) members before.length := by
  rw [isDeclared, isDeclared, List.take_left, List.take_left, restrictions, List.any_filter]
  rw [Bool.eq_iff_iff, List.any_eq_true, List.any_eq_true]
  refine exists_congr fun entry => and_congr_right fun listed => ?_
  cases isAllowed : entry.constraint.kinds with
  | some allowed => rfl
  | none =>
      rw [inCode entry listed isAllowed]
      rfl

namespace Corresponds

variable {narrowing narrowing' : Narrowing}

/-- A restriction is taken into account alike. -/
theorem restrict (corresponds : Corresponds recorded narrowing narrowing') {before after : List Recorded}
    {entry : Recorded} (split : recorded = before ++ entry :: after) {allowed : KindSet}
    (isAllowed : entry.constraint.kinds = some allowed) :
    Corresponds recorded (narrowing.restrict before.length allowed)
      (narrowing'.restrict (restrictions before).length allowed) := by
  cases corresponds with
  | mixed => exact .mixed
  | emptied culprit restricts => exact .emptied culprit restricts
  | remaining kinds constrained =>
      rw [Narrowing.restrict, Narrowing.restrict]
      split
      · exact .emptied split (by rw [isAllowed]; rfl)
      · exact .remaining _ true

/-- Joins are passed over. -/
theorem restrictAll (corresponds : Corresponds recorded narrowing narrowing') (isMember : Nat → Bool)
    {before rest : List Recorded} (split : recorded = before ++ rest) :
    Corresponds recorded (narrowing.restrictAll isMember before.length rest)
      (narrowing'.restrictAll isMember (restrictions before).length (restrictions rest)) := by
  induction rest generalizing before narrowing narrowing' with
  | nil => exact corresponds
  | cons entry rest ih =>
      have next : recorded = (before ++ [entry]) ++ rest := by
        rw [split, List.append_assoc, List.singleton_append]
      have length : (before ++ [entry]).length = before.length + 1 := List.length_append
      cases isAllowed : entry.constraint.kinds with
      | none =>
          have same : restrictions (before ++ [entry]) = restrictions before := by
            rw [restrictions_append, restrictions_cons_of_eq_none isAllowed]
            exact List.append_nil _
          rw [restrictions_cons_of_eq_none isAllowed, Narrowing.restrictAll, isAllowed, ← length, ← same]
          exact ih corresponds next
      | some allowed =>
          have restricts : entry.constraint.kinds.isSome = true := by rw [isAllowed]; rfl
          have length' : (restrictions (before ++ [entry])).length = (restrictions before).length + 1 := by
            rw [restrictions_append, restrictions_cons_of_isSome restricts]
            exact List.length_append
          rw [restrictions_cons_of_isSome restricts, Narrowing.restrictAll, Narrowing.restrictAll,
            isAllowed, ← length, ← length']
          refine ih ?_ next
          dsimp only
          split
          · exact corresponds.restrict split isAllowed
          · exact corresponds

theorem isConflict_eq (corresponds : Corresponds recorded narrowing narrowing') :
    narrowing.isConflict = narrowing'.isConflict := by
  cases corresponds <;> rfl

theorem resolved_eq (corresponds : Corresponds recorded narrowing narrowing') (width : Width) :
    narrowing.resolved width = narrowing'.resolved width := by
  cases corresponds <;> rfl

/-- What is reported of a conflict does not say where values are joined. -/
theorem report_eq (corresponds : Corresponds recorded narrowing narrowing') (inCode : JoinsInCode recorded)
    (members : List Nat) (kind : Kind) :
    report values recorded members kind narrowing =
      report values (restrictions recorded) members kind narrowing' := by
  cases corresponds with
  | mixed => rfl
  | remaining kinds constrained => cases constrained <;> rfl
  | @emptied left before after entry culprit restricts =>
      have culprit' : restrictions recorded = restrictions before ++ entry :: restrictions after := by
        rw [culprit, restrictions_append, restrictions_cons_of_isSome restricts]
      have same : (restrictions recorded)[(restrictions before).length]? = recorded[before.length]? := by
        rw [culprit', culprit, List.getElem?_append_right (Nat.le_refl _),
          List.getElem?_append_right (Nat.le_refl _), Nat.sub_self, Nat.sub_self]
        rfl
      have inCodeBefore : JoinsInCode before := fun entry listed =>
        inCode entry (culprit ▸ List.mem_append_left _ listed)
      rw [report, report, same, culprit', culprit, restrictionsUpTo_restrictions,
        isDeclared_restrictions inCodeBefore]

end Corresponds

/-- Narrowing by all constraints is narrowing by the restrictions. -/
theorem narrowing_corresponds (width : Width) (members : List Nat) :
    Corresponds recorded (narrowing values recorded width members)
      (narrowing values (restrictions recorded) width members) := by
  rw [narrowing, narrowing]
  refine Corresponds.restrictAll ?_ members.contains (List.nil_append recorded).symm
  split
  · exact .remaining _ false
  · exact .mixed

/-- A class is solved by the restrictions. -/
theorem solveClass_restrictions (inCode : JoinsInCode recorded) (number : Nat) (members : List Nat) :
    solveClass values recorded number members =
      solveClass values (restrictions recorded) number members := by
  have corresponds := fun width => @narrowing_corresponds values recorded width members
  rw [solveClass, solveClass, (corresponds _).resolved_eq, (corresponds _).isConflict_eq,
    (corresponds _).report_eq inCode]

theorem solveClasses_restrictions (inCode : JoinsInCode recorded) (number : Nat)
    (list : List (List Nat)) :
    solveClasses values recorded number list =
      solveClasses values (restrictions recorded) number list := by
  induction list generalizing number with
  | nil => rfl
  | cons members rest ih =>
      rw [solveClasses, solveClasses, solveClass_restrictions inCode]
      dsimp only
      rw [ih]

/-- Constraints with the same restrictions are solved alike, wherever and however often they join
the values of each class. -/
theorem solve_eq_of_joined (inside : Inside values recorded) (insideOther : Inside values other)
    (inCode : JoinsInCode recorded) (inCodeOther : JoinsInCode other)
    (restricts : restrictions recorded = restrictions other)
    (joined : ∀ first < values.length, ∀ second < values.length,
      (Joined recorded first second ↔ Joined other first second)) :
    solve values recorded = solve values other := by
  rw [solve, solve, partition_congr inside insideOther joined, solveClasses_restrictions inCode,
    solveClasses_restrictions inCodeOther, restricts]

/-- Three of the eight values are joined before a constraint empties their class. -/
def chained : List Recorded :=
  [⟨some 10, .oneOf 7 .narrowNumber, .opcode⟩, ⟨some 10, .sameAs 7 3, .opcode⟩,
    ⟨some 12, .sameAs 3 0, .opcode⟩, ⟨some 12, .exactly 1 .float, .anchor⟩,
    ⟨some 14, .exactly 0 .object, .opcode⟩]

/-- The same three values are joined afterwards, some of them twice. -/
def joinedLast : List Recorded :=
  [⟨some 10, .oneOf 7 .narrowNumber, .opcode⟩, ⟨some 12, .exactly 1 .float, .anchor⟩,
    ⟨some 14, .exactly 0 .object, .opcode⟩, ⟨some 16, .sameAs 0 7, .opcode⟩,
    ⟨none, .sameAs 0 3, .opcode⟩, ⟨some 16, .sameAs 7 0, .opcode⟩, ⟨some 18, .sameAs 4 4, .opcode⟩]

/-- The emptied class is reported alike, although the constraint to blame has another position. -/
theorem solve_chained_eq : solve eightValues chained = solve eightValues joinedLast ∧
    left eightValues chained 0 = .emptied .narrowNumber 4 ∧
    left eightValues joinedLast 0 = .emptied .narrowNumber 2 := by
  have inside : Inside eightValues chained := by decide
  have insideOther : Inside eightValues joinedLast := by decide
  have joined : ∀ first < eightValues.length, ∀ second < eightValues.length,
      (Joined chained first second ↔ Joined joinedLast first second) := by
    have same : partition eightValues chained = partition eightValues joinedLast := by decide
    intro first isFirst second isSecond
    rw [← inside.label_eq_iff isFirst isSecond, ← insideOther.label_eq_iff isFirst isSecond, same]
  refine ⟨?_, by decide, by decide⟩
  exact solve_eq_of_joined inside insideOther (by decide) (by decide) (by decide) joined

end Solution

end Dalvik
