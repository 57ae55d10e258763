import Dalvik.Reaching.Solve
import Mathlib.Order.Lattice

/-!
# The order of states

States are ordered by the definitions they hold.  They form a join semilattice, and what
an instruction does to the states of a frame distributes over the join, so it is monotone.
-/

namespace Dalvik

/-- The part of a value of a width that is in the register a number of registers
after its first. -/
def Width.halfAt : Width → Nat → Half
  | .narrow, _ => .narrow
  | .wide, 0 => .low
  | .wide, _ + 1 => .high

/-- Whether a value of a width that starts in a register takes the register of a
number. -/
def Reg.Spans (reg : Reg) (width : Width) (number : Nat) : Prop :=
  reg.number ≤ number ∧ number < reg.number + width.slots

instance (reg : Reg) (width : Width) (number : Nat) : Decidable (reg.Spans width number) :=
  inferInstanceAs (Decidable (_ ∧ _))

theorem Reg.spans_narrow {reg : Reg} {number : Nat} :
    reg.Spans .narrow number ↔ number = reg.number := by
  simp only [Reg.Spans, Width.slots]
  omega

theorem Reg.spans_wide {reg : Reg} {number : Nat} :
    reg.Spans .wide number ↔ number = reg.number ∨ number = reg.number + 1 := by
  simp only [Reg.Spans, Width.slots]
  omega

namespace Reaching

def Holds (state : Reaching) (number : Nat) (d : Def) : Prop :=
  ∃ defs, state.at? number = some defs ∧ d ∈ defs

theorem Holds.lt {state : Reaching} {number : Nat} {d : Def} (holds : state.Holds number d) :
    number < state.regs.length := by
  obtain ⟨defs, found, -⟩ := holds
  exact (List.getElem?_eq_some_iff.mp found).1

/-- A state is given by its number of registers and what they hold. -/
theorem eq_of_holds {first second : Reaching} (length : first.regs.length = second.regs.length)
    (same : ∀ number d, first.Holds number d ↔ second.Holds number d) : first = second := by
  cases first with
  | mk firstRegs =>
  cases second with
  | mk secondRegs =>
  congr 1
  refine List.ext_getElem length fun number firstLt secondLt => ?_
  refine SortedSet.eq_of_mem_iff fun d => ?_
  have both := same number d
  simp only [Holds, at?, List.getElem?_eq_getElem firstLt, List.getElem?_eq_getElem secondLt,
    Option.some.injEq, exists_eq_left'] at both
  exact both

theorem joinRegs_getElem? (first second : List (SortedSet Def)) (number : Nat) :
    (joinRegs first second)[number]? =
      match first[number]?, second[number]? with
      | some defs, some others => some (defs.union others)
      | some defs, none => some defs
      | none, others => others := by
  induction first, second using joinRegs.induct generalizing number with
  | case1 second => simp [joinRegs]
  | case2 first notNil =>
      cases first with
      | nil => exact absurd rfl notNil
      | cons defs first =>
          simp only [joinRegs, List.getElem?_nil]
          cases (defs :: first)[number]? <;> rfl
  | case3 defs first others second ih =>
      cases number with
      | zero => simp [joinRegs]
      | succ number => simpa [joinRegs] using ih number

theorem joinRegs_length (first second : List (SortedSet Def)) :
    (joinRegs first second).length = max first.length second.length := by
  induction first, second using joinRegs.induct with
  | case1 second => simp [joinRegs]
  | case2 first notNil =>
      cases first with
      | nil => exact absurd rfl notNil
      | cons defs first => simp [joinRegs]
  | case3 defs first others second ih => simp [joinRegs, ih]

theorem length_join (first second : Reaching) :
    (first.join second).regs.length = max first.regs.length second.regs.length :=
  joinRegs_length _ _

@[simp] theorem holds_join {first second : Reaching} {number : Nat} {d : Def} :
    (first.join second).Holds number d ↔ first.Holds number d ∨ second.Holds number d := by
  simp only [Holds, at?, join, joinRegs_getElem?]
  cases first.regs[number]? <;> cases second.regs[number]? <;> simp

instance : PartialOrder Reaching where
  le first second := first.regs.length ≤ second.regs.length ∧
    ∀ number d, first.Holds number d → second.Holds number d
  le_refl state := ⟨Nat.le_refl _, fun _ _ holds => holds⟩
  le_trans first second third below above :=
    ⟨Nat.le_trans below.1 above.1, fun number d holds => above.2 number d (below.2 number d holds)⟩
  le_antisymm first second below above :=
    eq_of_holds (Nat.le_antisymm below.1 above.1)
      fun number d => ⟨below.2 number d, above.2 number d⟩

instance : SemilatticeSup Reaching where
  sup := join
  le_sup_left first second := by
    refine ⟨?_, fun number d holds => holds_join.mpr (.inl holds)⟩
    simp [length_join]
  le_sup_right first second := by
    refine ⟨?_, fun number d holds => holds_join.mpr (.inr holds)⟩
    simp [length_join]
  sup_le first second upper below above := by
    refine ⟨?_, fun number d holds => ?_⟩
    · simp [length_join, below.1, above.1]
    · exact (holds_join.mp holds).elim (below.2 number d) (above.2 number d)

theorem join_eq_sup (first second : Reaching) : first.join second = first ⊔ second :=
  rfl

theorem holds_drop {half : Half} {dropped : Nat} {regs : List (SortedSet Def)} {number : Nat}
    {d : Def} : Holds ⟨drop half dropped regs⟩ number d ↔
      Holds ⟨regs⟩ number d ∧ ¬ (number = dropped ∧ d.half = half) := by
  simp only [Holds, at?, drop, List.getElem?_modify]
  by_cases same : dropped = number
  · cases regs[number]? <;> simp [same]
  · cases regs[number]? <;> simp [same, Ne.symm same]

theorem holds_set {regs : List (SortedSet Def)} {place number : Nat} (inside : place < regs.length)
    {value d : Def} : Holds ⟨regs.set place (.singleton value)⟩ number d ↔
      (number = place ∧ d = value) ∨ (number ≠ place ∧ Holds ⟨regs⟩ number d) := by
  simp only [Holds, at?, List.getElem?_set]
  by_cases same : place = number
  · subst same
    simp only [inside, if_true, Option.some.injEq, exists_eq_left', true_and, ne_eq, not_true,
      false_and, or_false]
    exact List.mem_singleton
  · simp [same, Ne.symm same]

/-- The registers after what a write ends around its own is dropped. -/
def clear (reg : Reg) (width : Width) (regs : List (SortedSet Def)) : List (SortedSet Def) :=
  drop .high (reg.number + width.slots)
    (if reg.number = 0 then regs else drop .low (reg.number - 1) regs)

theorem length_clear (reg : Reg) (width : Width) (regs : List (SortedSet Def)) :
    (clear reg width regs).length = regs.length := by
  unfold clear
  split <;> simp [drop]

theorem holds_clear {reg : Reg} {width : Width} {regs : List (SortedSet Def)} {number : Nat}
    {d : Def} : Holds ⟨clear reg width regs⟩ number d ↔ Holds ⟨regs⟩ number d ∧
      ¬ (number + 1 = reg.number ∧ d.half = .low) ∧
      ¬ (number = reg.number + width.slots ∧ d.half = .high) := by
  rw [clear, holds_drop]
  split
  · rename_i first
    have none : number + 1 ≠ reg.number := by omega
    simp [none]
  · rename_i notFirst
    have shift : number = reg.number - 1 ↔ number + 1 = reg.number := by omega
    rw [holds_drop, shift, and_assoc]

/-- A write past the frame has no effect. -/
theorem write_outside {state : Reaching} {reg : Reg} {width : Width}
    (outside : state.regs.length < reg.number + width.slots) (site : Site) :
    state.write site reg width = state :=
  if_pos outside

theorem write_narrow {state : Reaching} {reg : Reg}
    (inside : reg.number + Width.narrow.slots ≤ state.regs.length) (site : Site) :
    state.write site reg .narrow =
      ⟨(clear reg .narrow state.regs).set reg.number (.singleton ⟨site, reg, .narrow⟩)⟩ :=
  if_neg (Nat.not_lt.mpr inside)

theorem write_wide {state : Reaching} {reg : Reg}
    (inside : reg.number + Width.wide.slots ≤ state.regs.length) (site : Site) :
    state.write site reg .wide =
      ⟨((clear reg .wide state.regs).set reg.number (.singleton ⟨site, reg, .low⟩)).set
        (reg.number + 1) (.singleton ⟨site, reg, .high⟩)⟩ :=
  if_neg (Nat.not_lt.mpr inside)

@[simp] theorem length_write (state : Reaching) (site : Site) (reg : Reg) (width : Width) :
    (state.write site reg width).regs.length = state.regs.length := by
  by_cases outside : state.regs.length < reg.number + width.slots
  · rw [write_outside outside]
  · cases width with
    | narrow => simp [write_narrow (Nat.not_lt.mp outside), length_clear]
    | wide => simp [write_wide (Nat.not_lt.mp outside), length_clear]

@[simp] theorem length_transfer (state : Reaching) (instruction : Instruction) :
    (state.transfer instruction).regs.length = state.regs.length := by
  unfold transfer
  split
  · exact length_write _ _ _ _
  · rfl

/-- What holds without definitions and after each argument is written holds of the
initial state. -/
theorem init_induction {frame : RegisterFrame} {property : Reaching → Prop}
    (start : property (empty frame.registers))
    (writes : ∀ param ∈ frame.params, ∀ state, property state →
      property (state.write .param param.1 param.2)) :
    property (init frame) :=
  List.foldlRecOn frame.params _ start fun state holds param listed =>
    writes param listed state holds

theorem length_init (frame : RegisterFrame) : (init frame).regs.length = frame.registers := by
  refine @init_induction frame (fun state => state.regs.length = frame.registers) ?_ ?_
  · exact List.length_replicate
  · exact fun param _ state length => (length_write state _ param.1 param.2).trans length

/-- Whether a definition stays in a register when a value is written: it is not
overwritten, nor is the other half of it. -/
def Kept (reg : Reg) (width : Width) (number : Nat) (d : Def) : Prop :=
  ¬ reg.Spans width number ∧ ¬ (number + 1 = reg.number ∧ d.half = .low) ∧
    ¬ (number = reg.number + width.slots ∧ d.half = .high)

/-- What the state holds after a write: the value, and what is kept. -/
theorem holds_write {state : Reaching} {reg : Reg} {width : Width}
    (inside : reg.number + width.slots ≤ state.regs.length) (site : Site) (number : Nat) (d : Def) :
    (state.write site reg width).Holds number d ↔
      (reg.Spans width number ∧ d = ⟨site, reg, width.halfAt (number - reg.number)⟩) ∨
      (state.Holds number d ∧ Kept reg width number d) := by
  have cleared := length_clear reg width state.regs
  cases width with
  | narrow =>
      have place : reg.number < (clear reg .narrow state.regs).length := by
        rw [cleared]
        exact inside
      rw [write_narrow inside, holds_set place, holds_clear, Kept, Reg.spans_narrow, and_left_comm]
      rfl
  | wide =>
      have place : reg.number < (clear reg .wide state.regs).length := by
        rw [cleared]
        exact Nat.lt_of_succ_lt inside
      have next : reg.number + 1 <
          ((clear reg .wide state.regs).set reg.number (.singleton ⟨site, reg, .low⟩)).length := by
        rw [List.length_set, cleared]
        exact inside
      rw [write_wide inside, holds_set next, holds_set place, holds_clear, Kept, Reg.spans_wide]
      by_cases low : number = reg.number
      · subst low
        simp [Width.halfAt]
      · by_cases high : number = reg.number + 1
        · subst high
          simp [Width.halfAt]
        · simp [low, high]

theorem not_holds_empty {registers number : Nat} {d : Def} :
    ¬ (empty registers).Holds number d := by
  rintro ⟨defs, found, member⟩
  rw [at?, empty, List.getElem?_replicate] at found
  split at found
  · obtain rfl := Option.some.inj found
    exact absurd member List.not_mem_nil
  · cases found

/-- The initial state holds arguments only. -/
theorem site_of_holds_init {frame : RegisterFrame} {number : Nat} {d : Def}
    (holds : (init frame).Holds number d) : d.site = .param := by
  refine @init_induction frame (fun state => ∀ number d, state.Holds number d → d.site = .param)
    ?_ ?_ number d holds
  · exact fun _ _ holds => absurd holds not_holds_empty
  · intro param _ state before number d holds
    by_cases outside : state.regs.length < param.1.number + param.2.slots
    · rw [write_outside outside] at holds
      exact before number d holds
    · rcases (holds_write (Nat.not_lt.mp outside) _ number d).mp holds with ⟨-, rfl⟩ | ⟨holds, -⟩
      · rfl
      · exact before number d holds

/-- What can be read from a register is chosen from what is in it, as the first parts of
values of the width. -/
theorem readable_eq_filter (state : Reaching) (reg : Reg) (width : Width) :
    ∃ test : Def → Bool, (∀ d, test d = true → d.half = width.halfAt 0) ∧
      state.readable reg width =
        ((state.at? reg.number).elim [] SortedSet.elements).filter test := by
  unfold readable
  cases here : state.at? reg.number with
  | none => exact ⟨fun _ => false, by simp, rfl⟩
  | some defs =>
      cases width with
      | narrow => exact ⟨_, fun d narrow => eq_of_beq narrow, rfl⟩
      | wide =>
          cases state.at? (reg.number + 1) with
          | none => exact ⟨fun _ => false, by simp, by simp⟩
          | some next => exact ⟨_, fun d low => eq_of_beq (Bool.and_eq_true_iff.mp low).1, rfl⟩

theorem holds_of_mem_readable {state : Reaching} {reg : Reg} {width : Width} {d : Def}
    (reads : d ∈ state.readable reg width) :
    state.Holds reg.number d ∧ d.half = width.halfAt 0 := by
  obtain ⟨test, first, chosen⟩ := readable_eq_filter state reg width
  obtain ⟨member, passes⟩ := List.mem_filter.mp (chosen ▸ reads)
  refine ⟨?_, first d passes⟩
  cases here : state.at? reg.number with
  | none => simp [here] at member
  | some defs =>
      rw [here] at member
      exact ⟨defs, here, member⟩

/-- What can be read comes in order, the least definition first. -/
theorem readable_ascending (state : Reaching) (reg : Reg) (width : Width) :
    (state.readable reg width).Pairwise fun d e => d.key < e.key := by
  obtain ⟨test, -, chosen⟩ := readable_eq_filter state reg width
  rw [chosen]
  refine List.Pairwise.filter test ?_
  cases state.at? reg.number with
  | none => exact List.Pairwise.nil
  | some defs => exact defs.ascending

/-- What is done to states part by part is monotone. -/
theorem le_of_map_join (act : Reaching → Reaching) {first second : Reaching}
    (map_join : act (first.join second) = (act first).join (act second)) (below : first ≤ second) :
    act first ≤ act second := by
  have absorbed : first.join second = second := sup_eq_right.mpr below
  calc act first ≤ act first ⊔ act second := le_sup_left
    _ = act (first.join second) := map_join.symm
    _ = act second := by rw [absorbed]

/-- A write distributes over the join: it puts the same definition into both states, and
what it keeps of either it keeps of both together. -/
theorem write_join {first second : Reaching} (length : first.regs.length = second.regs.length)
    (site : Site) (reg : Reg) (width : Width) :
    (first.join second).write site reg width =
      (first.write site reg width).join (second.write site reg width) := by
  have joined : (first.join second).regs.length = first.regs.length := by
    rw [length_join, ← length, max_self]
  by_cases outside : first.regs.length < reg.number + width.slots
  · rw [write_outside (joined ▸ outside), write_outside outside, write_outside (length ▸ outside)]
  · have inside := Nat.not_lt.mp outside
    refine eq_of_holds (by simp [length_join]) fun number d => ?_
    rw [holds_join, holds_write (joined ▸ inside), holds_write inside, holds_write (length ▸ inside),
      holds_join, or_and_right, or_or_distrib_left]

/-- What an instruction does to a state distributes over the join. -/
theorem transfer_join {first second : Reaching} (length : first.regs.length = second.regs.length)
    (instruction : Instruction) : (first.join second).transfer instruction =
      (first.transfer instruction).join (second.transfer instruction) := by
  unfold transfer
  split
  · exact write_join length _ _ _
  · rfl

/-- What an instruction does to a state is monotone. -/
theorem transfer_mono {first second : Reaching} (length : first.regs.length = second.regs.length)
    (below : first ≤ second) (instruction : Instruction) :
    first.transfer instruction ≤ second.transfer instruction :=
  le_of_map_join (fun state => state.transfer instruction) (transfer_join length instruction) below

end Reaching

namespace Solving

theorem exitOf_append (entry : Reaching) (first second : List Instruction) :
    exitOf entry (first ++ second) = exitOf (exitOf entry first) second :=
  List.foldl_append

theorem length_exitOf (entry : Reaching) (instructions : List Instruction) :
    (exitOf entry instructions).regs.length = entry.regs.length := by
  induction instructions generalizing entry with
  | nil => rfl
  | cons instruction rest ih => exact (ih _).trans (Reaching.length_transfer entry instruction)

/-- What a run of instructions does to a state distributes over the join. -/
theorem exitOf_join {first second : Reaching} (length : first.regs.length = second.regs.length)
    (instructions : List Instruction) : exitOf (first.join second) instructions =
      (exitOf first instructions).join (exitOf second instructions) := by
  induction instructions generalizing first second with
  | nil => rfl
  | cons instruction rest ih =>
      calc exitOf (first.join second) (instruction :: rest)
        _ = exitOf ((first.transfer instruction).join (second.transfer instruction)) rest :=
            congrArg (exitOf · rest) (Reaching.transfer_join length instruction)
        _ = _ := ih (by simp [length])

/-- What a run of instructions does to a state is monotone. -/
theorem exitOf_mono {first second : Reaching} (length : first.regs.length = second.regs.length)
    (below : first ≤ second) (instructions : List Instruction) :
    exitOf first instructions ≤ exitOf second instructions :=
  Reaching.le_of_map_join (fun state => exitOf state instructions) (exitOf_join length instructions)
    below

end Solving

end Dalvik
