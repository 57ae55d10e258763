import Dalvik.Proofs.Lowering.Rules

/-!
# Lowering calls

A call reads its arguments from registers that follow one another, and its value is
that of the `move-result` it takes over.
-/

namespace Dalvik

namespace Lower

variable {context : LoweringContext} {current : Current} {before after : LoweringState}
  {statements : List (Statement Slot)}

theorem throw_eq_ok {α : Type} {error : LiftError} {result : α × LoweringState} :
    ¬ (throw error : Lower α).run before = .ok result := by
  intro success
  cases success

theorem fail_eq_ok {α : Type} {fault : OperandFault} {result : α × LoweringState} :
    ¬ (liftM (current.fail fault : Except LiftError α) : Lower α).run before = .ok result := by
  intro success
  cases success

theorem readArguments_spec {number position : Nat} {kinds : List Kind} {slots : List Slot}
    (success : (readArguments context current number position kinds).run before = .ok (slots, after)) :
    Performs context current.addr before
      (Instruction.argumentReads (current.instruction.regs.drop position) (kinds.map Kind.width))
      (slots.map Slot.value) after := by
  induction kinds generalizing number position before slots with
  | nil =>
      obtain ⟨rfl, rfl⟩ := Prod.mk.inj (pure_eq_ok.mp success)
      have none : Instruction.argumentReads (current.instruction.regs.drop position) [] = [] := by
        unfold Instruction.argumentReads
        split <;> simp_all
      exact (Performs.nothing (.refl _)).declared none
  | cons kind kinds ih =>
      simp only [readArguments, bind_eq_ok, lift_eq_ok, reg_eq_ok, Prod.mk.injEq] at success
      obtain ⟨_, _, ⟨reg, given, rfl, rfl⟩, success⟩ := success
      have rest : (do
          let slot ← readAs context current reg (.ofKind kind) .anchor
          let slots ← readArguments context current (number + 1) (position + kind.width.slots) kinds
          return slot :: slots : Lower (List Slot)).run before = .ok (slots, after) := by
        split at success
        · obtain ⟨second, _, given, success⟩ := bind_eq_ok.mp success
          obtain ⟨_, -, same⟩ := lift_eq_ok.mp given
          obtain ⟨rfl, rfl⟩ := Prod.mk.inj same
          split at success
          · obtain ⟨_, _, fails, -⟩ := bind_eq_ok.mp success
            exact absurd fails fail_eq_ok
          · exact success
        · exact success
      simp only [bind_eq_ok, pure_eq_ok, Prod.mk.injEq] at rest
      obtain ⟨slot, _, reads, others, _, more, rfl, rfl⟩ := rest
      have read := (readAs_spec reads).append (ih more)
      apply read.declared
      have place : position + 1 + (kind.width.slots - 1) = position + kind.width.slots := by
        cases kind.width <;> rfl
      rw [List.drop_eq_getElem?_toList_append, given, Option.toList_some, List.singleton_append,
        List.map_cons, Instruction.argumentReads, List.drop_drop, place, KindSet.width_ofKind]
      rfl

/-- A call passes registers that follow one another, as many as its kinds take. -/
theorem arguments_spec {kinds : List Kind} {slots : List Slot}
    (success : (arguments context current kinds).run before = .ok (slots, after)) :
    kinds.foldr (fun kind slots => kind.width.slots + slots) 0 = current.instruction.regs.length ∧
      Performs context current.addr before
        (Instruction.argumentReads current.instruction.regs (kinds.map Kind.width))
        (slots.map Slot.value) after := by
  unfold arguments at success
  dsimp only at success
  split at success
  · obtain ⟨_, _, fails, -⟩ := bind_eq_ok.mp success
    exact absurd fails throw_eq_ok
  · rename_i same
    exact ⟨not_not.mp same, readArguments_spec success⟩

theorem resultMove_eq_some {next : Instruction} {opcode : Opcode}
    (found : resultMove context current = some (next, opcode)) : current.next = some next := by
  unfold resultMove at found
  cases follows : current.next with
  | none => simp [follows] at found
  | some other =>
      simp only [follows, Option.bind_eq_bind, Option.bind_some, Option.bind_eq_some_iff] at found
      obtain ⟨_, -, found⟩ := found
      split at found
      · rw [(Prod.mk.inj (Option.some.inj found)).1]
      · cases found

/-- The result of a call is the value of the `move-result` after it. -/
theorem result_spec {kind : Kind} {taken : Option Slot}
    (success : (result context current kind).run before = .ok (taken, after)) :
    Keeps before after ∧ ∀ dest, taken = some dest → ∃ next reg, current.next = some next ∧
      next.regs[0]? = some reg ∧ after.values.definedAt? (.at next.addr) reg = some dest.value := by
  unfold result at success
  split at success
  · obtain ⟨rfl, rfl⟩ := Prod.mk.inj (pure_eq_ok.mp success)
    exact ⟨.refl _, fun _ same => by cases same⟩
  · rename_i next opcode found
    split at success
    · rename_i reg first
      simp only [bind_eq_ok, modify_eq_ok, pure_eq_ok, Prod.mk.injEq] at success
      obtain ⟨dest, _, writes, _, last, restricts, _, _, ⟨-, rfl⟩, rfl, rfl⟩ := success
      obtain ⟨written, defined⟩ := writeAt_spec writes
      have kept : Keeps before last := written.trans (restrict_spec restricts)
      refine ⟨⟨kept.values, kept.merges⟩, ?_⟩
      rintro _ ⟨⟩
      refine ⟨next, reg, resultMove_eq_some found, List.head?_eq_getElem?.symm.trans first, ?_⟩
      exact ValueFile.definedAt?_mono (restrict_spec restricts).values defined
    · cases success

/-- A call that is a statement of its own, or that assigns its result. -/
theorem call_spec {reads : List (Reg × Width)} {values : List Nat} {kind : Kind} {call : Expression Slot}
    {type : Descriptor} {middle : LoweringState} {unused : Statement Slot}
    (performs : Performs context current.addr before reads values middle)
    (declared : current.instruction.reads context.pool = reads)
    (uses : call.uses.map Slot.value = values) (passesOn : current.opcode.hasResult = true)
    (alone : ∀ {last}, Keeps middle last → Means context current before [unused] last)
    (success : (do
      match ← result context current kind with
      | none => return [unused]
      | some dest => do
          declare dest.value type
          return assign dest call : Lower (List (Statement Slot))).run middle =
        .ok (statements, after)) :
    Means context current before statements after := by
  obtain ⟨taken, last, takes, success⟩ := bind_eq_ok.mp success
  obtain ⟨kept, defined⟩ := result_spec takes
  cases taken with
  | none =>
      obtain ⟨rfl, rfl⟩ := Prod.mk.inj (pure_eq_ok.mp success)
      exact alone kept
  | some dest =>
      simp only [bind_eq_ok, pure_eq_ok, Prod.mk.injEq] at success
      obtain ⟨_, _, declares, rfl, rfl⟩ := success
      have more := declare_spec declares
      obtain ⟨next, reg, follows, first, found⟩ := defined dest rfl
      have assigned : (call.uses ++ []).map Slot.value = values := by rw [List.append_nil, uses]
      exact .defines ((performs.keep kept).keep more) declared assigned rfl
        (.result passesOn follows first) (ValueFile.definedAt?_mono more.values found)

theorem liftCode_eq_ok {α : Type} {outcome : Except CodeError α} {value : α} :
    liftCode outcome = .ok value ↔ outcome = .ok value := by
  cases outcome <;> simp [liftCode, Except.mapError]

theorem reference_eq_ok {kind : ReferenceKind} {index : Nat}
    (success : current.reference kind = .ok index) :
    ∃ reference, current.instruction.reference = some reference ∧ reference.index = index := by
  unfold Current.reference at success
  split at success
  · rename_i reference found
    split at success
    · exact ⟨reference, found, Except.ok.inj success⟩
    · cases success
  · cases success

theorem width_ofType {type : Descriptor} {kind : Kind} (found : Kind.ofType type = some kind) :
    type.width = some kind.width := by
  cases type <;> cases found <;> rfl

theorem declaredKind_eq_ok {type : Descriptor} {kind : Kind}
    (success : current.declaredKind type = .ok kind) : type.width = some kind.width := by
  unfold Current.declaredKind at success
  split at success
  · rename_i found
    exact Except.ok.inj success ▸ width_ofType found
  · cases success

theorem declaredKinds_eq_ok {types : List Descriptor} {kinds : List Kind}
    (success : current.declaredKinds types = .ok kinds) :
    types.filterMap Descriptor.width = kinds.map Kind.width := by
  have matched := mapM_eq_ok.mp success
  clear success
  induction matched with
  | nil => rfl
  | cons first _ ih => rw [List.filterMap_cons_some (declaredKind_eq_ok first), ih, List.map_cons]

theorem flatMap_uses_var (slots : List Slot) : (slots.map Operand.var).flatMap Operand.uses = slots := by
  rw [List.flatMap_map]
  exact List.flatMap_singleton' slots

/-- The widths of what a call passes are those of the declared kinds. -/
theorem passedWidths_eq {kind : InvokeKind} {reference : PoolRef} {method : MethodRef}
    {paramKinds : List Kind} (isKind : InvokeKind.ofMnemonic? current.opcode.mnemonic = some kind)
    (given : current.instruction.reference = some reference)
    (found : context.pool.method reference.index = .ok method)
    (declares : current.declaredKinds method.prototype.params = .ok paramKinds) :
    Instruction.passedWidths context.pool current.opcode current.instruction.reference =
      (if kind.hasReceiver = true then Kind.object :: paramKinds else paramKinds).map Kind.width := by
  rw [Instruction.passedWidths, given, Option.map_some, found, isKind]
  simp only [Option.elim_some, declaredKinds_eq_ok declares]
  by_cases receiver : kind.hasReceiver = true
  · simp [receiver, Kind.width]
  · simp [receiver]

theorem invoke_spec (opcode : current.instruction.opcode = some current.opcode)
    (family : current.opcode.family = .invoke)
    (success : (invoke context current).run before = .ok (statements, after)) :
    Means context current before statements after := by
  unfold invoke at success
  split at success
  · rename_i kind isKind
    simp only [bind_eq_ok, lift_eq_ok, liftCode_eq_ok, Prod.mk.injEq] at success
    obtain ⟨_, _, ⟨index, refers, rfl, rfl⟩, _, _, ⟨method, found, rfl, rfl⟩, _, _,
      ⟨paramKinds, declares, rfl, rfl⟩, slots, middle, passes, success⟩ := success
    obtain ⟨reference, given, rfl⟩ := reference_eq_ok refers
    obtain ⟨-, performs⟩ := arguments_spec passes
    have declared : current.instruction.reads context.pool = Instruction.argumentReads
        current.instruction.regs ((if kind.hasReceiver = true then Kind.object :: paramKinds
          else paramKinds).map Kind.width) := by
      rw [Instruction.reads, opcode, ← passedWidths_eq isKind given found declares]
      simp only [family]
    generalize isCall : (if kind.hasReceiver = true then
        Expression.invoke kind reference.index (slots.map Operand.var).head? (slots.map Operand.var).tail
      else Expression.invoke kind reference.index none (slots.map Operand.var)) = call at success
    have uses : call.uses = slots := by
      subst isCall
      split
      · rw [Expression.uses]
        cases slots with
        | nil => rfl
        | cons slot rest => exact congrArg (slot :: ·) (flatMap_uses_var rest)
      · exact flatMap_uses_var slots
    have alone : ∀ {last}, Keeps middle last → Means context current before [.invoke call] last :=
      fun kept => .only (performs.keep kept) declared (congrArg (List.map Slot.value) uses) rfl
    split at success
    · obtain ⟨rfl, rfl⟩ := Prod.mk.inj (pure_eq_ok.mp success)
      exact alone (.refl _)
    · refine call_spec performs declared (congrArg (List.map Slot.value) uses) ?_ alone success
      rw [Opcode.hasResult, family, Family.hasResult]
  · cases success

/-- Registers that each pass a narrow value. -/
theorem argumentReads_narrow (regs : List Reg) :
    Instruction.argumentReads regs (regs.map fun _ => Width.narrow) = regs.map (·, .narrow) := by
  induction regs with
  | nil => rfl
  | cons reg rest ih => exact congrArg ((reg, Width.narrow) :: ·) ih

/-- As many registers as elements take are of narrow elements. -/
theorem narrow_of_arity {kind : Kind} {regs : List Reg}
    (arity : (regs.map fun _ => kind).foldr (fun kind slots => kind.width.slots + slots) 0 =
      regs.length) : (regs.map fun _ => kind).map Kind.width = regs.map fun _ => Width.narrow := by
  have total : ∀ list : List Reg,
      (list.map fun _ => kind).foldr (fun kind slots => kind.width.slots + slots) 0 =
        list.length * kind.width.slots := by
    intro list
    induction list with
    | nil => simp
    | cons _ rest ih =>
        rw [List.map_cons, List.foldr_cons, ih, List.length_cons, Nat.succ_mul, Nat.add_comm]
  rw [total] at arity
  cases regs with
  | nil => rfl
  | cons reg rest =>
      cases width : kind.width with
      | narrow => simp [width]
      | wide =>
          simp only [width, Width.slots, List.length_cons] at arity
          omega

theorem filledNewArray_spec (opcode : current.instruction.opcode = some current.opcode)
    (family : current.opcode.family = .filledNewArray)
    (success : (filledNewArray context current).run before = .ok (statements, after)) :
    Means context current before statements after := by
  simp only [filledNewArray, bind_eq_ok, lift_eq_ok, Prod.mk.injEq] at success
  obtain ⟨_, _, ⟨index, -, rfl, rfl⟩, _, _, ⟨type, -, rfl, rfl⟩, success⟩ := success
  split at success
  · simp only [bind_eq_ok, lift_eq_ok, Prod.mk.injEq] at success
    obtain ⟨_, _, ⟨kind, -, rfl, rfl⟩, slots, middle, passes, success⟩ := success
    obtain ⟨arity, performs⟩ := arguments_spec passes
    rw [narrow_of_arity arity, argumentReads_narrow] at performs
    have declared : current.instruction.reads context.pool =
        current.instruction.regs.map (·, .narrow) := by
      simp [Instruction.reads, opcode, family]
    have alone : ∀ {last}, Keeps middle last → Means context current before [.nop] last := by
      intro last kept
      refine ⟨⟨_, declared ▸ performs.keep kept, .inl ⟨family, rfl⟩⟩, ?_, Nat.le_refl 1⟩
      intro statement member slot written
      rw [List.mem_singleton.mp member] at written
      cases written
    refine call_spec performs declared ?_ ?_ alone (bind_eq_ok.mpr success)
    · exact congrArg (List.map Slot.value) (flatMap_uses_var slots)
    · rw [Opcode.hasResult, family, Family.hasResult]
  · cases success

end Lower

end Dalvik
