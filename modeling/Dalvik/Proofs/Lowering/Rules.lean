import Dalvik.Proofs.Lowering.Reads

/-!
# Lowering rules

What each rule makes of an instruction of its family.
-/

namespace Dalvik

theorem KindSet.width_ofKind (kind : Kind) : (KindSet.ofKind kind).width = kind.width := by
  cases kind <;> rfl

theorem Current.width_contract (current : Current) : current.contract.width = current.opcode.width := by
  unfold Current.contract Opcode.width
  cases current.opcode.kind with
  | none => rfl
  | some kind => cases kind <;> rfl

namespace Lower

variable {context : LoweringContext} {current : Current} {before after : LoweringState}
  {statements : List (Statement Slot)}

theorem width_moveContract : (moveContract current).width = current.opcode.width := by
  rw [← current.width_contract, moveContract]
  split
  · rename_i untyped
    rw [untyped]
    rfl
  · rfl

theorem keeps_of_family {family : Family} (isFamily : current.opcode.family = family)
    (keeps : family.hasResult = false) : current.opcode.hasResult = false := by
  rw [Opcode.hasResult, isFamily, keeps]

/-- A rule that reads, then assigns what it makes of that to the first operand and says more
about the value that is assigned. -/
theorem assign_spec {middle defined : LoweringState} {reads : List (Reg × Width)}
    {values : List Nat} {contract : KindSet} {dest bound : Slot} {value : Expression Slot}
    (performs : Performs context current.addr before reads values middle)
    (declared : current.instruction.reads context.pool = reads)
    (uses : value.uses.map Slot.value = values) (keeps : current.opcode.hasResult = false)
    (writes : (write context current 0 contract).run middle = .ok (dest, defined))
    (kept : Keeps defined after) (same : bound.value = dest.value) :
    Means context current before (assign bound value) after := by
  obtain ⟨reg, first, written, found⟩ := write_spec writes
  have assigned : (value.uses ++ []).map Slot.value = values := by rw [List.append_nil, uses]
  exact .defines ((performs.keep written).keep kept) declared assigned rfl (.own keeps first)
    (same ▸ ValueFile.definedAt?_mono kept.values found)

section

variable (opcode : current.instruction.opcode = some current.opcode)
include opcode

/-- What an instruction that is no call reads. -/
theorem reads_plain (plain : current.opcode.hasResult = false) :
    current.instruction.reads context.pool = current.opcode.readOperands.filterMap fun operand =>
      current.instruction.regs[operand.1]?.map (·, operand.2) := by
  rw [Opcode.hasResult] at plain
  rw [Instruction.reads, opcode]
  cases family : current.opcode.family <;> simp_all [Family.hasResult]

omit opcode in
/-- The kind of a declared type becomes the contract of what is read. -/
theorem readDeclared_spec {contract : KindSet} {kind : Kind} {bound : Slot}
    (success : (readDeclared context current contract kind).run before = .ok (bound, after)) :
    ∃ reg, current.instruction.regs[0]? = some reg ∧
      Performs context current.addr before [(reg, contract.width)] [bound.value] after := by
  simp only [readDeclared, bind_eq_ok] at success
  obtain ⟨value, _, reads, anchors⟩ := success
  obtain ⟨reg, given, read⟩ := read_spec reads
  obtain ⟨same, kept⟩ := anchor_spec anchors
  exact ⟨reg, given, same ▸ read.keep kept⟩

/-- A rule that assigns what it computes from the second register. -/
theorem compute_spec {source dest : KindSet} {value : Operand Slot → Expression Slot}
    (operands : current.opcode.readOperands = [(1, source.width)])
    (plain : current.opcode.hasResult = false) (uses : ∀ slot, (value (.var slot)).uses = [slot])
    (success : (compute context current source dest value).run before = .ok (statements, after)) :
    Means context current before statements after := by
  simp only [compute, bind_eq_ok, pure_eq_ok, Prod.mk.injEq] at success
  obtain ⟨slot, _, reads, bound, _, writes, rfl, rfl⟩ := success
  obtain ⟨reg, given, read⟩ := read_spec reads
  have declared : current.instruction.reads context.pool = [(reg, source.width)] := by
    rw [reads_plain opcode plain, operands]
    simp [given]
  exact assign_spec read declared (by rw [uses]; rfl) plain writes (.refl _) rfl

/-- A rule that assigns what an item of the pool stands for. -/
theorem loadItem_spec {kind : ReferenceKind} {value : Nat → Expression Slot}
    (operands : current.opcode.readOperands = []) (plain : current.opcode.hasResult = false)
    (uses : ∀ index, (value index).uses = [])
    (success : (loadItem context current kind value).run before = .ok (statements, after)) :
    Means context current before statements after := by
  simp only [loadItem, bind_eq_ok, lift_eq_ok, pure_eq_ok, Prod.mk.injEq] at success
  obtain ⟨_, _, ⟨index, -, rfl, rfl⟩, dest, _, writes, rfl, rfl⟩ := success
  have declared : current.instruction.reads context.pool = [] := by
    rw [reads_plain opcode plain, operands]
    rfl
  exact assign_spec (.nothing (.refl _)) declared (by rw [uses]; rfl) plain writes (.refl _) rfl

/-! ## Moves and constants -/

theorem move_spec (family : current.opcode.family = .move)
    (success : (move context current).run before = .ok (statements, after)) :
    Means context current before statements after := by
  simp only [move, bind_eq_ok] at success
  obtain ⟨⟨source, type⟩, _, reads, dest, middle, writes, _, last, same, success⟩ := success
  obtain ⟨reg, given, read⟩ := readArray_spec reads
  have declares : ∃ final, Keeps last final ∧
      (statements, after) = (assign dest (.use (.var source)), final) := by
    cases type with
    | none => exact ⟨last, .refl last, (pure_eq_ok.mp success).symm⟩
    | some type =>
        obtain ⟨_, final, declares, rest⟩ := bind_eq_ok.mp success
        exact ⟨final, declare_spec declares, (pure_eq_ok.mp rest).symm⟩
  obtain ⟨final, declares, result⟩ := declares
  obtain ⟨rfl, rfl⟩ := Prod.mk.inj result
  refine assign_spec read ?_ rfl (keeps_of_family family rfl) writes
    ((sameKind_spec same).trans declares) rfl
  simp [Instruction.reads, opcode, family, Opcode.readOperands, given, width_moveContract]

theorem moveResult_spec (family : current.opcode.family = .moveResult)
    (success : (moveResult context current).run before = .ok (statements, after)) :
    Means context current before statements after := by
  have declared : current.instruction.reads context.pool = [] := by
    simp [Instruction.reads, opcode, family, Opcode.readOperands]
  simp only [moveResult, bind_eq_ok, get_eq_ok, Prod.mk.injEq] at success
  obtain ⟨_, _, ⟨rfl, rfl⟩, success⟩ := success
  split at success
  · obtain ⟨rfl, rfl⟩ := Prod.mk.inj (pure_eq_ok.mp success)
    exact .nothing (.refl _) declared
  · simp only [bind_eq_ok, pure_eq_ok, Prod.mk.injEq] at success
    obtain ⟨_, _, writes, rfl, rfl⟩ := success
    obtain ⟨_, _, written, _⟩ := write_spec writes
    exact .only (.nothing written) declared rfl rfl

theorem moveException_spec (family : current.opcode.family = .moveException)
    (success : (moveException context current).run before = .ok (statements, after)) :
    Means context current before statements after := by
  simp only [moveException, bind_eq_ok, lift_eq_ok, reg_eq_ok, pure_eq_ok, Prod.mk.injEq] at success
  obtain ⟨_, _, ⟨reg, first, rfl, rfl⟩, dest, _, writes, rfl, rfl⟩ := success
  obtain ⟨written, found⟩ := writeAt_spec writes
  refine .defines (.nothing written) ?_ rfl rfl (.own (keeps_of_family family rfl) first) found
  simp [Instruction.reads, opcode, family, Opcode.readOperands]

theorem returnValue_spec (family : current.opcode.family = .returnValue)
    (success : (returnValue context current).run before = .ok (statements, after)) :
    Means context current before statements after := by
  simp only [returnValue, bind_eq_ok, lift_eq_ok, pure_eq_ok, Prod.mk.injEq] at success
  obtain ⟨_, _, ⟨method, -, -, rfl⟩, _, _, ⟨kind, -, rfl, rfl⟩, value, _, reads, rfl, rfl⟩ := success
  obtain ⟨reg, given, read⟩ := readDeclared_spec reads
  have width : (if current.contract = .narrowNumber ∧ kind = .object then KindSet.narrow
      else current.contract).width = current.opcode.width := by
    rw [← current.width_contract]
    split
    · rename_i untyped
      rw [untyped.1]
      rfl
    · rfl
  refine .only read ?_ rfl rfl
  simp [Instruction.reads, opcode, family, Opcode.readOperands, given, width]

theorem const_spec (family : current.opcode.family = .const)
    (success : (const context current).run before = .ok (statements, after)) :
    Means context current before statements after := by
  simp only [const, bind_eq_ok, lift_eq_ok, pure_eq_ok, Prod.mk.injEq] at success
  obtain ⟨_, _, ⟨literal, -, rfl, rfl⟩, dest, _, writes, rfl, rfl⟩ := success
  refine assign_spec (.nothing (.refl _)) ?_ rfl (keeps_of_family family rfl) writes (.refl _) rfl
  simp [Instruction.reads, opcode, family, Opcode.readOperands]

/-! ## Arithmetic -/

theorem not_spec (family : current.opcode.family = .not)
    (success : (Lower.not context current).run before = .ok (statements, after)) :
    Means context current before statements after := by
  simp only [Lower.not, bind_eq_ok, pure_eq_ok, Prod.mk.injEq] at success
  obtain ⟨source, _, reads, dest, _, writes, _, _, same, rfl, rfl⟩ := success
  obtain ⟨reg, given, read⟩ := read_spec reads
  refine assign_spec read ?_ rfl (keeps_of_family family rfl) writes (sameKind_spec same) rfl
  simp [Instruction.reads, opcode, family, Opcode.readOperands, given, current.width_contract]

theorem convert_spec (family : current.opcode.family = .convert)
    (success : (convert context current).run before = .ok (statements, after)) :
    Means context current before statements after := by
  have operands : current.opcode.readOperands = [(1, current.contract.width)] := by
    simp [Opcode.readOperands, family, current.width_contract]
  unfold convert at success
  split at success
  · split at success
    · exact compute_spec opcode operands (keeps_of_family family rfl) (fun _ => rfl) success
    · cases success
  · cases success

omit opcode in
theorem width_rightContract (op : BinaryOp) :
    (if op.isShift then KindSet.ofKind .int else current.contract).width =
      if op.isShift then .narrow else current.opcode.width := by
  split
  · rfl
  · exact current.width_contract

omit opcode in
theorem readBoth_spec {first second : Nat} {leftContract rightContract : KindSet}
    {left right : Operand Slot}
    (success : (readBoth context current first second leftContract rightContract).run before =
      .ok ((left, right), after)) :
    ∃ reg other, current.instruction.regs[first]? = some reg ∧
      current.instruction.regs[second]? = some other ∧
      Performs context current.addr before
        [(reg, leftContract.width), (other, rightContract.width)]
        ((left.uses ++ right.uses).map Slot.value) after := by
  simp only [readBoth, bind_eq_ok, pure_eq_ok, Prod.mk.injEq] at success
  obtain ⟨leftSlot, _, reads, rightSlot, _, others, ⟨rfl, rfl⟩, rfl⟩ := success
  obtain ⟨reg, given, read⟩ := read_spec reads
  obtain ⟨other, givenOther, readOther⟩ := read_spec others
  exact ⟨reg, other, given, givenOther, read.append readOther⟩

/-- The operands are the two that are read, or the one and a literal. -/
theorem binaryOperands_spec {op : BinaryOp} {left right : Operand Slot}
    (isOp : BinaryOp.ofMnemonic? current.opcode.mnemonic = some op)
    (family : current.opcode.family = .binop ∨ current.opcode.family = .binop2addr ∨
      current.opcode.family = .binopLit)
    (success : (binaryOperands context current op).run before = .ok ((left, right), after)) :
    Performs context current.addr before (current.instruction.reads context.pool)
      ((left.uses ++ right.uses).map Slot.value) after := by
  unfold binaryOperands at success
  rcases family with family | family | family
  · simp only [family] at success
    obtain ⟨reg, other, given, givenOther, read⟩ := readBoth_spec success
    apply Performs.declared read
    simp [Instruction.reads, opcode, family, Opcode.readOperands, given, givenOther, isOp,
      current.width_contract, width_rightContract]
  · simp only [family] at success
    obtain ⟨reg, other, given, givenOther, read⟩ := readBoth_spec success
    apply Performs.declared read
    simp [Instruction.reads, opcode, family, Opcode.readOperands, given, givenOther, isOp,
      current.width_contract, width_rightContract]
  · simp only [family, bind_eq_ok, lift_eq_ok] at success
    obtain ⟨source, _, reads, _, _, ⟨literal, -, same⟩, success⟩ := success
    obtain ⟨rfl, rfl⟩ := Prod.mk.inj same
    obtain ⟨reg, given, read⟩ := read_spec reads
    have declared : current.instruction.reads context.pool = [(reg, current.contract.width)] := by
      simp [Instruction.reads, opcode, family, Opcode.readOperands, given, current.width_contract]
    rw [declared]
    split at success
    · obtain ⟨operands, rfl⟩ := Prod.mk.inj (pure_eq_ok.mp success)
      obtain ⟨rfl, rfl⟩ := Prod.mk.inj operands
      exact read
    · obtain ⟨operands, rfl⟩ := Prod.mk.inj (pure_eq_ok.mp success)
      obtain ⟨rfl, rfl⟩ := Prod.mk.inj operands
      exact read

theorem binary_spec (family : current.opcode.family = .binop ∨ current.opcode.family = .binop2addr ∨
      current.opcode.family = .binopLit)
    (success : (binary context current).run before = .ok (statements, after)) :
    Means context current before statements after := by
  have keeps : current.opcode.hasResult = false := by
    rcases family with family | family | family <;> exact keeps_of_family family rfl
  unfold binary at success
  split at success
  · rename_i op isOp
    simp only [bind_eq_ok, pure_eq_ok, Prod.mk.injEq] at success
    obtain ⟨⟨left, right⟩, _, operands, dest, _, writes, rfl, rfl⟩ := success
    exact assign_spec (binaryOperands_spec opcode isOp family operands) rfl rfl keeps writes (.refl _) rfl
  · cases success

theorem cmp_spec (family : current.opcode.family = .cmp)
    (success : (cmp context current).run before = .ok (statements, after)) :
    Means context current before statements after := by
  unfold cmp at success
  split at success
  · simp only [bind_eq_ok, pure_eq_ok, Prod.mk.injEq] at success
    obtain ⟨⟨left, right⟩, _, reads, dest, _, writes, rfl, rfl⟩ := success
    obtain ⟨reg, other, given, givenOther, read⟩ := readBoth_spec reads
    refine assign_spec read ?_ rfl (keeps_of_family family rfl) writes (.refl _) rfl
    simp [Instruction.reads, opcode, family, Opcode.readOperands, given, givenOther,
      current.width_contract]
  · cases success

/-! ## Branches -/

omit opcode in
theorem width_comparable (op : Comparison) : (comparable op).width = .narrow := by
  unfold comparable
  split <;> rfl

theorem branch_spec (family : current.opcode.family = .branch)
    (success : (branch context current).run before = .ok (statements, after)) :
    Means context current before statements after := by
  simp only [branch, bind_eq_ok, lift_eq_ok, pure_eq_ok, Prod.mk.injEq] at success
  obtain ⟨_, _, ⟨op, -, rfl, rfl⟩, _, _, ⟨target, -, rfl, rfl⟩, left, _, reads, right, _, others, _, _,
    same, rfl, rfl⟩ := success
  obtain ⟨reg, given, read⟩ := read_spec reads
  obtain ⟨other, givenOther, readOther⟩ := read_spec others
  refine .only ((read.append readOther).keep (sameKind_spec same)) ?_ rfl rfl
  simp [Instruction.reads, opcode, family, Opcode.readOperands, given, givenOther, width_comparable]

theorem branchZero_spec (family : current.opcode.family = .branchZero)
    (success : (branchZero context current).run before = .ok (statements, after)) :
    Means context current before statements after := by
  simp only [branchZero, bind_eq_ok, lift_eq_ok, pure_eq_ok, Prod.mk.injEq] at success
  obtain ⟨_, _, ⟨op, -, rfl, rfl⟩, _, _, ⟨target, -, rfl, rfl⟩, left, _, reads, rfl, rfl⟩ := success
  obtain ⟨reg, given, read⟩ := read_spec reads
  refine .only read ?_ rfl rfl
  simp [Instruction.reads, opcode, family, Opcode.readOperands, given, width_comparable]

theorem goto_spec (family : current.opcode.family = .goto)
    (success : (goto current).run before = .ok (statements, after)) :
    Means context current before statements after := by
  simp only [goto, bind_eq_ok, lift_eq_ok, pure_eq_ok, Prod.mk.injEq] at success
  obtain ⟨_, _, ⟨target, -, rfl, rfl⟩, rfl, rfl⟩ := success
  refine .only (.nothing (.refl _)) ?_ rfl rfl
  simp [Instruction.reads, opcode, family, Opcode.readOperands]

theorem switch_spec (family : current.opcode.family = .switch)
    (success : (switch context current).run before = .ok (statements, after)) :
    Means context current before statements after := by
  unfold switch at success
  split at success
  · simp only [bind_eq_ok, pure_eq_ok, Prod.mk.injEq] at success
    obtain ⟨cases, middle, leads, key, _, reads, rfl, rfl⟩ := success
    have kept : Keeps before middle := by
      refine mapM_keeps (fun item before after result success => ?_) leads
      simp only [bind_eq_ok, lift_eq_ok, pure_eq_ok, Prod.mk.injEq] at success
      obtain ⟨_, _, ⟨target, -, rfl, rfl⟩, -, rfl⟩ := success
      exact .refl _
    obtain ⟨reg, given, read⟩ := read_spec reads
    refine .only (kept.performs read) ?_ rfl rfl
    simp [Instruction.reads, opcode, family, Opcode.readOperands, given, KindSet.width_ofKind,
      Kind.width]
  · cases success

/-! ## Objects and arrays -/

omit opcode in
theorem width_object : object.width = .narrow :=
  rfl

omit opcode in
theorem width_int : (KindSet.ofKind .int).width = .narrow :=
  rfl

/-- A rule that uses an object. -/
theorem useObject_spec {use : Operand Slot → Statement Slot}
    (operands : current.opcode.readOperands = [(0, .narrow)])
    (plain : current.opcode.hasResult = false) (uses : ∀ slot, (use (.var slot)).uses = [slot])
    (nothing : ∀ slot, (use (.var slot)).written = none)
    (success : (useObject context current use).run before = .ok (statements, after)) :
    Means context current before statements after := by
  simp only [useObject, bind_eq_ok, pure_eq_ok, Prod.mk.injEq] at success
  obtain ⟨value, _, reads, rfl, rfl⟩ := success
  obtain ⟨reg, given, read⟩ := read_spec reads
  have declared : current.instruction.reads context.pool = [(reg, .narrow)] := by
    rw [reads_plain opcode plain, operands]
    simp [given]
  exact .only read declared (by rw [uses]; rfl) (nothing value)

/-- A rule that assigns an object of a type of the pool. -/
theorem makeTyped_spec {position : Nat} {contract : KindSet}
    {value : Nat → Operand Slot → Expression Slot}
    (operands : current.opcode.readOperands = [(position, contract.width)])
    (plain : current.opcode.hasResult = false)
    (uses : ∀ index slot, (value index (.var slot)).uses = [slot])
    (success : (makeTyped context current position contract value).run before =
      .ok (statements, after)) :
    Means context current before statements after := by
  simp only [makeTyped, bind_eq_ok, lift_eq_ok, pure_eq_ok, Prod.mk.injEq] at success
  obtain ⟨_, _, ⟨index, -, rfl, rfl⟩, source, _, reads, dest, _, writes, _, _, ⟨type, -, rfl, rfl⟩, _, _,
    declares, rfl, rfl⟩ := success
  obtain ⟨reg, given, read⟩ := read_spec reads
  have declared : current.instruction.reads context.pool = [(reg, contract.width)] := by
    rw [reads_plain opcode plain, operands]
    simp [given]
  exact assign_spec read declared (by rw [uses]; rfl) plain writes (declare_spec declares) rfl

theorem instanceOf_spec (family : current.opcode.family = .instanceOf)
    (success : (instanceOf context current).run before = .ok (statements, after)) :
    Means context current before statements after := by
  simp only [instanceOf, bind_eq_ok, lift_eq_ok] at success
  obtain ⟨_, _, ⟨index, -, same⟩, success⟩ := success
  obtain ⟨rfl, rfl⟩ := Prod.mk.inj same
  refine compute_spec opcode ?_ (keeps_of_family family rfl) (fun _ => rfl) success
  simp [Opcode.readOperands, family, width_object]

theorem fillArrayData_spec (family : current.opcode.family = .fillArrayData)
    (success : (fillArrayData context current).run before = .ok (statements, after)) :
    Means context current before statements after := by
  unfold fillArrayData at success
  split at success
  · simp only [bind_eq_ok, pure_eq_ok, Prod.mk.injEq] at success
    obtain ⟨⟨array, type⟩, _, reads, rfl, rfl⟩ := success
    obtain ⟨reg, given, read⟩ := readArray_spec reads
    refine .only read ?_ rfl rfl
    simp [Instruction.reads, opcode, family, Opcode.readOperands, given, width_object]
  · cases success

omit opcode in
theorem elementAccess_spec {array index : Slot} {element : Option Descriptor}
    (success : (elementAccess context current).run before = .ok ((array, index, element), after)) :
    ∃ reg other, current.instruction.regs[1]? = some reg ∧
      current.instruction.regs[2]? = some other ∧
      Performs context current.addr before [(reg, .narrow), (other, .narrow)]
        [array.value, index.value] after := by
  simp only [elementAccess, bind_eq_ok, pure_eq_ok, Prod.mk.injEq] at success
  obtain ⟨⟨array, type⟩, _, reads, index, _, others, ⟨rfl, rfl, rfl⟩, rfl⟩ := success
  obtain ⟨reg, given, read⟩ := readArray_spec reads
  obtain ⟨other, givenOther, readOther⟩ := read_spec others
  exact ⟨reg, other, given, givenOther, read.append readOther⟩

theorem aget_spec (family : current.opcode.family = .aget)
    (success : (aget context current).run before = .ok (statements, after)) :
    Means context current before statements after := by
  simp only [aget, bind_eq_ok] at success
  obtain ⟨⟨array, index, element⟩, _, reads, dest, middle, writes, success⟩ := success
  obtain ⟨reg, other, given, givenOther, read⟩ := elementAccess_spec reads
  obtain ⟨bound, same, kept, rfl⟩ : ∃ bound : Slot, bound.value = dest.value ∧ Keeps middle after ∧
      statements = assign bound (.element (.var array) (.var index)) := by
    cases element with
    | none =>
        obtain ⟨rfl, rfl⟩ := Prod.mk.inj (pure_eq_ok.mp success)
        exact ⟨dest, rfl, .refl _, rfl⟩
    | some element =>
        simp only [bind_eq_ok, lift_eq_ok, pure_eq_ok, Prod.mk.injEq] at success
        obtain ⟨_, _, ⟨kind, -, rfl, rfl⟩, bound, _, anchors, _, _, declares, rfl, rfl⟩ := success
        obtain ⟨same, kept⟩ := anchorElement_spec anchors
        exact ⟨bound, same, kept.trans (declare_spec declares), rfl⟩
  refine assign_spec read ?_ rfl (keeps_of_family family rfl) writes kept same
  simp [Instruction.reads, opcode, family, Opcode.readOperands, given, givenOther]

theorem aput_spec (family : current.opcode.family = .aput)
    (success : (aput context current).run before = .ok (statements, after)) :
    Means context current before statements after := by
  simp only [aput, bind_eq_ok] at success
  obtain ⟨value, _, stores, ⟨array, index, element⟩, middle, reads, success⟩ := success
  obtain ⟨stored, givenStored, store⟩ := read_spec stores
  obtain ⟨reg, other, given, givenOther, read⟩ := elementAccess_spec reads
  obtain ⟨bound, same, kept, rfl⟩ : ∃ bound : Slot, bound.value = value.value ∧ Keeps middle after ∧
      statements = [.assign (.element (.var array) (.var index)) (.use (.var bound))] := by
    cases element with
    | none =>
        obtain ⟨rfl, rfl⟩ := Prod.mk.inj (pure_eq_ok.mp success)
        exact ⟨value, rfl, .refl _, rfl⟩
    | some element =>
        simp only [bind_eq_ok, lift_eq_ok, pure_eq_ok, Prod.mk.injEq] at success
        obtain ⟨_, _, ⟨kind, -, rfl, rfl⟩, bound, _, anchors, rfl, rfl⟩ := success
        obtain ⟨same, kept⟩ := anchorElement_spec anchors
        exact ⟨bound, same, kept, rfl⟩
  refine .only ((store.append read).keep kept) ?_ ?_ rfl
  · simp [Instruction.reads, opcode, family, Opcode.readOperands, given, givenOther, givenStored,
      current.width_contract]
  · simp [Statement.uses, Expression.uses, Destination.uses, Operand.uses, same]

omit opcode in
/-- What is put into the first register has the declared type. -/
theorem writeDeclared_spec {type : Descriptor} {kind : Kind} {bound : Slot}
    (success : (writeDeclared context current type kind).run before = .ok (bound, after)) :
    ∃ dest middle, (write context current 0 current.contract).run before = .ok (dest, middle) ∧
      Keeps middle after ∧ bound.value = dest.value := by
  simp only [writeDeclared, bind_eq_ok, pure_eq_ok, Prod.mk.injEq] at success
  obtain ⟨dest, middle, writes, bound, _, anchors, _, _, declares, rfl, rfl⟩ := success
  obtain ⟨same, kept⟩ := anchor_spec anchors
  exact ⟨dest, middle, writes, kept.trans (declare_spec declares), same⟩

theorem iget_spec (family : current.opcode.family = .iget)
    (success : (iget context current).run before = .ok (statements, after)) :
    Means context current before statements after := by
  simp only [iget, bind_eq_ok, lift_eq_ok, pure_eq_ok, Prod.mk.injEq] at success
  obtain ⟨_, _, ⟨⟨field, type, kind⟩, -, rfl, rfl⟩, source, _, reads, bound, _, writes, rfl, rfl⟩ :=
    success
  obtain ⟨reg, given, read⟩ := read_spec reads
  obtain ⟨dest, _, writes, kept, same⟩ := writeDeclared_spec writes
  refine assign_spec read ?_ rfl (keeps_of_family family rfl) writes kept same
  simp [Instruction.reads, opcode, family, Opcode.readOperands, given, width_object]

theorem iput_spec (family : current.opcode.family = .iput)
    (success : (iput context current).run before = .ok (statements, after)) :
    Means context current before statements after := by
  simp only [iput, bind_eq_ok, lift_eq_ok, pure_eq_ok, Prod.mk.injEq] at success
  obtain ⟨_, _, ⟨⟨field, type, kind⟩, -, rfl, rfl⟩, value, _, stores, target, _, reads, rfl, rfl⟩ :=
    success
  obtain ⟨stored, givenStored, store⟩ := readDeclared_spec stores
  obtain ⟨reg, given, read⟩ := read_spec reads
  refine .only (store.append read) ?_ rfl rfl
  simp [Instruction.reads, opcode, family, Opcode.readOperands, given, givenStored,
    current.width_contract, width_object]

theorem sget_spec (family : current.opcode.family = .sget)
    (success : (sget context current).run before = .ok (statements, after)) :
    Means context current before statements after := by
  simp only [sget, bind_eq_ok, lift_eq_ok, pure_eq_ok, Prod.mk.injEq] at success
  obtain ⟨_, _, ⟨⟨field, type, kind⟩, -, rfl, rfl⟩, bound, _, writes, rfl, rfl⟩ := success
  obtain ⟨dest, _, writes, kept, same⟩ := writeDeclared_spec writes
  refine assign_spec (.nothing (.refl _)) ?_ rfl (keeps_of_family family rfl) writes kept same
  simp [Instruction.reads, opcode, family, Opcode.readOperands]

theorem sput_spec (family : current.opcode.family = .sput)
    (success : (sput context current).run before = .ok (statements, after)) :
    Means context current before statements after := by
  simp only [sput, bind_eq_ok, lift_eq_ok, pure_eq_ok, Prod.mk.injEq] at success
  obtain ⟨_, _, ⟨⟨field, type, kind⟩, -, rfl, rfl⟩, value, _, stores, rfl, rfl⟩ := success
  obtain ⟨stored, givenStored, store⟩ := readDeclared_spec stores
  refine .only store ?_ rfl rfl
  simp [Instruction.reads, opcode, family, Opcode.readOperands, givenStored, current.width_contract]

end

end Lower

end Dalvik
