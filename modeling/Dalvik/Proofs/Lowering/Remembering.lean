import Dalvik.Proofs.Lowering.Method
import Dalvik.Proofs.Lowering.Outcome

/-!
# Declared types of a method

Each instruction leaves lowering with the array types that are known after it, so a method
leaves it with those that its arguments and its live instructions declare.
-/

namespace Dalvik

namespace Lower

variable {context : LoweringContext} {current : Current} {known : ArrayTypes}
  {before middle after : LoweringState} {statements : List (Statement Slot)}

/-! ## What is known after an instruction -/

theorem after_of_place_none (nothing : current.place? context = none) :
    known.after context current = known := by
  rw [ArrayTypes.after, nothing]

theorem after_of_type_none (nothing : current.declaredType context known = none) :
    known.after context current = known := by
  rw [ArrayTypes.after, nothing]
  cases current.place? context <;> rfl

/-- What is declared of a value is known of the definition of the instruction. -/
theorem Remembers.after_declare {site : Site} {reg : Reg} {value : Nat} {type : Descriptor} {result : Unit}
    (remembers : Remembers known before) (isPlace : current.place? context = some (site, reg))
    (isType : current.declaredType context known = some type)
    (defined : before.values.definedAt? site reg = some value)
    (success : (Lower.declare value type).run before = .ok (result, after)) :
    Remembers (known.after context current) after := by
  rw [ArrayTypes.after, isPlace, isType]
  exact remembers.declare defined success

/-- What an instruction that is no call writes is its definition. -/
theorem Remembers.write (remembers : Remembers known before)
    (plain : current.opcode.hasResult = false) {contract : KindSet} {dest : Slot}
    (success : (Lower.write context current 0 contract).run before = .ok (dest, after)) :
    Remembers known after ∧ ∃ site reg, current.place? context = some (site, reg) ∧
      after.values.definedAt? site reg = some dest.value := by
  obtain ⟨reg, first, -, defined⟩ := write_spec success
  refine ⟨remembers.asks asks_write success, .at current.addr, reg, ?_, defined⟩
  rw [Current.place?, plain, if_neg Bool.false_ne_true, first]
  rfl

/-! ## Rules that declare types -/

/-- A moved array keeps its type. -/
theorem remembers_move (family : current.opcode.family = .move) (remembers : Remembers known before)
    (success : (move context current).run before = .ok (statements, after)) :
    Remembers (known.after context current) after := by
  simp only [move, bind_eq_ok] at success
  obtain ⟨⟨source, type⟩, _, reads, dest, _, writes, _, last, same, success⟩ := success
  obtain ⟨remembersRead, isType⟩ := readArray_types remembers reads
  obtain ⟨remembersWrite, site, reg, isPlace, defined⟩ :=
    remembersRead.write (keeps_of_family family rfl) writes
  have remembersLast : Remembers known last := remembersWrite.asks asks_sameKind same
  have stays : last.values.definedAt? site reg = some dest.value :=
    ValueFile.definedAt?_mono (asks_sameKind.grows same).1 defined
  have declared : current.declaredType context known = type := by
    rw [isType, width_moveContract, Current.declaredType, family]
  cases type with
  | none =>
      obtain ⟨-, rfl⟩ := Prod.mk.inj (pure_eq_ok.mp success)
      rwa [after_of_type_none declared]
  | some type =>
      simp only [bind_eq_ok, pure_eq_ok, Prod.mk.injEq] at success
      obtain ⟨_, _, declares, -, rfl⟩ := success
      exact remembersLast.after_declare isPlace declared stays declares

/-- New arrays and casts have the type that they name. -/
theorem remembers_makeTyped {position : Nat} {contract : KindSet}
    {value : Nat → Operand Slot → Expression Slot} (plain : current.opcode.hasResult = false)
    (isType : current.declaredType context known = current.item? context.pool.type)
    (remembers : Remembers known before)
    (success : (makeTyped context current position contract value).run before =
      .ok (statements, after)) :
    Remembers (known.after context current) after := by
  simp only [makeTyped, bind_eq_ok, lift_eq_ok, pure_eq_ok, Prod.mk.injEq] at success
  obtain ⟨_, _, ⟨index, refers, rfl, rfl⟩, source, _, reads, dest, _, writes, _, _,
    ⟨type, names, rfl, rfl⟩, _, _, declares, -, rfl⟩ := success
  obtain ⟨remembersWrite, site, reg, isPlace, defined⟩ :=
    (remembers.asks asks_read reads).write plain writes
  have declared : current.declaredType context known = some type :=
    isType.trans (item?_eq_some refers names)
  exact remembersWrite.after_declare isPlace declared defined declares

theorem remembers_writeDeclared {type : Descriptor} {kind : Kind} {bound : Slot}
    (plain : current.opcode.hasResult = false)
    (isType : current.declaredType context known = some type) (remembers : Remembers known before)
    (success : (writeDeclared context current type kind).run before = .ok (bound, after)) :
    Remembers (known.after context current) after := by
  simp only [writeDeclared, bind_eq_ok, pure_eq_ok, Prod.mk.injEq] at success
  obtain ⟨dest, _, writes, own, _, anchors, _, _, declares, -, rfl⟩ := success
  obtain ⟨remembersWrite, site, reg, isPlace, defined⟩ := remembers.write plain writes
  obtain ⟨-, -, -, same⟩ := @asks_anchor current True _ _ _ _ _ anchors
  have stays := ValueFile.definedAt?_mono (asks_anchor.grows anchors).1 defined
  exact (remembersWrite.asks asks_anchor anchors).after_declare isPlace isType (same ▸ stays) declares

/-- A field that is loaded has its declared type. -/
theorem remembers_loaded (loads : current.opcode.family = .iget ∨ current.opcode.family = .sget)
    {field : Nat} {type : Descriptor} {kind : Kind} {bound : Slot}
    (found : fieldAccess context current = .ok (field, type, kind)) (remembers : Remembers known before)
    (writes : (writeDeclared context current type kind).run before = .ok (bound, after)) :
    Remembers (known.after context current) after := by
  have isType : current.declaredType context known = some type := by
    obtain ⟨isType, -⟩ := field_of_fieldAccess found
    rcases loads with family | family <;> rw [Current.declaredType, family] <;> exact isType
  have plain : current.opcode.hasResult = false := by
    rcases loads with family | family
    · exact keeps_of_family family rfl
    · exact keeps_of_family family rfl
  exact remembers_writeDeclared plain isType remembers writes

theorem remembers_iget (family : current.opcode.family = .iget) (remembers : Remembers known before)
    (success : (iget context current).run before = .ok (statements, after)) :
    Remembers (known.after context current) after := by
  simp only [iget, bind_eq_ok, lift_eq_ok, pure_eq_ok, Prod.mk.injEq] at success
  obtain ⟨_, _, ⟨_, found, rfl, rfl⟩, source, _, reads, dest, _, writes, -, rfl⟩ := success
  exact remembers_loaded (.inl family) found (remembers.asks asks_read reads) writes

theorem remembers_sget (family : current.opcode.family = .sget) (remembers : Remembers known before)
    (success : (sget context current).run before = .ok (statements, after)) :
    Remembers (known.after context current) after := by
  simp only [sget, bind_eq_ok, lift_eq_ok, pure_eq_ok, Prod.mk.injEq] at success
  obtain ⟨_, _, ⟨_, found, rfl, rfl⟩, dest, _, writes, -, rfl⟩ := success
  exact remembers_loaded (.inr family) found remembers writes

/-- An array that is an element of a nested array has the type of the elements. -/
theorem remembers_aget (family : current.opcode.family = .aget) (remembers : Remembers known before)
    (success : (aget context current).run before = .ok (statements, after)) :
    Remembers (known.after context current) after := by
  simp only [aget, bind_eq_ok] at success
  obtain ⟨⟨array, index, element⟩, _, reads, dest, _, writes, success⟩ := success
  obtain ⟨remembersRead, isElement⟩ := elementAccess_types remembers reads
  obtain ⟨remembersWrite, site, reg, isPlace, defined⟩ :=
    remembersRead.write (keeps_of_family family rfl) writes
  have isType : current.declaredType context known = element := by
    rw [isElement, Current.declaredType, family]
  cases element with
  | none =>
      obtain ⟨-, rfl⟩ := Prod.mk.inj (pure_eq_ok.mp success)
      rwa [after_of_type_none isType]
  | some element =>
      simp only [bind_eq_ok, lift_eq_ok, pure_eq_ok, Prod.mk.injEq] at success
      obtain ⟨_, _, ⟨kind, -, rfl, rfl⟩, bound, _, anchors, _, _, declares, -, rfl⟩ := success
      obtain ⟨-, -, -, same⟩ := @asks_anchorElement current True _ _ _ _ _ anchors
      have stays := ValueFile.definedAt?_mono (asks_anchorElement.grows anchors).1 defined
      exact (remembersWrite.asks asks_anchorElement anchors).after_declare isPlace isType (same ▸ stays)
        declares

/-! ### Calls -/

/-- The result of a call is the definition of the `move-result` that it takes over. -/
theorem place_of_result {kind : Kind} (calls : current.opcode.hasResult = true)
    (passes : current.instruction.resultKind context.pool = some kind) {taken : Option Slot}
    (success : (result context current kind).run before = .ok (taken, after)) :
    match taken with
    | none => current.place? context = none
    | some dest => ∃ site reg, current.place? context = some (site, reg) ∧
        after.values.definedAt? site reg = some dest.value := by
  unfold Current.place?
  rw [if_pos calls, takesOver_eq passes]
  unfold result at success
  split at success
  · rename_i nothing
    obtain ⟨rfl, -⟩ := Prod.mk.inj (pure_eq_ok.mp success)
    rw [nothing]
    rfl
  · rename_i next opcode found
    rw [found]
    split at success
    · rename_i reg first
      simp only [bind_eq_ok, modify_eq_ok, pure_eq_ok, Prod.mk.injEq] at success
      obtain ⟨dest, _, writes, _, _, restricts, _, _, ⟨-, rfl⟩, rfl, rfl⟩ := success
      refine ⟨.at next.addr, reg, ?_, ?_⟩
      · rw [List.head?_eq_getElem?] at first
        simp [first]
      · exact ValueFile.definedAt?_mono (asks_restrict.grows restricts).1 (writeAt_spec writes).2
    · cases success

/-- The result of a call has the type that the call declares. -/
theorem remembers_call {kind : Kind} {call : Expression Slot} {type : Descriptor}
    {unused : Statement Slot} (calls : current.opcode.hasResult = true)
    (passes : current.instruction.resultKind context.pool = some kind)
    (isType : current.declaredType context known = some type) (remembers : Remembers known before)
    (success : (do
      match ← result context current kind with
      | none => return [unused]
      | some dest => do
          declare dest.value type
          return assign dest call : Lower (List (Statement Slot))).run before =
        .ok (statements, after)) :
    Remembers (known.after context current) after := by
  obtain ⟨taken, last, takes, success⟩ := bind_eq_ok.mp success
  have isPlace := place_of_result calls passes takes
  have remembersLast : Remembers known last := remembers.asks (asks_result passes) takes
  cases taken with
  | none =>
      obtain ⟨-, rfl⟩ := Prod.mk.inj (pure_eq_ok.mp success)
      rwa [after_of_place_none isPlace]
  | some dest =>
      simp only [bind_eq_ok, pure_eq_ok, Prod.mk.injEq] at success
      obtain ⟨_, _, declares, -, rfl⟩ := success
      obtain ⟨site, reg, isPlace, defined⟩ := isPlace
      exact remembersLast.after_declare isPlace isType defined declares

theorem remembers_invoke (opcode : current.instruction.opcode = some current.opcode)
    (family : current.opcode.family = .invoke) (remembers : Remembers known before)
    (success : (invoke context current).run before = .ok (statements, after)) :
    Remembers (known.after context current) after := by
  have calls : current.opcode.hasResult = true := by
    rw [Opcode.hasResult, family, Family.hasResult]
  unfold invoke at success
  split at success
  · simp only [bind_eq_ok, lift_eq_ok, Prod.mk.injEq] at success
    obtain ⟨_, _, ⟨index, refers, rfl, rfl⟩, _, _, ⟨method, found, rfl, rfl⟩, _, _,
      ⟨paramKinds, -, rfl, rfl⟩, slots, _, passed, success⟩ := success
    have isType : current.declaredType context known = some method.prototype.ret := by
      rw [Current.declaredType, family]
      exact congrArg (Option.map fun method => method.prototype.ret) (item?_eq_some refers found)
    obtain ⟨reference, given, rfl⟩ := reference_eq_ok refers
    have returns := resultKind_invoke opcode family given (liftCode_eq_ok.mp found)
    have remembersPassed := remembers.asks asks_arguments passed
    split at success
    · rename_i ret
      obtain ⟨-, rfl⟩ := Prod.mk.inj (pure_eq_ok.mp success)
      have nothing : current.place? context = none := by
        rw [Current.place?, if_pos calls, takesOver_eq_none (returns.trans ret)]
        rfl
      rwa [after_of_place_none nothing]
    · rename_i own ret
      exact remembers_call calls (returns.trans ret) isType remembersPassed success
  · cases success

theorem remembers_filledNewArray (opcode : current.instruction.opcode = some current.opcode)
    (family : current.opcode.family = .filledNewArray) (remembers : Remembers known before)
    (success : (filledNewArray context current).run before = .ok (statements, after)) :
    Remembers (known.after context current) after := by
  have calls : current.opcode.hasResult = true := by
    rw [Opcode.hasResult, family, Family.hasResult]
  have returns : current.instruction.resultKind context.pool = some .object := by
    rw [Instruction.resultKind, opcode, Option.map_some, family]
  simp only [filledNewArray, bind_eq_ok, lift_eq_ok, Prod.mk.injEq] at success
  obtain ⟨_, _, ⟨index, refers, rfl, rfl⟩, _, _, ⟨type, names, rfl, rfl⟩, success⟩ := success
  have isType : current.declaredType context known = some type := by
    rw [Current.declaredType, family]
    exact item?_eq_some refers names
  split at success
  · simp only [bind_eq_ok, lift_eq_ok, Prod.mk.injEq] at success
    obtain ⟨_, _, ⟨kind, -, rfl, rfl⟩, slots, _, passed, success⟩ := success
    have remembersPassed := remembers.asks asks_arguments passed
    exact remembers_call calls returns isType remembersPassed (bind_eq_ok.mpr success)
  · cases success

/-! ## Runs -/

/-- Only rules of declaring families declare a type. -/
theorem declaredType_eq_none (plain : current.opcode.family ∉ declaringFamilies) :
    current.declaredType context known = none := by
  unfold Current.declaredType
  split <;> simp_all [declaringFamilies]

/-- After an instruction lowering remembers the types that are known then. -/
theorem remembers_instruction {instruction : Instruction} {next : Option Instruction} {opcode : Opcode}
    (isOpcode : instruction.opcode = some opcode) (remembers : Remembers known before)
    (success : (Lower.instruction context instruction next).run before = .ok (statements, after)) :
    Remembers (known.after context ⟨instruction, opcode, next⟩) after := by
  obtain ⟨own, isOwn, outcome⟩ := instruction_outcome success
  obtain rfl := Option.some.inj (isOpcode.symm.trans isOwn)
  by_cases declaring : opcode.family ∈ declaringFamilies
  · unfold Lower.instruction at success
    rw [isOpcode] at success
    dsimp only [rule] at success
    have isTyped : (opcode.family = .checkCast ∨ opcode.family = .newArray) →
        Current.declaredType context known ⟨instruction, opcode, next⟩ =
          Current.item? context.pool.type ⟨instruction, opcode, next⟩ := by
      rintro (family | family) <;> rw [Current.declaredType] <;> dsimp only <;> rw [family]
    -- one case for each family that declares, in the order of the list
    simp only [declaringFamilies, List.mem_cons, List.not_mem_nil, or_false] at declaring
    rcases declaring with family | family | family | family | family | family | family | family <;>
      simp only [family] at success
    · exact remembers_move family remembers success
    · exact remembers_makeTyped (keeps_of_family family rfl) (isTyped (.inl family)) remembers success
    · exact remembers_makeTyped (keeps_of_family family rfl) (isTyped (.inr family)) remembers success
    · exact remembers_filledNewArray isOpcode family remembers success
    · exact remembers_aget family remembers success
    · exact remembers_iget family remembers success
    · exact remembers_sget family remembers success
    · exact remembers_invoke isOpcode family remembers success
  · -- all others only add values, and a `move-result` that was taken over does nothing
    rw [after_of_type_none (declaredType_eq_none declaring)]
    cases outcome with
    | takenOver _ _ _ same => exact same ▸ remembers
    | lowered _ values _ types _ =>
        exact remembers.mono (values ▸ ValueFile.prefix_foldl_ask) (types declaring)

theorem introduce_parameter {argument : Argument} {index : Nat} {type : Descriptor}
    (isParameter : argument.source = .parameter index type) :
    known.introduce argument = known.learn .param argument.reg type := by
  rw [ArrayTypes.introduce, isParameter]

theorem introduce_other {argument : Argument}
    (noParameter : ∀ index type, argument.source = .parameter index type → False) :
    known.introduce argument = known := by
  unfold ArrayTypes.introduce
  split
  · rename_i isParameter
    exact (noParameter _ _ isParameter).elim
  · rfl

/-- An argument has the type of its parameter. -/
theorem remembers_argument {argument : Argument} {statement : Statement Slot}
    (remembers : Remembers known before)
    (success : (Lower.argument argument).run before = .ok (statement, after)) :
    Remembers (known.introduce argument) after := by
  simp only [Lower.argument, bind_eq_ok] at success
  obtain ⟨value, _, defines, _, _, records, success⟩ := success
  obtain ⟨-, defined⟩ := define_spec defines
  have remembersRecord := (remembers.asks asks_define defines).asks asks_record records
  have stays := ValueFile.definedAt?_mono (asks_record.grows records).1 defined
  split at success
  · rename_i type isParameter
    simp only [bind_eq_ok, pure_eq_ok, Prod.mk.injEq] at success
    obtain ⟨_, _, declares, -, rfl⟩ := success
    rw [introduce_parameter isParameter]
    exact remembersRecord.declare stays declares
  · rename_i noParameter
    obtain ⟨-, rfl⟩ := Prod.mk.inj (pure_eq_ok.mp success)
    rwa [introduce_other noParameter]

theorem remembers_arguments {arguments : List Argument} {identities : List (Statement Slot)}
    (remembers : Remembers known before)
    (success : (arguments.mapM Lower.argument).run before = .ok (identities, after)) :
    Remembers (arguments.foldl ArrayTypes.introduce known) after := by
  induction arguments generalizing known before identities with
  | nil =>
      obtain ⟨-, rfl⟩ := Prod.mk.inj (pure_eq_ok.mp success)
      exact remembers
  | cons argument rest ih =>
      simp only [List.mapM_cons, bind_eq_ok, pure_eq_ok, Prod.mk.injEq] at success
      obtain ⟨_, _, first, _, _, others, -, rfl⟩ := success
      exact ih (remembers_argument remembers first) others

end Lower

end Dalvik
