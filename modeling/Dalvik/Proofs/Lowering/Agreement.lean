import Dalvik.Lowering

/-!
# What lowering an instruction depends on

Lowering looks at the pool, the frame and the method's declaration, at the state
before the instruction, and for a call also at the instruction after it and whether
that is a branch target.  Two contexts that agree on these lower the instruction to
the same statements.
-/

namespace Dalvik

/-- Two contexts in which an instruction at an address reads the same. -/
structure LoweringContext.AgreesAt (context other : LoweringContext) (addr : Addr) : Prop where
  pool : context.pool = other.pool
  method : context.code.method = other.code.method
  registers : context.code.registers = other.code.registers
  entry : context.states.entryAt addr = other.states.entryAt addr

namespace Lower

variable {context other : LoweringContext} {current : Current}

theorem checkBounds_congr (agrees : context.AgreesAt other current.addr) :
    checkBounds context current = checkBounds other current := by
  funext reg width
  rw [checkBounds, agrees.registers, checkBounds]

theorem resolve_congr (agrees : context.AgreesAt other current.addr) :
    resolve context current = resolve other current := by
  funext reg width
  have same : ∀ file : ValueFile, file.resolve context.states reg current.addr width =
      file.resolve other.states reg current.addr width := by
    intro file
    rw [ValueFile.resolve, agrees.entry, ValueFile.resolve]
  simp only [resolve, same]

theorem readReaching_congr (agrees : context.AgreesAt other current.addr) :
    readReaching context current = readReaching other current := by
  funext reg contract origin
  rw [readReaching, checkBounds_congr agrees, resolve_congr agrees, readReaching]

theorem readAs_congr (agrees : context.AgreesAt other current.addr) :
    readAs context current = readAs other current := by
  funext reg contract origin
  rw [readAs, readReaching_congr agrees, readAs]

theorem read_congr (agrees : context.AgreesAt other current.addr) :
    read context current = read other current := by
  funext position contract
  rw [read, readAs_congr agrees, read]

theorem readArray_congr (agrees : context.AgreesAt other current.addr) :
    readArray context current = readArray other current := by
  funext position contract
  rw [readArray, readReaching_congr agrees, readArray]

theorem writeAt_congr (agrees : context.AgreesAt other current.addr) :
    writeAt context current = writeAt other current := by
  funext addr reg contract origin
  rw [writeAt, checkBounds_congr agrees, writeAt]

theorem write_congr (agrees : context.AgreesAt other current.addr) :
    write context current = write other current := by
  funext position contract
  rw [write, writeAt_congr agrees, write]

theorem readDeclared_congr (agrees : context.AgreesAt other current.addr) :
    readDeclared context current = readDeclared other current := by
  funext contract kind
  rw [readDeclared, read_congr agrees, readDeclared]

theorem writeDeclared_congr (agrees : context.AgreesAt other current.addr) :
    writeDeclared context current = writeDeclared other current := by
  funext type kind
  rw [writeDeclared, write_congr agrees, writeDeclared]

theorem compute_congr (agrees : context.AgreesAt other current.addr) :
    compute context current = compute other current := by
  funext source dest value
  rw [compute, read_congr agrees, write_congr agrees, compute]

theorem loadItem_congr (agrees : context.AgreesAt other current.addr) :
    loadItem context current = loadItem other current := by
  funext kind value
  rw [loadItem, write_congr agrees, loadItem]

theorem useObject_congr (agrees : context.AgreesAt other current.addr) :
    useObject context current = useObject other current := by
  funext use
  rw [useObject, read_congr agrees, useObject]

theorem readBoth_congr (agrees : context.AgreesAt other current.addr) :
    readBoth context current = readBoth other current := by
  funext first second left right
  rw [readBoth, read_congr agrees, readBoth]

theorem binaryOperands_congr (agrees : context.AgreesAt other current.addr) :
    binaryOperands context current = binaryOperands other current := by
  funext op
  rw [binaryOperands, readBoth_congr agrees, read_congr agrees, binaryOperands]

theorem typeOf_congr (agrees : context.AgreesAt other current.addr) :
    typeOf context = typeOf other := by
  funext index
  rw [typeOf, agrees.pool, typeOf]

theorem makeTyped_congr (agrees : context.AgreesAt other current.addr) :
    makeTyped context current = makeTyped other current := by
  funext position contract value
  rw [makeTyped, read_congr agrees, write_congr agrees, typeOf_congr agrees, makeTyped]

theorem readArguments_congr (agrees : context.AgreesAt other current.addr) (kinds : List Kind) :
    ∀ number position, readArguments context current number position kinds =
      readArguments other current number position kinds := by
  induction kinds with
  | nil => exact fun _ _ => rfl
  | cons kind kinds ih =>
      intro number position
      rw [readArguments, readAs_congr agrees, readArguments]
      simp only [ih]

theorem arguments_congr (agrees : context.AgreesAt other current.addr) :
    arguments context current = arguments other current := by
  funext kinds
  rw [arguments, readArguments_congr agrees, arguments]

theorem elementAccess_congr (agrees : context.AgreesAt other current.addr) :
    elementAccess context current = elementAccess other current := by
  rw [elementAccess, readArray_congr agrees, read_congr agrees, elementAccess]

theorem fieldAccess_congr (agrees : context.AgreesAt other current.addr) :
    fieldAccess context current = fieldAccess other current := by
  rw [fieldAccess, agrees.pool, fieldAccess]

/-- The result of a call depends on whether the instruction after it is a target. -/
theorem result_congr (agrees : context.AgreesAt other current.addr)
    (next : ∀ instruction ∈ current.next,
      context.graph.isTarget instruction.addr = other.graph.isTarget instruction.addr) :
    result context current = result other current := by
  have takenOver : resultMove context current = resultMove other current := by
    unfold resultMove
    cases after : current.next with
    | none => rfl
    | some instruction => rw [Option.bind_eq_bind, Option.bind_some, next instruction after]; rfl
  funext kind
  rw [result, takenOver, writeAt_congr agrees, result]

/-- In contexts that agree at an instruction its rule makes the same of it. -/
theorem rule_congr (agrees : context.AgreesAt other current.addr)
    (next : ∀ instruction ∈ current.next,
      context.graph.isTarget instruction.addr = other.graph.isTarget instruction.addr) :
    rule context current = rule other current := by
  unfold rule
  split
  · rfl
  · simp only [move, readArray_congr agrees, write_congr agrees]
  · simp only [moveResult, write_congr agrees]
  · simp only [moveException, writeAt_congr agrees]
  · rfl
  · simp only [returnValue, agrees.pool, agrees.method, readDeclared_congr agrees]
  · simp only [const, write_congr agrees]
  · rw [loadItem_congr agrees]
  · rw [loadItem_congr agrees]
  · rw [useObject_congr agrees]
  · rw [useObject_congr agrees]
  · rw [makeTyped_congr agrees]
  · simp only [instanceOf, compute_congr agrees]
  · rw [compute_congr agrees]
  · rw [loadItem_congr agrees]
  · rw [makeTyped_congr agrees]
  · simp only [filledNewArray, typeOf_congr agrees, arguments_congr agrees, result_congr agrees next]
  · simp only [fillArrayData, readArray_congr agrees]
  · rw [useObject_congr agrees]
  · rfl
  · simp only [switch, read_congr agrees]
  · simp only [cmp, readBoth_congr agrees, write_congr agrees]
  · simp only [branch, read_congr agrees]
  · simp only [branchZero, read_congr agrees]
  · simp only [aget, elementAccess_congr agrees, write_congr agrees]
  · simp only [aput, read_congr agrees, elementAccess_congr agrees]
  · simp only [iget, fieldAccess_congr agrees, read_congr agrees, writeDeclared_congr agrees]
  · simp only [iput, fieldAccess_congr agrees, readDeclared_congr agrees, read_congr agrees]
  · simp only [sget, fieldAccess_congr agrees, writeDeclared_congr agrees]
  · simp only [sput, fieldAccess_congr agrees, readDeclared_congr agrees]
  · simp only [invoke, agrees.pool, arguments_congr agrees, result_congr agrees next]
  · rw [compute_congr agrees]
  · simp only [Lower.not, read_congr agrees, write_congr agrees]
  · simp only [convert, compute_congr agrees]
  · simp only [binary, binaryOperands_congr agrees, write_congr agrees]
  · simp only [binary, binaryOperands_congr agrees, write_congr agrees]
  · simp only [binary, binaryOperands_congr agrees, write_congr agrees]

/-- Only calls look at the instruction after them. -/
theorem rule_next (context : LoweringContext) (instruction : Instruction) (opcode : Opcode)
    (next next' : Option Instruction)
    (calls : ¬ (opcode.family = .invoke ∨ opcode.family = .filledNewArray)) :
    rule context ⟨instruction, opcode, next⟩ = rule context ⟨instruction, opcode, next'⟩ := by
  unfold rule
  cases family : opcode.family
  case invoke => exact absurd (.inl family) calls
  case filledNewArray => exact absurd (.inr family) calls
  all_goals rfl

/-- In contexts that agree at an instruction it is lowered to the same statements,
whatever comes after it if it ends the flow. -/
theorem instruction_congr {instruction : Instruction} {next next' : Option Instruction}
    (agrees : context.AgreesAt other instruction.addr)
    (falls : instruction.endsFlow = false → next = next' ∧ ∀ after ∈ next,
      context.graph.isTarget after.addr = other.graph.isTarget after.addr) :
    Lower.instruction context instruction next = Lower.instruction other instruction next' := by
  unfold Lower.instruction
  cases found : instruction.opcode with
  | none => rfl
  | some opcode =>
      by_cases calls : opcode.family = .invoke ∨ opcode.family = .filledNewArray
      · have notEnding : instruction.endsFlow = false := by
          rcases calls with family | family <;>
            simp [Instruction.endsFlow, found, Opcode.endsFlow, family, Family.endsFlow]
        obtain ⟨rfl, targets⟩ := falls notEnding
        exact @rule_congr context other ⟨instruction, opcode, next⟩ agrees targets
      · have none := @rule_congr context other ⟨instruction, opcode, none⟩ agrees
          fun after isNext => by cases isNext
        exact (rule_next context instruction opcode next .none calls).trans
          (none.trans (rule_next other instruction opcode .none next' calls))

end Lower

end Dalvik
