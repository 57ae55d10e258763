import Dalvik.Lowering
import Dalvik.Proofs.Body.Uses
import Dalvik.Proofs.Lowering.Steps

/-!
# What instructions read

The registers an instruction reads, by its opcode, and what lowering makes of it:
statements that read the values of these registers and put a value into the register
that it, or the `move-result` after it, writes.
-/

namespace Dalvik

def Opcode.width (opcode : Opcode) : Width :=
  if (opcode.kind.map OperandKind.isWide).getD false then .wide else .narrow

/-- The operands an opcode reads, by their positions and in the order in which they
are read, with their widths.  Shift distances are narrow. -/
def Opcode.readOperands (opcode : Opcode) : List (Nat × Width) :=
  let right :=
    if (BinaryOp.ofMnemonic? opcode.mnemonic).elim false BinaryOp.isShift then .narrow
    else opcode.width
  match opcode.family with
  | .move | .neg | .not | .convert | .binopLit => [(1, opcode.width)]
  | .returnValue | .sput => [(0, opcode.width)]
  | .monitorEnter | .monitorExit | .checkCast | .throw | .fillArrayData | .switch | .branchZero =>
      [(0, .narrow)]
  | .instanceOf | .arrayLength | .newArray | .iget => [(1, .narrow)]
  | .branch => [(0, .narrow), (1, .narrow)]
  | .cmp => [(1, opcode.width), (2, opcode.width)]
  | .aget => [(1, .narrow), (2, .narrow)]
  | .aput => [(0, opcode.width), (1, .narrow), (2, .narrow)]
  | .iput => [(0, opcode.width), (1, .narrow)]
  | .binop => [(1, opcode.width), (2, right)]
  | .binop2addr => [(0, opcode.width), (1, right)]
  | _ => []

namespace Instruction

/-- The reads of arguments of some widths, which follow one another in the registers. -/
def argumentReads : List Reg → List Width → List (Reg × Width)
  | reg :: regs, width :: widths => (reg, width) :: argumentReads (regs.drop (width.slots - 1)) widths
  | _, _ => []

/-- The widths of what a call passes: the receiver, unless the call is static, and
the arguments of the method. -/
def passedWidths (pool : Pool) (opcode : Opcode) (reference : Option PoolRef) : List Width :=
  let receiver :=
    if (InvokeKind.ofMnemonic? opcode.mnemonic).elim false InvokeKind.hasReceiver then [.narrow]
    else []
  match reference.map fun reference => pool.method reference.index with
  | some (.ok method) => receiver ++ method.prototype.params.filterMap Descriptor.width
  | _ => receiver

/-- The registers an instruction reads, with the widths of the values, in the order in
which they are read. -/
def reads (pool : Pool) (instruction : Instruction) : List (Reg × Width) :=
  match instruction.opcode with
  | none => []
  | some opcode =>
      match opcode.family with
      | .invoke => argumentReads instruction.regs (passedWidths pool opcode instruction.reference)
      | .filledNewArray => instruction.regs.map (·, .narrow)
      | _ => opcode.readOperands.filterMap fun operand =>
          instruction.regs[operand.1]?.map (·, operand.2)

end Instruction

theorem hasResult_of_definition {instruction : Instruction} {opcode : Opcode}
    {written : Reg × Width} (isOpcode : instruction.opcode = some opcode)
    (defines : instruction.definition = some written) : opcode.hasResult = false := by
  simp only [Instruction.definition, isOpcode, Option.bind_eq_bind, Option.bind_some,
    Option.bind_eq_some_iff] at defines
  obtain ⟨_, -, width, defined, -⟩ := defines
  unfold Opcode.hasResult
  cases family : opcode.family <;> simp_all [definedWidth, Family.hasResult]

theorem head_of_definition {instruction : Instruction} {reg : Reg} {width : Width}
    (defines : instruction.definition = some (reg, width)) : instruction.regs[0]? = some reg := by
  simp only [Instruction.definition, Option.bind_eq_bind, Option.bind_eq_some_iff] at defines
  obtain ⟨_, -, dest, isHead, _, -, same⟩ := defines
  obtain ⟨rfl, -⟩ := Prod.mk.inj (Option.some.inj same)
  rw [← List.head?_eq_getElem?, isHead]

/-- The write an instruction's value belongs to: its own, or that of the `move-result`
after a call. -/
inductive Current.Defines (current : Current) : Site → Reg → Prop where
  | own {reg : Reg} (keeps : current.opcode.hasResult = false)
      (first : current.instruction.regs[0]? = some reg) : Defines current (.at current.addr) reg
  | result {next : Instruction} {reg : Reg} (passesOn : current.opcode.hasResult = true)
      (follows : current.next = some next) (first : next.regs[0]? = some reg) :
      Defines current (.at next.addr) reg

namespace Lower

/-- What an instruction is lowered to: at most one statement, which reads what the
instruction reads and defines what it writes.  A filled array that nothing takes
leaves a statement that does nothing. -/
structure Means (context : LoweringContext) (current : Current) (before : LoweringState)
    (statements : List (Statement Slot)) (after : LoweringState) : Prop where
  reads : ∃ values, Performs context current.addr before
      (current.instruction.reads context.pool) values after ∧
    (current.opcode.family = .filledNewArray ∧ statements = [.nop] ∨
      (statements.flatMap Statement.uses).map Slot.value = values)
  writes : ∀ statement ∈ statements, ∀ slot, statement.written = some slot →
    ∃ site reg, current.Defines site reg ∧ after.values.definedAt? site reg = some slot.value
  single : statements.length ≤ 1

variable {context : LoweringContext} {current : Current} {before after : LoweringState}
  {reads : List (Reg × Width)} {values : List Nat}

/-- A rule that makes one statement that defines nothing. -/
theorem Means.only {statement : Statement Slot}
    (performs : Performs context current.addr before reads values after)
    (declared : current.instruction.reads context.pool = reads)
    (uses : statement.uses.map Slot.value = values) (nothing : statement.written = none) :
    Means context current before [statement] after where
  reads := ⟨values, declared ▸ performs, .inr (by rw [List.flatMap_singleton, uses])⟩
  writes := by
    intro other member slot written
    rw [List.mem_singleton.mp member, nothing] at written
    cases written
  single := Nat.le_refl 1

/-- A rule that makes one statement that defines what a register gets. -/
theorem Means.defines {statement : Statement Slot} {dest : Slot} {site : Site} {reg : Reg}
    (performs : Performs context current.addr before reads values after)
    (declared : current.instruction.reads context.pool = reads)
    (uses : statement.uses.map Slot.value = values) (written : statement.written = some dest)
    (defined : current.Defines site reg)
    (found : after.values.definedAt? site reg = some dest.value) :
    Means context current before [statement] after where
  reads := ⟨values, declared ▸ performs, .inr (by rw [List.flatMap_singleton, uses])⟩
  writes := by
    intro other member slot same
    rw [List.mem_singleton.mp member, written] at same
    exact ⟨site, reg, defined, Option.some.inj same ▸ found⟩
  single := Nat.le_refl 1

/-- A rule that makes no statement. -/
theorem Means.nothing (keeps : Keeps before after)
    (declared : current.instruction.reads context.pool = []) :
    Means context current before [] after where
  reads := ⟨[], declared ▸ .nothing keeps, .inr rfl⟩
  writes _ member := by cases member
  single := Nat.zero_le 1

end Lower

end Dalvik
