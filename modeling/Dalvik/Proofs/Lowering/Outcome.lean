import Dalvik.Proofs.Lowering.Passing

/-!
# What rules do

Each rule asks for what its instruction reads and then for what it writes, makes statements
that jump where the instruction does, and takes over the `move-result` of a call.
-/

namespace Dalvik

/-- The addresses an instruction can jump to; a switch also jumps to the next one. -/
def Instruction.jumps (instruction : Instruction) : List Addr :=
  match instruction.opcode.map Opcode.family with
  | some .goto | some .branch | some .branchZero => instruction.target.toList
  | some .switch => (instruction.payload.elim [] Payload.cases).filterMap
      (fun way => instruction.addr.offsetBy? way.2) ++ [instruction.nextAddr]
  | _ => []

/-- What rules make of an instruction: statements that jump where it does. -/
structure Instruction.Makes (instruction : Instruction) (statements : List (Statement Slot)) : Prop where
  nonempty : statements ≠ []
  jumps : statements.flatMap Statement.targets = instruction.jumps

def declaringFamilies : List Family :=
  [.move, .checkCast, .newArray, .filledNewArray, .aget, .iget, .sget, .invoke]

namespace Lower

open ValueFile (Request)

variable {context : LoweringContext} {current : Current}

/-- A rule asks for what the instruction does, takes over what it does, and makes statements
that jump where it does. -/
def Does (context : LoweringContext) (current : Current) (act : Lower (List (Statement Slot))) : Prop :=
  Asks (current.opcode.family ∈ declaringFamilies) act
    (current.instruction.requests context current.next)
    (current.instruction.takenAddrs context current.next) current.instruction.Makes

section

variable (opcode : current.instruction.opcode = some current.opcode)
include opcode

/-- A statement that does not jump, of an instruction that does not. -/
theorem makes (stays : current.opcode.family ∉ [Family.goto, .branch, .branchZero, .switch])
    {statement : Statement Slot} (nothing : statement.targets = []) :
    current.instruction.Makes [statement] := by
  refine ⟨List.cons_ne_nil _ _, ?_⟩
  rw [List.flatMap_singleton, nothing, Instruction.jumps, opcode, Option.map_some]
  split <;> simp_all

/-- Only calls take over what follows. -/
theorem takesOver_plain (plain : current.opcode.hasResult = false) :
    current.instruction.takesOver context current.next = none := by
  rw [Opcode.hasResult] at plain
  rw [Instruction.takesOver, Instruction.resultKind, opcode, Option.map_some]
  split <;> simp_all [Family.hasResult]

/-- What an instruction that is no call asks for. -/
theorem requests_plain (plain : current.opcode.hasResult = false) :
    current.instruction.requests context current.next =
      current.opcode.readOperands.flatMap (current.instruction.operandRequests context) ++
        (definedWidth current.opcode).elim [] current.instruction.ownRequests := by
  have asked : ((current.opcode.readOperands.filterMap fun operand =>
        current.instruction.regs[operand.1]?.map (·, operand.2)).flatMap
          (context.requests current.instruction.addr)) =
      current.opcode.readOperands.flatMap (current.instruction.operandRequests context) := by
    induction current.opcode.readOperands with
    | nil => rfl
    | cons operand rest ih =>
        rw [List.flatMap_cons, ← ih, Instruction.operandRequests, List.filterMap_cons]
        cases current.instruction.regs[operand.1]? with
        | none => rfl
        | some reg => simp
  rw [Instruction.requests, reads_plain opcode plain, asked, Instruction.resultRequests,
    takesOver_plain opcode plain, opcode]
  exact List.append_nil _

/-- An instruction that is no call asks for its operands and then for what it writes. -/
theorem asks_plain (plain : current.opcode.hasResult = false) {operands : List (Nat × Width)}
    {written : Option Width} (reads : current.opcode.readOperands = operands)
    (writes : definedWidth current.opcode = written) {declares : Prop}
    {act : Lower (List (Statement Slot))} {post : List (Statement Slot) → Prop}
    (asks : Asks declares act (operands.flatMap (current.instruction.operandRequests context) ++
      written.elim [] current.instruction.ownRequests) [] post) :
    Asks declares act (current.instruction.requests context current.next)
      (current.instruction.takenAddrs context current.next) post := by
  rw [requests_plain opcode plain, reads, writes, Instruction.takenAddrs, takesOver_plain opcode plain]
  exact asks

/-! ### Shapes of rules -/

/-- A rule that reads one register and writes one. -/
theorem does_compute {source dest : KindSet} {value : Operand Slot → Expression Slot}
    (reads : current.opcode.readOperands = [(1, source.width)])
    (writes : definedWidth current.opcode = some dest.width)
    (plain : current.opcode.hasResult = false)
    (stays : current.opcode.family ∉ [Family.goto, .branch, .branchZero, .switch]) :
    Does context current (compute context current source dest value) := by
  refine asks_plain opcode plain reads writes ?_
  rw [List.flatMap_singleton, Option.elim_some]
  unfold compute
  refine .bind asks_read fun _ _ => ?_
  refine .before asks_write fun _ _ => ?_
  exact .pure (makes opcode stays rfl)

/-- A rule that only writes a register. -/
theorem does_loadItem {kind : ReferenceKind} {value : Nat → Expression Slot}
    (reads : current.opcode.readOperands = [])
    (writes : definedWidth current.opcode = some object.width)
    (plain : current.opcode.hasResult = false)
    (stays : current.opcode.family ∉ [Family.goto, .branch, .branchZero, .switch]) :
    Does context current (loadItem context current kind value) := by
  refine asks_plain opcode plain reads writes ?_
  rw [List.flatMap_nil, List.nil_append, Option.elim_some]
  unfold loadItem
  refine .after (.lift _) fun _ _ => ?_
  refine .before asks_write fun _ _ => ?_
  exact .pure (makes opcode stays rfl)

/-- A rule that only uses an object. -/
theorem does_useObject {use : Operand Slot → Statement Slot}
    (reads : current.opcode.readOperands = [(0, object.width)])
    (writes : definedWidth current.opcode = none) (plain : current.opcode.hasResult = false)
    (stays : current.opcode.family ∉ [Family.goto, .branch, .branchZero, .switch])
    (nothing : ∀ slot, (use (.var slot)).targets = []) :
    Does context current (useObject context current use) := by
  refine asks_plain opcode plain reads writes ?_
  rw [List.flatMap_singleton, Option.elim_none, List.append_nil]
  unfold useObject
  refine .before asks_read fun value _ => ?_
  exact .pure (makes opcode stays (nothing value))

/-- A rule that makes an object of a type of the pool, which may be an array. -/
theorem does_makeTyped {position : Nat} {contract : KindSet}
    {value : Nat → Operand Slot → Expression Slot}
    (reads : current.opcode.readOperands = [(position, contract.width)])
    (writes : definedWidth current.opcode = some object.width)
    (plain : current.opcode.hasResult = false)
    (stays : current.opcode.family ∉ [Family.goto, .branch, .branchZero, .switch])
    (declares : current.opcode.family ∈ declaringFamilies) :
    Does context current (makeTyped context current position contract value) := by
  refine asks_plain opcode plain reads writes ?_
  rw [List.flatMap_singleton, Option.elim_some]
  unfold makeTyped
  refine .after (.lift _) fun _ _ => ?_
  refine .bind asks_read fun _ _ => ?_
  refine .before asks_write fun _ _ => ?_
  refine .after (.lift _) fun _ _ => ?_
  refine .after (asks_declare declares) fun _ _ => ?_
  exact .pure (makes opcode stays rfl)

/-! ### Moves and constants -/

theorem does_move (family : current.opcode.family = .move) :
    Does context current (move context current) := by
  have reads : current.opcode.readOperands = [(1, (moveContract current).width)] := by
    simp [Opcode.readOperands, family, width_moveContract]
  have writes : definedWidth current.opcode = some (moveContract current).width := by
    rw [definedWidth_own (by simp [family]), width_moveContract, current.width_contract]
  refine asks_plain opcode (keeps_of_family family rfl) reads writes ?_
  rw [List.flatMap_singleton, Option.elim_some]
  unfold move
  refine .bind asks_readArray fun read _ => ?_
  obtain ⟨source, type⟩ := read
  refine .before asks_write fun dest _ => ?_
  refine .after asks_sameKind fun _ _ => ?_
  have done : current.instruction.Makes (assign dest (.use (.var source))) :=
    makes opcode (by simp [family]) rfl
  cases type with
  | none => exact .pure done
  | some type => exact .after (asks_declare (by simp [family, declaringFamilies])) fun _ _ => .pure done

theorem does_moveException (family : current.opcode.family = .moveException) :
    Does context current (moveException context current) := by
  have reads : current.opcode.readOperands = [] := by simp [Opcode.readOperands, family]
  have writes : definedWidth current.opcode = some .narrow := definedWidth_narrow (by simp [family])
  refine asks_plain opcode (keeps_of_family family rfl) reads writes ?_
  rw [List.flatMap_nil, List.nil_append, Option.elim_some]
  unfold moveException
  refine .after (.lift _) fun reg given => ?_
  have own : current.instruction.ownRequests .narrow = [⟨some (.at current.addr), reg, object.width⟩] := by
    rw [Instruction.ownRequests, reg_eq_ok.mp given]
    rfl
  rw [own]
  refine .before asks_writeAt fun _ _ => ?_
  exact .pure (makes opcode (by simp [family]) rfl)

theorem does_returnVoid (family : current.opcode.family = .returnVoid) :
    Does context current (pure [.exit none]) := by
  have reads : current.opcode.readOperands = [] := by simp [Opcode.readOperands, family]
  have writes : definedWidth current.opcode = none := by simp [definedWidth, family]
  refine asks_plain opcode (keeps_of_family family rfl) reads writes ?_
  exact .pure (makes opcode (by simp [family]) rfl)

theorem does_returnValue (family : current.opcode.family = .returnValue) :
    Does context current (returnValue context current) := by
  have reads : current.opcode.readOperands = [(0, current.opcode.width)] := by
    simp [Opcode.readOperands, family]
  have writes : definedWidth current.opcode = none := by simp [definedWidth, family]
  refine asks_plain opcode (keeps_of_family family rfl) reads writes ?_
  rw [List.flatMap_singleton, Option.elim_none, List.append_nil]
  unfold returnValue
  refine .after (.lift _) fun method _ => ?_
  refine .after (.lift _) fun kind _ => ?_
  have width : (if current.contract = .narrowNumber ∧ kind = .object then KindSet.narrow
      else current.contract).width = current.opcode.width := by
    rw [← current.width_contract]
    split
    · rename_i untyped
      rw [untyped.1]
      rfl
    · rfl
  rw [← width]
  refine .before asks_readDeclared fun _ _ => ?_
  exact .pure (makes opcode (by simp [family]) rfl)

theorem does_const (family : current.opcode.family = .const) :
    Does context current (const context current) := by
  have reads : current.opcode.readOperands = [] := by simp [Opcode.readOperands, family]
  have writes : definedWidth current.opcode = some current.contract.width :=
    definedWidth_own (by simp [family])
  refine asks_plain opcode (keeps_of_family family rfl) reads writes ?_
  rw [List.flatMap_nil, List.nil_append, Option.elim_some]
  unfold const
  refine .after (.lift _) fun literal _ => ?_
  have width : (literalBits (current.contract == .wide) literal).2.width = current.contract.width := by
    rcases kind_of_const family with kind | kind <;> rw [Current.contract, kind]
    · have isNarrow : (KindSet.narrowNumber == KindSet.wide) = false := by decide
      simp only [Option.elim_some, KindSet.ofOperand, literalBits, isNarrow, Bool.false_eq_true,
        if_false]
      split <;> rfl
    · rfl
  rw [← width]
  refine .before asks_write fun _ _ => ?_
  exact .pure (makes opcode (by simp [family]) rfl)

/-! ### Arithmetic -/

theorem does_not (family : current.opcode.family = .not) :
    Does context current (Lower.not context current) := by
  have reads : current.opcode.readOperands = [(1, current.contract.width)] := by
    simp [Opcode.readOperands, family, current.width_contract]
  have writes : definedWidth current.opcode = some current.contract.width :=
    definedWidth_own (by simp [family])
  refine asks_plain opcode (keeps_of_family family rfl) reads writes ?_
  rw [List.flatMap_singleton, Option.elim_some]
  unfold Lower.not
  refine .bind asks_read fun _ _ => ?_
  refine .before asks_write fun _ _ => ?_
  refine .after asks_sameKind fun _ _ => ?_
  exact .pure (makes opcode (by simp [family]) rfl)

theorem does_convert (family : current.opcode.family = .convert) :
    Does context current (convert context current) := by
  have reads : current.opcode.readOperands = [(1, current.contract.width)] := by
    simp [Opcode.readOperands, family, current.width_contract]
  unfold convert
  split
  · rename_i target isTarget
    have writes : definedWidth current.opcode = some (KindSet.ofOperand target).width := by
      rw [definedWidth, family, isTarget]
      cases target <;> rfl
    split
    · exact does_compute opcode reads writes (keeps_of_family family rfl) (by simp [family])
    · exact .fails
  · exact .fails

omit opcode in
theorem asks_binaryOperands (family : current.opcode.family = .binop ∨
      current.opcode.family = .binop2addr ∨ current.opcode.family = .binopLit) {op : BinaryOp}
    (isOp : BinaryOp.ofMnemonic? current.opcode.mnemonic = some op) {declares : Prop} :
    Asks declares (binaryOperands context current op)
      (current.opcode.readOperands.flatMap (current.instruction.operandRequests context)) []
      fun _ => True := by
  unfold binaryOperands
  rcases family with family | family | family <;> simp only [family]
  · refine asks_readBoth.declared ?_
    simp [Opcode.readOperands, family, isOp, current.width_contract, width_rightContract]
  · refine asks_readBoth.declared ?_
    simp [Opcode.readOperands, family, isOp, current.width_contract, width_rightContract]
  · have reads : current.opcode.readOperands = [(1, current.contract.width)] := by
      simp [Opcode.readOperands, family, current.width_contract]
    rw [reads, List.flatMap_singleton]
    refine .before asks_read fun _ _ => ?_
    refine .after (.lift _) fun literal _ => ?_
    split <;> exact .pure trivial

theorem does_binary (family : current.opcode.family = .binop ∨
      current.opcode.family = .binop2addr ∨ current.opcode.family = .binopLit) :
    Does context current (binary context current) := by
  have writes : definedWidth current.opcode = some current.contract.width := by
    refine definedWidth_own ?_
    rcases family with family | family | family <;> simp [family]
  have plain : current.opcode.hasResult = false := by
    rcases family with family | family | family <;> exact keeps_of_family family rfl
  have stays : current.opcode.family ∉ [Family.goto, .branch, .branchZero, .switch] := by
    rcases family with family | family | family <;> simp [family]
  unfold binary
  split
  · rename_i op isOp
    refine asks_plain opcode plain rfl writes ?_
    rw [Option.elim_some]
    refine .bind (asks_binaryOperands family isOp) fun _ _ => ?_
    refine .before asks_write fun _ _ => ?_
    exact .pure (makes opcode stays rfl)
  · exact .fails

theorem does_cmp (family : current.opcode.family = .cmp) : Does context current (cmp context current) := by
  have reads : current.opcode.readOperands =
      [(1, current.contract.width), (2, current.contract.width)] := by
    simp [Opcode.readOperands, family, current.width_contract]
  have writes : definedWidth current.opcode = some (KindSet.ofKind .int).width :=
    definedWidth_narrow (by simp [family])
  unfold cmp
  split
  · refine asks_plain opcode (keeps_of_family family rfl) reads writes ?_
    rw [List.flatMap_cons, List.flatMap_singleton, Option.elim_some]
    refine .bind asks_readBoth fun _ _ => ?_
    refine .before asks_write fun _ _ => ?_
    exact .pure (makes opcode (by simp [family]) rfl)
  · exact .fails

/-! ### Branches -/

omit opcode in
theorem target_of_target {target : Addr} (found : current.target = .ok target) :
    current.instruction.target = some target := by
  unfold Current.target Current.offsetBy at found
  split at found
  · rename_i offset isOffset
    split at found
    · rename_i own isOwn
      obtain rfl := Except.ok.inj found
      rw [Instruction.target, isOffset]
      exact isOwn
    · cases found
  · cases found

/-- A statement that jumps where the branch of the instruction leads. -/
theorem makes_jump (jumps : current.opcode.family = .goto ∨ current.opcode.family = .branch ∨
      current.opcode.family = .branchZero) {target : Addr} (found : current.target = .ok target)
    {statement : Statement Slot} (leads : statement.targets = [target]) :
    current.instruction.Makes [statement] := by
  refine ⟨List.cons_ne_nil _ _, ?_⟩
  rw [List.flatMap_singleton, leads, Instruction.jumps, opcode, Option.map_some, target_of_target found]
  rcases jumps with family | family | family <;> rw [family] <;> rfl

theorem does_goto (family : current.opcode.family = .goto) : Does context current (goto current) := by
  have reads : current.opcode.readOperands = [] := by simp [Opcode.readOperands, family]
  have writes : definedWidth current.opcode = none := by simp [definedWidth, family]
  refine asks_plain opcode (keeps_of_family family rfl) reads writes ?_
  unfold goto
  refine .after (.lift _) fun target found => ?_
  exact .pure (makes_jump opcode (.inl family) found rfl)

theorem does_branch (family : current.opcode.family = .branch) :
    Does context current (branch context current) := by
  have reads : current.opcode.readOperands = [(0, .narrow), (1, .narrow)] := by
    simp [Opcode.readOperands, family]
  have writes : definedWidth current.opcode = none := by simp [definedWidth, family]
  refine asks_plain opcode (keeps_of_family family rfl) reads writes ?_
  rw [List.flatMap_cons, List.flatMap_singleton, Option.elim_none, List.append_nil]
  unfold branch
  refine .after (.lift _) fun op _ => ?_
  refine .after (.lift _) fun target found => ?_
  rw [← width_comparable op]
  refine .bind asks_read fun _ _ => ?_
  refine .before asks_read fun _ _ => ?_
  refine .after asks_sameKind fun _ _ => ?_
  exact .pure (makes_jump opcode (.inr (.inl family)) found rfl)

theorem does_branchZero (family : current.opcode.family = .branchZero) :
    Does context current (branchZero context current) := by
  have reads : current.opcode.readOperands = [(0, .narrow)] := by simp [Opcode.readOperands, family]
  have writes : definedWidth current.opcode = none := by simp [definedWidth, family]
  refine asks_plain opcode (keeps_of_family family rfl) reads writes ?_
  rw [List.flatMap_singleton, Option.elim_none, List.append_nil]
  unfold branchZero
  refine .after (.lift _) fun op _ => ?_
  refine .after (.lift _) fun target found => ?_
  rw [← width_comparable op]
  refine .before asks_read fun _ _ => ?_
  exact .pure (makes_jump opcode (.inr (.inr family)) found rfl)

omit opcode in
theorem offsetBy_eq_ok {offset : Int32} {target : Addr} (found : current.offsetBy offset = .ok target) :
    current.instruction.addr.offsetBy? offset = some target := by
  unfold Current.offsetBy at found
  split at found
  · rename_i own isOwn
    exact Except.ok.inj found ▸ isOwn
  · cases found

omit opcode in
theorem asks_cases {declares : Prop} {ways : List (Int32 × Int32)} :
    Asks declares (ways.mapM fun (way : Int32 × Int32) => do
        let target ← current.offsetBy way.2
        return (way.1, target) : Lower (List (Int32 × Addr))) [] []
      fun cases => cases.map Prod.snd =
        ways.filterMap fun way => current.instruction.addr.offsetBy? way.2 := by
  induction ways with
  | nil => exact .pure rfl
  | cons way rest ih =>
      rw [List.mapM_cons]
      have first : Asks declares (do
            let target ← current.offsetBy way.2
            return (way.1, target) : Lower (Int32 × Addr)) [] []
          fun case => current.instruction.addr.offsetBy? way.2 = some case.2 :=
        .after (.lift _) fun _ found => .pure (offsetBy_eq_ok found)
      refine .after first fun case leads => ?_
      refine .after ih fun cases others => ?_
      exact .pure (by simp [leads, others])

theorem does_switch (family : current.opcode.family = .switch) :
    Does context current (switch context current) := by
  have reads : current.opcode.readOperands = [(0, (KindSet.ofKind .int).width)] := by
    simp [Opcode.readOperands, family, width_int]
  have writes : definedWidth current.opcode = none := by simp [definedWidth, family]
  unfold switch
  split
  · rename_i payload isPayload
    refine asks_plain opcode (keeps_of_family family rfl) reads writes ?_
    rw [List.flatMap_singleton, Option.elim_none, List.append_nil]
    refine .after asks_cases fun cases leads => ?_
    refine .before asks_read fun _ _ => .pure ⟨List.cons_ne_nil _ _, ?_⟩
    rw [Instruction.jumps, opcode, Option.map_some, family, isPayload, List.flatMap_singleton,
      Statement.targets, leads]
    rfl
  · exact .fails

/-! ### Objects -/

theorem does_instanceOf (family : current.opcode.family = .instanceOf) :
    Does context current (instanceOf context current) := by
  have reads : current.opcode.readOperands = [(1, object.width)] := by
    simp [Opcode.readOperands, family, width_object]
  have writes : definedWidth current.opcode = some (KindSet.ofKind .int).width :=
    definedWidth_narrow (by simp [family])
  unfold instanceOf
  refine .after (.lift _) fun index _ => ?_
  exact does_compute opcode reads writes (keeps_of_family family rfl) (by simp [family])

theorem does_fillArrayData (family : current.opcode.family = .fillArrayData) :
    Does context current (fillArrayData context current) := by
  have reads : current.opcode.readOperands = [(0, object.width)] := by
    simp [Opcode.readOperands, family, width_object]
  have writes : definedWidth current.opcode = none := by simp [definedWidth, family]
  unfold fillArrayData
  split
  · refine asks_plain opcode (keeps_of_family family rfl) reads writes ?_
    rw [List.flatMap_singleton, Option.elim_none, List.append_nil]
    refine .before asks_readArray fun _ _ => ?_
    exact .pure (makes opcode (by simp [family]) rfl)
  · exact .fails

/-! ### Fields and array elements -/

theorem does_iget (family : current.opcode.family = .iget) :
    Does context current (iget context current) := by
  have reads : current.opcode.readOperands = [(1, object.width)] := by
    simp [Opcode.readOperands, family, width_object]
  have writes : definedWidth current.opcode = some current.contract.width :=
    definedWidth_own (by simp [family])
  refine asks_plain opcode (keeps_of_family family rfl) reads writes ?_
  rw [List.flatMap_singleton, Option.elim_some]
  unfold iget
  refine .after (.lift _) fun access _ => ?_
  obtain ⟨field, type, kind⟩ := access
  refine .bind asks_read fun _ _ => ?_
  refine .before (asks_writeDeclared (by simp [family, declaringFamilies])) fun _ _ => ?_
  exact .pure (makes opcode (by simp [family]) rfl)

theorem does_iput (family : current.opcode.family = .iput) :
    Does context current (iput context current) := by
  have reads : current.opcode.readOperands = [(0, current.contract.width), (1, object.width)] := by
    simp [Opcode.readOperands, family, current.width_contract, width_object]
  have writes : definedWidth current.opcode = none := by simp [definedWidth, family]
  refine asks_plain opcode (keeps_of_family family rfl) reads writes ?_
  rw [List.flatMap_cons, List.flatMap_singleton, Option.elim_none, List.append_nil]
  unfold iput
  refine .after (.lift _) fun access _ => ?_
  obtain ⟨field, _, kind⟩ := access
  refine .bind asks_readDeclared fun _ _ => ?_
  refine .before asks_read fun _ _ => ?_
  exact .pure (makes opcode (by simp [family]) rfl)

theorem does_sget (family : current.opcode.family = .sget) :
    Does context current (sget context current) := by
  have reads : current.opcode.readOperands = [] := by simp [Opcode.readOperands, family]
  have writes : definedWidth current.opcode = some current.contract.width :=
    definedWidth_own (by simp [family])
  refine asks_plain opcode (keeps_of_family family rfl) reads writes ?_
  rw [List.flatMap_nil, List.nil_append, Option.elim_some]
  unfold sget
  refine .after (.lift _) fun access _ => ?_
  obtain ⟨field, type, kind⟩ := access
  refine .before (asks_writeDeclared (by simp [family, declaringFamilies])) fun _ _ => ?_
  exact .pure (makes opcode (by simp [family]) rfl)

theorem does_sput (family : current.opcode.family = .sput) :
    Does context current (sput context current) := by
  have reads : current.opcode.readOperands = [(0, current.contract.width)] := by
    simp [Opcode.readOperands, family, current.width_contract]
  have writes : definedWidth current.opcode = none := by simp [definedWidth, family]
  refine asks_plain opcode (keeps_of_family family rfl) reads writes ?_
  rw [List.flatMap_singleton, Option.elim_none, List.append_nil]
  unfold sput
  refine .after (.lift _) fun access _ => ?_
  obtain ⟨field, _, kind⟩ := access
  refine .before asks_readDeclared fun _ _ => ?_
  exact .pure (makes opcode (by simp [family]) rfl)

theorem does_aget (family : current.opcode.family = .aget) :
    Does context current (aget context current) := by
  have reads : current.opcode.readOperands = [(1, .narrow), (2, .narrow)] := by
    simp [Opcode.readOperands, family]
  have writes : definedWidth current.opcode = some current.contract.width :=
    definedWidth_own (by simp [family])
  refine asks_plain opcode (keeps_of_family family rfl) reads writes ?_
  rw [List.flatMap_cons, List.flatMap_singleton, Option.elim_some]
  unfold aget
  refine .bind asks_elementAccess fun access _ => ?_
  obtain ⟨array, index, element⟩ := access
  refine .before asks_write fun dest _ => ?_
  cases element with
  | none => exact .pure (makes opcode (by simp [family]) rfl)
  | some element =>
      refine .after (.lift _) fun kind _ => ?_
      refine .after asks_anchorElement fun bound _ => ?_
      refine .after (asks_declare (by simp [family, declaringFamilies])) fun _ _ => ?_
      exact .pure (makes opcode (by simp [family]) rfl)

theorem does_aput (family : current.opcode.family = .aput) :
    Does context current (aput context current) := by
  have reads : current.opcode.readOperands =
      [(0, current.contract.width), (1, .narrow), (2, .narrow)] := by
    simp [Opcode.readOperands, family, current.width_contract]
  have writes : definedWidth current.opcode = none := by simp [definedWidth, family]
  refine asks_plain opcode (keeps_of_family family rfl) reads writes ?_
  rw [List.flatMap_cons, List.flatMap_cons, List.flatMap_singleton, Option.elim_none, List.append_nil]
  unfold aput
  refine .bind asks_read fun value _ => ?_
  refine .before asks_elementAccess fun access _ => ?_
  obtain ⟨array, index, element⟩ := access
  cases element with
  | none => exact .pure (makes opcode (by simp [family]) rfl)
  | some element =>
      refine .after (.lift _) fun kind _ => ?_
      refine .after asks_anchorElement fun bound _ => ?_
      exact .pure (makes opcode (by simp [family]) rfl)

end

/-! ### Calls -/

/-- A call that is a statement of its own, or that assigns its result. -/
theorem asks_call (opcode : current.instruction.opcode = some current.opcode)
    (stays : current.opcode.family ∉ [Family.goto, .branch, .branchZero, .switch])
    (declares : current.opcode.family ∈ declaringFamilies) {kind : Kind}
    {call : Expression Slot} {type : Descriptor} {unused : Statement Slot}
    (passes : current.instruction.resultKind context.pool = some kind) (nothing : unused.targets = []) :
    Asks (current.opcode.family ∈ declaringFamilies) (do
        match ← result context current kind with
        | none => return [unused]
        | some dest => do
            declare dest.value type
            return assign dest call)
      (current.instruction.resultRequests context current.next)
      (current.instruction.takenAddrs context current.next) current.instruction.Makes := by
  refine .before (asks_result passes) fun taken _ => ?_
  cases taken with
  | none => exact .pure (makes opcode stays nothing)
  | some dest => exact .after (asks_declare declares) fun _ _ => .pure (makes opcode stays rfl)

/-- A call that returns nothing takes over nothing. -/
theorem takesOver_eq_none (nothing : current.instruction.resultKind context.pool = none) :
    current.instruction.takesOver context current.next = none := by
  rw [Instruction.takesOver, nothing]
  rfl

/-- Calls ask for what they pass, and then for their result. -/
theorem does_call (opcode : current.instruction.opcode = some current.opcode)
    (defines : definedWidth current.opcode = none) {reads : List (Reg × Width)}
    {act : Lower (List (Statement Slot))}
    (asks : Asks (current.opcode.family ∈ declaringFamilies) act
      (reads.flatMap (context.requests current.instruction.addr) ++
        current.instruction.resultRequests context current.next)
      (current.instruction.takenAddrs context current.next) current.instruction.Makes)
    (declared : current.instruction.reads context.pool = reads) : Does context current act := by
  refine asks.declared ?_
  rw [Instruction.requests, declared, opcode, Option.bind_some, defines, Option.elim_none,
    List.append_nil]

theorem does_invoke (opcode : current.instruction.opcode = some current.opcode)
    (family : current.opcode.family = .invoke) : Does context current (invoke context current) := by
  have stays : current.opcode.family ∉ [Family.goto, .branch, .branchZero, .switch] := by simp [family]
  unfold invoke
  split
  · rename_i kind isKind
    intro before statements after success
    simp only [bind_eq_ok, lift_eq_ok, liftCode_eq_ok, Prod.mk.injEq] at success
    obtain ⟨_, _, ⟨index, refers, rfl, rfl⟩, _, _, ⟨method, found, rfl, rfl⟩, _, _,
      ⟨paramKinds, declares, rfl, rfl⟩, success⟩ := success
    obtain ⟨reference, given, rfl⟩ := reference_eq_ok refers
    have returns := resultKind_invoke opcode family given found
    have declared : current.instruction.reads context.pool = Instruction.argumentReads
        current.instruction.regs ((if kind.hasReceiver = true then Kind.object :: paramKinds
          else paramKinds).map Kind.width) := by
      rw [Instruction.reads, opcode, ← passedWidths_eq isKind given found declares]
      simp only [family]
    refine does_call opcode (by simp [definedWidth, family]) ?_ declared before statements after
      (bind_eq_ok.mpr success)
    refine .bind asks_arguments fun slots _ => ?_
    cases ret : Kind.ofType method.prototype.ret with
    | none =>
        rw [Instruction.resultRequests, Instruction.takenAddrs, takesOver_eq_none (returns.trans ret)]
        exact .pure (makes opcode stays rfl)
    | some own =>
        exact asks_call opcode stays (by simp [family, declaringFamilies]) (returns.trans ret) rfl
  · exact .fails

theorem does_filledNewArray (opcode : current.instruction.opcode = some current.opcode)
    (family : current.opcode.family = .filledNewArray) :
    Does context current (filledNewArray context current) := by
  have returns : current.instruction.resultKind context.pool = some .object := by
    rw [Instruction.resultKind, opcode, Option.map_some, family]
  have declared : current.instruction.reads context.pool =
      current.instruction.regs.map (·, .narrow) := by
    simp [Instruction.reads, opcode, family]
  unfold filledNewArray
  refine does_call opcode (by simp [definedWidth, family]) ?_ declared
  refine .after (.lift _) fun index _ => ?_
  refine .after (.lift _) fun type _ => ?_
  split
  · refine .after (.lift _) fun kind _ => ?_
    intro before statements after success
    obtain ⟨_, _, passed, -⟩ := bind_eq_ok.mp success
    obtain ⟨arity, -⟩ := arguments_spec passed
    rw [← argumentReads_narrow, ← narrow_of_arity arity]
    refine Asks.bind asks_arguments (fun slots _ => ?_) before statements after success
    exact asks_call opcode (by simp [family]) (by simp [family, declaringFamilies]) returns rfl
  · exact .fails

/-! ## All rules -/

/-- What lowering an instruction does: nothing for a `move-result` that its call took over, and
otherwise what its rule does. -/
inductive Outcome (context : LoweringContext) (current : Current) (before : LoweringState)
    (statements : List (Statement Slot)) (after : LoweringState) : Prop where
  | takenOver (moves : current.opcode.family = .moveResult) (taken : current.addr ∈ before.folded)
      (nothing : statements = []) (same : after = before)
  | lowered (kept : current.opcode.family = .moveResult → current.addr ∉ before.folded)
      (values : after.values = (current.instruction.requests context current.next).foldl
        ValueFile.ask before.values)
      (folded : after.folded =
        current.instruction.takenAddrs context current.next ++ before.folded)
      (types : current.opcode.family ∉ declaringFamilies → after.arrays = before.arrays)
      (made : current.opcode.family = .nop ∧ statements = [] ∨ current.instruction.Makes statements)

theorem Does.outcome {act : Lower (List (Statement Slot))} {before after : LoweringState}
    {statements : List (Statement Slot)} (does : Does context current act)
    (other : current.opcode.family ≠ .moveResult)
    (success : act.run before = .ok (statements, after)) :
    Outcome context current before statements after := by
  obtain ⟨values, folded, types, made⟩ := does before statements after success
  exact .lowered (fun moves => absurd moves other) values folded types (.inr made)

theorem moveResult_outcome (opcode : current.instruction.opcode = some current.opcode)
    (family : current.opcode.family = .moveResult) {before after : LoweringState}
    {statements : List (Statement Slot)}
    (success : (moveResult context current).run before = .ok (statements, after)) :
    Outcome context current before statements after := by
  simp only [moveResult, bind_eq_ok, get_eq_ok, Prod.mk.injEq] at success
  obtain ⟨_, _, ⟨rfl, rfl⟩, success⟩ := success
  split at success
  · rename_i taken
    obtain ⟨rfl, rfl⟩ := Prod.mk.inj (pure_eq_ok.mp success)
    exact .takenOver family (List.contains_iff_mem.mp taken) rfl rfl
  · rename_i kept
    have reads : current.opcode.readOperands = [] := by simp [Opcode.readOperands, family]
    have writes : definedWidth current.opcode = some current.contract.width :=
      definedWidth_own (by simp [family])
    have does : Does context current (do
        let _ ← write context current 0 current.contract
        return [.nop]) := by
      refine asks_plain opcode (keeps_of_family family rfl) reads writes ?_
      rw [List.flatMap_nil, List.nil_append, Option.elim_some]
      refine .before asks_write fun _ _ => ?_
      exact .pure (makes opcode (by simp [family]) rfl)
    obtain ⟨values, folded, types, made⟩ := does _ _ _ success
    exact .lowered (fun _ member => kept (List.contains_iff_mem.mpr member)) values folded types (.inr made)

theorem rule_outcome (opcode : current.instruction.opcode = some current.opcode)
    {before after : LoweringState} {statements : List (Statement Slot)}
    (success : (rule context current).run before = .ok (statements, after)) :
    Outcome context current before statements after := by
  unfold rule at success
  split at success <;> rename_i family
  · have reads : current.opcode.readOperands = [] := by simp [Opcode.readOperands, family]
    have writes : definedWidth current.opcode = none := by simp [definedWidth, family]
    have asks : Asks (current.opcode.family ∈ declaringFamilies) (pure [])
        (current.instruction.requests context current.next)
        (current.instruction.takenAddrs context current.next) (· = ([] : List (Statement Slot))) :=
      asks_plain opcode (keeps_of_family family rfl) reads writes (.pure rfl)
    obtain ⟨values, folded, types, nothing⟩ := asks before statements after success
    exact .lowered (by simp [family]) values folded types (.inl ⟨family, nothing⟩)
  · exact (does_move opcode family).outcome (by simp [family]) success
  · exact moveResult_outcome opcode family success
  · exact (does_moveException opcode family).outcome (by simp [family]) success
  · exact (does_returnVoid opcode family).outcome (by simp [family]) success
  · exact (does_returnValue opcode family).outcome (by simp [family]) success
  · exact (does_const opcode family).outcome (by simp [family]) success
  · refine (does_loadItem opcode ?_ ?_ ?_ ?_).outcome (by simp [family]) success
    · simp [Opcode.readOperands, family]
    · exact definedWidth_narrow (by simp [family])
    · exact keeps_of_family family rfl
    · simp [family]
  · refine (does_loadItem opcode ?_ ?_ ?_ ?_).outcome (by simp [family]) success
    · simp [Opcode.readOperands, family]
    · exact definedWidth_narrow (by simp [family])
    · exact keeps_of_family family rfl
    · simp [family]
  · refine (does_useObject opcode ?_ ?_ ?_ ?_ fun _ => rfl).outcome (by simp [family]) success
    · simp [Opcode.readOperands, family, width_object]
    · simp [definedWidth, family]
    · exact keeps_of_family family rfl
    · simp [family]
  · refine (does_useObject opcode ?_ ?_ ?_ ?_ fun _ => rfl).outcome (by simp [family]) success
    · simp [Opcode.readOperands, family, width_object]
    · simp [definedWidth, family]
    · exact keeps_of_family family rfl
    · simp [family]
  · refine (does_makeTyped opcode ?_ ?_ ?_ ?_ ?_).outcome (by simp [family]) success
    · simp [Opcode.readOperands, family, width_object]
    · exact definedWidth_narrow (by simp [family])
    · exact keeps_of_family family rfl
    · simp [family]
    · simp [family, declaringFamilies]
  · exact (does_instanceOf opcode family).outcome (by simp [family]) success
  · refine (does_compute opcode ?_ ?_ ?_ ?_).outcome (by simp [family]) success
    · simp [Opcode.readOperands, family, width_object]
    · exact definedWidth_narrow (by simp [family])
    · exact keeps_of_family family rfl
    · simp [family]
  · refine (does_loadItem opcode ?_ ?_ ?_ ?_).outcome (by simp [family]) success
    · simp [Opcode.readOperands, family]
    · exact definedWidth_narrow (by simp [family])
    · exact keeps_of_family family rfl
    · simp [family]
  · refine (does_makeTyped opcode ?_ ?_ ?_ ?_ ?_).outcome (by simp [family]) success
    · simp [Opcode.readOperands, family, width_int]
    · exact definedWidth_narrow (by simp [family])
    · exact keeps_of_family family rfl
    · simp [family]
    · simp [family, declaringFamilies]
  · exact (does_filledNewArray opcode family).outcome (by simp [family]) success
  · exact (does_fillArrayData opcode family).outcome (by simp [family]) success
  · refine (does_useObject opcode ?_ ?_ ?_ ?_ fun _ => rfl).outcome (by simp [family]) success
    · simp [Opcode.readOperands, family, width_object]
    · simp [definedWidth, family]
    · exact keeps_of_family family rfl
    · simp [family]
  · exact (does_goto opcode family).outcome (by simp [family]) success
  · exact (does_switch opcode family).outcome (by simp [family]) success
  · exact (does_cmp opcode family).outcome (by simp [family]) success
  · exact (does_branch opcode family).outcome (by simp [family]) success
  · exact (does_branchZero opcode family).outcome (by simp [family]) success
  · exact (does_aget opcode family).outcome (by simp [family]) success
  · exact (does_aput opcode family).outcome (by simp [family]) success
  · exact (does_iget opcode family).outcome (by simp [family]) success
  · exact (does_iput opcode family).outcome (by simp [family]) success
  · exact (does_sget opcode family).outcome (by simp [family]) success
  · exact (does_sput opcode family).outcome (by simp [family]) success
  · exact (does_invoke opcode family).outcome (by simp [family]) success
  · refine (does_compute opcode ?_ ?_ ?_ ?_).outcome (by simp [family]) success
    · simp [Opcode.readOperands, family, current.width_contract]
    · exact definedWidth_own (by simp [family])
    · exact keeps_of_family family rfl
    · simp [family]
  · exact (does_not opcode family).outcome (by simp [family]) success
  · exact (does_convert opcode family).outcome (by simp [family]) success
  · exact (does_binary opcode (.inl family)).outcome (by simp [family]) success
  · exact (does_binary opcode (.inr (.inl family))).outcome (by simp [family]) success
  · exact (does_binary opcode (.inr (.inr family))).outcome (by simp [family]) success

theorem instruction_outcome {instruction : Instruction} {next : Option Instruction}
    {before after : LoweringState} {statements : List (Statement Slot)}
    (success : (Lower.instruction context instruction next).run before = .ok (statements, after)) :
    ∃ opcode, instruction.opcode = some opcode ∧
      Outcome context ⟨instruction, opcode, next⟩ before statements after := by
  unfold Lower.instruction at success
  split at success
  · rename_i opcode isOpcode
    exact ⟨opcode, isOpcode, rule_outcome isOpcode success⟩
  · exact absurd success throw_eq_ok

end Lower

end Dalvik
