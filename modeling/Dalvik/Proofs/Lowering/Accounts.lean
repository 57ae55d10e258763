import Dalvik.Proofs.Body.Operands
import Dalvik.Proofs.Lowering.ArrayTypes
import Dalvik.Typing.Solution

/-!
# Accounting for slots

Each slot of a lowered statement has its contract recorded, the operands of a statement
that must have one kind are linked, and values at places with a declared type are bound to
its kind.
-/

namespace Dalvik

/-! ## Declared types -/

namespace Current

def fieldKind (context : LoweringContext) (current : Current) : Option Kind := do
  let field ← current.item? context.pool.field
  Kind.ofType field.type

def filledKind (context : LoweringContext) (current : Current) : Option Kind := do
  let type ← current.item? context.pool.type
  Kind.ofType (← type.element?)

def elementKind (context : LoweringContext) (known : ArrayTypes) (current : Current) : Option Kind :=
  (current.elementType context known).bind Kind.ofType

def returnKind (context : LoweringContext) : Option Kind := do
  let method ← (context.pool.method context.code.method).toOption
  Kind.ofType method.prototype.ret

/-- The kinds of what a call passes: the receiver, unless the call is static, and the
arguments of the method. -/
def passedKinds (context : LoweringContext) (current : Current) : List (Option Kind) :=
  let receiver :=
    if (InvokeKind.ofMnemonic? current.opcode.mnemonic).elim false InvokeKind.hasReceiver then
      [some .object]
    else []
  receiver ++ (current.item? context.pool.method).elim [] fun method => method.prototype.params.map Kind.ofType

/-- The kinds that are declared for what an instruction reads, in the order of its reads. -/
def declaredReads (context : LoweringContext) (known : ArrayTypes) (current : Current) :
    List (Option Kind) :=
  match current.opcode.family with
  | .returnValue => [returnKind context]
  | .invoke => current.passedKinds context
  | .filledNewArray => current.instruction.regs.map fun _ => current.filledKind context
  | .iput | .sput => [current.fieldKind context]
  | .aput => [current.elementKind context known]
  | _ => []

/-- The kind that is declared for what an instruction, or the `move-result` it takes over,
writes. -/
def declaredWrite (context : LoweringContext) (known : ArrayTypes) (current : Current) :
    Option Kind :=
  match current.opcode.family with
  | .iget | .sget => current.fieldKind context
  | .invoke | .filledNewArray => current.instruction.resultKind context.pool
  | .aget => current.elementKind context known
  | _ => none

end Current

namespace Lower

variable {context : LoweringContext} {current : Current} {known : ArrayTypes} {final : LoweringState}

/-! ## Statements -/

/-- An operand of a lowered statement: a slot, a constant, or a literal whose peer can be of
several kinds, the default one among them. -/
inductive OperandStated (context : LoweringContext) (final : LoweringState) : Operand Slot → Prop where
  | var {slot : Slot} (stated : Stated context final slot) : OperandStated context final (.var slot)
  | constant (constant : Constant) : OperandStated context final (.constant constant)
  | literal {bits : UInt64} {wide : Bool} {peer : Slot} (stated : Stated context final peer)
      (several : peer.contract.single = none)
      (fallback : peer.contract.contains (defaultKind peer.contract.width) = true) :
      OperandStated context final (.literal bits wide peer)

/-- The two sides of a comparison: slots of one contract, or a slot and the zero of its kind. -/
inductive Comparable (final : LoweringState) : Operand Slot → Operand Slot → Prop where
  | slots {left right : Slot} (same : left.contract = right.contract)
      (linked : Linked final left.value right.value) : Comparable final (.var left) (.var right)
  | zero {left : Slot} {wide : Bool} : Comparable final (.var left) (.literal 0 wide left)

/-- What is assigned to a slot as it is: a slot of its contract, a literal that takes its
kind, or a constant of its kind. -/
inductive Assignable (final : LoweringState) (dest : Slot) : Operand Slot → Prop where
  | slot {source : Slot} (same : dest.contract = source.contract)
      (linked : Linked final dest.value source.value) : Assignable final dest (.var source)
  | literal {bits : UInt64} {wide : Bool} (number : bits = 0 ∨ dest.contract.object = false) :
      Assignable final dest (.literal bits wide dest)
  | constant {constant : Constant} (same : dest.contract = .ofKind constant.kind) :
      Assignable final dest (.constant constant)

/-- Operands that must have one kind are linked. -/
def Balanced (final : LoweringState) : Statement Slot → Prop
  | .branch _ left right _ => Comparable final left right
  | .assign (.var dest) (.use operand) => Assignable final dest operand
  | _ => True

/-- What the final state says of the slots of a lowered statement. -/
structure Sound (context : LoweringContext) (final : LoweringState) (statement : Statement Slot) :
    Prop where
  operands : ∀ operand ∈ statement.operands, OperandStated context final operand
  written : ∀ slot, statement.written = some slot → Stated context final slot
  balanced : Balanced final statement

/-- The slots that a statement reads are operands of it. -/
theorem Sound.operand_of_use {statement : Statement Slot} (sound : Sound context final statement)
    {slot : Slot} (isUse : slot ∈ statement.uses) : .var slot ∈ statement.operands := by
  rw [Statement.uses_eq_flatMap] at isUse
  obtain ⟨operand, isOperand, inOperand⟩ := List.mem_flatMap.mp isUse
  cases sound.operands operand isOperand with
  | var _ => exact List.mem_singleton.mp inOperand ▸ isOperand
  | constant _ | literal _ _ _ => cases inOperand

/-- The slots that a statement reads are stated. -/
theorem Sound.stated {statement : Statement Slot} (sound : Sound context final statement) {slot : Slot}
    (isUse : slot ∈ statement.uses) : Stated context final slot := by
  cases sound.operands _ (sound.operand_of_use isUse) with
  | var stated => exact stated

/-- Each value at a place with a declared kind is bound to it. -/
structure Typed (final : LoweringState) (reads : List (Option Kind)) (result : Option Kind)
    (statements : List (Statement Slot)) : Prop where
  reads : ∀ (position : Nat) slot kind, (statements.flatMap Statement.uses)[position]? = some slot →
    reads[position]? = some (some kind) → Restricts final slot.value (.ofKind kind)
  written : ∀ statement ∈ statements, ∀ slot kind, statement.written = some slot →
    result = some kind → Restricts final slot.value (.ofKind kind)

/-- What a rule accounts for in the statements that it makes. -/
structure Accounts (context : LoweringContext) (final : LoweringState) (reads : List (Option Kind))
    (result : Option Kind) (statements : List (Statement Slot)) : Prop where
  sound : ∀ statement ∈ statements, Sound context final statement
  typed : Typed final reads result statements

theorem Accounts.nothing {reads : List (Option Kind)} {result : Option Kind} :
    Accounts context final reads result [] where
  sound _ member := by cases member
  typed :=
    { reads _ _ _ isUse := by cases isUse
      written _ member := by cases member }

/-- One statement at places without declared types. -/
theorem Accounts.untyped {statement : Statement Slot} (sound : Sound context final statement) :
    Accounts context final [] none [statement] where
  sound := List.forall_mem_singleton.mpr sound
  typed :=
    { reads _ _ _ _ isKind := by cases isKind
      written _ _ _ _ _ isKind := by cases isKind }

/-- One statement that assigns to a slot, which has the kind that is declared for it. -/
theorem Accounts.typedWrite {dest : Slot} {value : Expression Slot} {result : Option Kind}
    (sound : Sound context final (.assign (.var dest) value))
    (restricts : ∀ kind, result = some kind → Restricts final dest.value (.ofKind kind)) :
    Accounts context final [] result (assign dest value) where
  sound := List.forall_mem_singleton.mpr sound
  typed :=
    { reads _ _ _ _ isKind := by cases isKind
      written := by
        refine List.forall_mem_singleton.mpr fun slot kind isDest isKind => ?_
        obtain rfl := Option.some.inj isDest
        exact restricts kind isKind }

/-- One statement that defines nothing and first reads a slot, which has the kind that is
declared for it. -/
theorem Accounts.typedRead {statement : Statement Slot} {slot : Slot} {others : List Slot}
    {kind : Option Kind} (sound : Sound context final statement) (uses : statement.uses = slot :: others)
    (nothing : statement.written = none)
    (restricts : ∀ own, kind = some own → Restricts final slot.value (.ofKind own)) :
    Accounts context final [kind] none [statement] where
  sound := List.forall_mem_singleton.mpr sound
  typed :=
    { reads position own ownKind isUse isKind := by
        obtain ⟨rfl, isOwn⟩ : position = 0 ∧ kind = some ownKind := by
          cases position with
          | zero => exact ⟨rfl, Option.some.inj isKind⟩
          | succ position => cases isKind
        rw [List.flatMap_singleton, uses] at isUse
        exact Option.some.inj isUse ▸ restricts ownKind isOwn
      written := by
        refine List.forall_mem_singleton.mpr fun slot kind written _ => ?_
        rw [nothing] at written
        cases written }

/-- What is bound to a kind has the kind that is declared, if this is the one. -/
theorem Bound.restricts_of {kind : Kind} {slot : Slot} {declared : Option Kind}
    (isBound : Bound context final kind slot) (isDeclared : declared = some kind) :
    ∀ own, declared = some own → Restricts final slot.value (.ofKind own) := by
  intro own isOwn
  obtain rfl := Option.some.inj (isDeclared.symm.trans isOwn)
  exact isBound.restricts

/-- A statement that computes the value it assigns to a slot. -/
theorem Sound.computes {dest : Slot} {value : Expression Slot} (stated : Stated context final dest)
    (operands : ∀ operand ∈ value.operands, OperandStated context final operand)
    (fresh : ∀ operand, value ≠ .use operand) : Sound context final (.assign (.var dest) value) where
  operands operand member := operands operand (by simpa [Statement.operands, Destination.operands] using member)
  written slot isDest := Option.some.inj isDest ▸ stated
  balanced := by
    cases value with
    | use operand => exact absurd rfl (fresh operand)
    | _ => trivial

/-- One statement that computes a value for a slot that is written. -/
theorem Accounts.computes {dest : Slot} {value : Expression Slot} {contract : KindSet}
    (held : Held context final contract dest)
    (operands : ∀ operand ∈ value.operands, OperandStated context final operand)
    (fresh : ∀ operand, value ≠ .use operand) :
    Accounts context final [] none (assign dest value) :=
  .untyped (.computes held.stated operands fresh)

/-- The operand of one slot, and those of two. -/
theorem stated_one {contract : KindSet} {slot : Slot} (held : Held context final contract slot) :
    ∀ operand ∈ [Operand.var slot], OperandStated context final operand :=
  List.forall_mem_singleton.mpr (.var held.stated)

theorem stated_two {contract otherContract : KindSet} {slot other : Slot}
    (held : Held context final contract slot) (heldOther : Held context final otherContract other) :
    ∀ operand ∈ [Operand.var slot, .var other], OperandStated context final operand :=
  List.forall_mem_cons.mpr ⟨.var held.stated, stated_one heldOther⟩

/-- A statement that assigns an operand to a slot. -/
theorem Sound.copies {dest : Slot} {operand : Operand Slot} (stated : Stated context final dest)
    (isStated : OperandStated context final operand) (assignable : Assignable final dest operand) :
    Sound context final (.assign (.var dest) (.use operand)) where
  operands := List.forall_mem_singleton.mpr isStated
  written _ isDest := Option.some.inj isDest ▸ stated
  balanced := assignable

/-- A statement that defines nothing. -/
theorem Sound.reads {statement : Statement Slot}
    (operands : ∀ operand ∈ statement.operands, OperandStated context final operand)
    (nothing : statement.written = none) (balanced : Balanced final statement) :
    Sound context final statement where
  operands := operands
  written _ isDest := by
    rw [nothing] at isDest
    cases isDest
  balanced := balanced

/-! ## The widths that opcodes define -/

theorem definedWidth_own (own : current.opcode.family ∈ [Family.move, .moveResult, .const, .aget,
    .iget, .sget, .neg, .not, .binop, .binop2addr, .binopLit]) :
    definedWidth current.opcode = some current.contract.width := by
  rw [current.width_contract, Opcode.width, definedWidth]
  simp only [List.mem_cons, List.not_mem_nil, or_false] at own
  rcases own with family | family | family | family | family | family | family | family | family |
    family | family <;> rw [family]

theorem definedWidth_narrow (narrow : current.opcode.family ∈ [Family.moveException, .constString,
    .constClass, .checkCast, .instanceOf, .arrayLength, .newInstance, .newArray, .cmp]) :
    definedWidth current.opcode = some .narrow := by
  rw [definedWidth]
  simp only [List.mem_cons, List.not_mem_nil, or_false] at narrow
  rcases narrow with family | family | family | family | family | family | family | family |
    family <;> rw [family]

/-- Constants are untyped, of either width. -/
theorem kind_of_const {opcode : Opcode} (family : opcode.family = .const) :
    opcode.kind = some .narrow ∨ opcode.kind = some .wide := by
  cases opcode <;> first | exact .inl rfl | exact .inr rfl | cases family

/-! ## Rules -/

section

variable (sourced : context.Sourced) (listed : current.Listed context)
include sourced listed

/-- What is computed from the second register. -/
theorem ensures_compute {source dest : KindSet} {value : Operand Slot → Expression Slot} {pre : Prop}
    (defined : definedWidth current.opcode = some dest.width)
    (operands : ∀ slot, (value (.var slot)).operands = [.var slot])
    (fresh : ∀ slot operand, value (.var slot) ≠ .use operand) :
    Ensures context final pre (compute context current source dest value)
      (Accounts context final [] none) := by
  unfold compute
  refine .bind (ensures_read sourced) fun slot => ?_
  refine .bind (ensures_write sourced listed defined) fun bound => .pure ?_
  rintro ⟨⟨-, isSource⟩, isDest⟩
  refine .computes isDest ?_ (fresh slot)
  rw [operands]
  exact stated_one isSource

/-- What an item of the pool stands for. -/
theorem ensures_loadItem {kind : ReferenceKind} {value : Nat → Expression Slot}
    (defined : definedWidth current.opcode = some object.width)
    (sound : ∀ index dest, Held context final object dest →
      Sound context final (.assign (.var dest) (value index))) :
    Ensures context final True (loadItem context current kind value)
      (Accounts context final [] none) := by
  unfold loadItem
  refine .bind (.lift _) fun index => ?_
  refine .bind (ensures_write sourced listed defined) fun dest => .pure ?_
  exact fun ⟨_, isDest⟩ => .untyped (sound index dest isDest)

/-! ### Moves and constants -/

theorem ensures_move (family : current.opcode.family = .move) :
    Ensures context final True (move context current) (Accounts context final [] none) := by
  have defined : definedWidth current.opcode = some (moveContract current).width := by
    rw [width_moveContract, ← current.width_contract]
    exact definedWidth_own (by simp [family])
  unfold move
  refine .bind (ensures_readArray sourced) fun ⟨source, type⟩ => ?_
  refine .bind (ensures_write sourced listed defined) fun dest => ?_
  refine .bind (ensures_sameKind fun ⟨⟨_, isSource⟩, isDest⟩ => ⟨isDest, isSource⟩) fun _ => ?_
  have done : ((True ∧ Held context final (moveContract current) source) ∧
      Held context final (moveContract current) dest) ∧ Linked final dest.value source.value →
      Accounts context final [] none (assign dest (.use (.var source))) := by
    rintro ⟨⟨⟨-, isSource⟩, isDest⟩, linked⟩
    have same : dest.contract = source.contract := isDest.same.trans isSource.same.symm
    exact .untyped (.copies isDest.stated (.var isSource.stated) (.slot same linked))
  cases type with
  | none => exact .pure done
  | some type => exact .bind ensures_declare fun _ => .pure fun ⟨moved, _⟩ => done moved

theorem ensures_moveResult (family : current.opcode.family = .moveResult) :
    Ensures context final True (moveResult context current) (Accounts context final [] none) := by
  unfold moveResult
  refine .bind .get fun state => ?_
  split
  · exact .pure fun _ => .nothing
  · have defined := @definedWidth_own current (by simp [family])
    refine .bind (ensures_write sourced listed defined) fun _ => .pure fun _ => .untyped ?_
    exact .reads (fun _ member => by cases member) rfl trivial

theorem ensures_moveException (family : current.opcode.family = .moveException) :
    Ensures context final True (moveException context current) (Accounts context final [] none) := by
  intro before statements after success
  simp only [moveException, bind_eq_ok, lift_eq_ok, reg_eq_ok, Prod.mk.injEq] at success
  obtain ⟨_, _, ⟨reg, first, rfl, rfl⟩, success⟩ := success
  have defined : definedWidth current.opcode = some object.width :=
    definedWidth_narrow (by simp [family])
  refine Ensures.bind (ensures_writeOwn sourced listed first defined) (fun dest => .pure ?_) _ _ _
    (bind_eq_ok.mpr success)
  rintro ⟨-, isDest⟩
  exact .untyped
    { operands _ member := by cases member
      written slot isOwn := Option.some.inj isOwn ▸ isDest.stated
      balanced := trivial }

omit listed in
theorem ensures_returnValue (family : current.opcode.family = .returnValue) :
    Ensures context final True (returnValue context current)
      (Accounts context final (current.declaredReads context known) none) := by
  unfold returnValue
  refine .bind (.lift _) fun method => ?_
  refine .bind (.lift _) fun kind => ?_
  refine .bind (ensures_readDeclared sourced) fun value => .pure ?_
  rintro ⟨⟨⟨-, isMethod⟩, isKind⟩, isBound⟩
  have declared : Current.returnKind context = some kind := by
    rw [Current.returnKind, liftCode_eq_ok.mp isMethod, ← ofType_of_declaredKind isKind]
    rfl
  rw [Current.declaredReads, family]
  refine .typedRead (.reads ?_ rfl trivial) rfl rfl (isBound.restricts_of declared)
  exact List.forall_mem_singleton.mpr (.var isBound.stated)

theorem ensures_const (family : current.opcode.family = .const) :
    Ensures context final True (const context current) (Accounts context final [] none) := by
  unfold const
  refine .bind (.lift _) fun literal => ?_
  obtain ⟨width, number, several, fallback⟩ :
      (literalBits (current.contract == .wide) literal).2.width = current.contract.width ∧
      ((literalBits (current.contract == .wide) literal).1 = 0 ∨
        (literalBits (current.contract == .wide) literal).2.object = false) ∧
      (literalBits (current.contract == .wide) literal).2.single = none ∧
      (literalBits (current.contract == .wide) literal).2.contains
        (defaultKind (literalBits (current.contract == .wide) literal).2.width) = true := by
    rcases kind_of_const family with kind | kind
    · have contract : current.contract = .narrowNumber := by
        rw [Current.contract, kind]
        rfl
      have isNarrow : (KindSet.narrowNumber == KindSet.wide) = false := by decide
      rw [contract, literalBits, isNarrow, if_neg Bool.false_ne_true]
      split
      · exact ⟨rfl, .inl rfl, rfl, rfl⟩
      · exact ⟨rfl, .inr rfl, rfl, rfl⟩
    · have contract : current.contract = .wide := by
        rw [Current.contract, kind]
        rfl
      rw [contract, literalBits, if_pos (beq_self_eq_true _)]
      exact ⟨rfl, .inr rfl, rfl, rfl⟩
  have defined := @definedWidth_own current (by simp [family])
  refine .bind (ensures_write sourced listed (width.symm ▸ defined)) fun dest => .pure ?_
  rintro ⟨-, isDest⟩
  refine .untyped (.copies isDest.stated (.literal isDest.stated ?_ ?_) (.literal ?_))
  · rwa [isDest.same]
  · rwa [isDest.same]
  · rwa [isDest.same]

/-! ### Arithmetic -/

theorem ensures_not (family : current.opcode.family = .not) :
    Ensures context final True (Lower.not context current) (Accounts context final [] none) := by
  have defined := @definedWidth_own current (by simp [family])
  unfold Lower.not
  refine .bind (ensures_read sourced) fun source => ?_
  refine .bind (ensures_write sourced listed defined) fun dest => ?_
  refine .bind (ensures_sameKind fun ⟨⟨_, isSource⟩, isDest⟩ => ⟨isDest, isSource⟩) fun _ => .pure ?_
  rintro ⟨⟨⟨-, isSource⟩, isDest⟩, -⟩
  refine .computes isDest (List.forall_mem_cons.mpr ⟨.var isSource.stated, ?_⟩) (by simp)
  exact List.forall_mem_singleton.mpr (.constant _)

theorem ensures_convert (family : current.opcode.family = .convert) :
    Ensures context final True (convert context current) (Accounts context final [] none) := by
  unfold convert
  split
  · rename_i target isTarget
    have defined : definedWidth current.opcode = some (KindSet.ofOperand target).width := by
      rw [definedWidth, family, isTarget]
      cases target <;> rfl
    split
    · exact ensures_compute sourced listed defined (fun _ => rfl) (by simp)
    · exact .fails _
  · exact .fails _

omit listed in
theorem ensures_readBoth {first second : Nat} {left right : KindSet} {pre : Prop} :
    Ensures context final pre (readBoth context current first second left right) fun operands =>
      OperandStated context final operands.1 ∧ OperandStated context final operands.2 := by
  unfold readBoth
  refine .bind (ensures_read sourced) fun _ => ?_
  refine .bind (ensures_read sourced) fun _ => .pure ?_
  exact fun ⟨⟨_, isLeft⟩, isRight⟩ => ⟨.var isLeft.stated, .var isRight.stated⟩

omit listed in
/-- The operands of arithmetic are the slots that are read, and literals. -/
theorem ensures_binaryOperands (op : BinaryOp) :
    Ensures context final True (binaryOperands context current op) fun operands =>
      OperandStated context final operands.1 ∧ OperandStated context final operands.2 := by
  unfold binaryOperands
  dsimp only
  split
  · exact ensures_readBoth sourced
  · exact ensures_readBoth sourced
  · refine .bind (ensures_read sourced) fun source => ?_
    refine .bind (.lift _) fun literal => ?_
    split
    · exact .pure fun ⟨⟨_, isSource⟩, _⟩ => ⟨.constant _, .var isSource.stated⟩
    · exact .pure fun ⟨⟨_, isSource⟩, _⟩ => ⟨.var isSource.stated, .constant _⟩

theorem ensures_binary (family : current.opcode.family = .binop ∨
      current.opcode.family = .binop2addr ∨ current.opcode.family = .binopLit) :
    Ensures context final True (binary context current) (Accounts context final [] none) := by
  have defined : definedWidth current.opcode = some current.contract.width := by
    refine definedWidth_own ?_
    rcases family with family | family | family <;> simp [family]
  unfold binary
  split
  · refine .bind (ensures_binaryOperands sourced _) fun ⟨left, right⟩ => ?_
    refine .bind (ensures_write sourced listed defined) fun dest => .pure ?_
    rintro ⟨⟨-, isLeft, isRight⟩, isDest⟩
    refine .computes isDest (List.forall_mem_cons.mpr ⟨isLeft, ?_⟩) (by simp)
    exact List.forall_mem_singleton.mpr isRight
  · exact .fails _

theorem ensures_cmp (family : current.opcode.family = .cmp) :
    Ensures context final True (cmp context current) (Accounts context final [] none) := by
  have defined : definedWidth current.opcode = some (KindSet.ofKind .int).width :=
    definedWidth_narrow (by simp [family])
  unfold cmp
  split
  · refine .bind (ensures_readBoth sourced) fun ⟨left, right⟩ => ?_
    refine .bind (ensures_write sourced listed defined) fun dest => .pure ?_
    rintro ⟨⟨-, isLeft, isRight⟩, isDest⟩
    refine .computes isDest (List.forall_mem_cons.mpr ⟨isLeft, ?_⟩) (by simp)
    exact List.forall_mem_singleton.mpr isRight
  · exact .fails _

/-! ### Branches -/

omit listed

omit sourced in
theorem several_comparable (op : Comparison) : (comparable op).single = none ∧
    (comparable op).contains (defaultKind (comparable op).width) = true := by
  unfold comparable
  split <;> exact ⟨rfl, rfl⟩

theorem ensures_branch :
    Ensures context final True (branch context current) (Accounts context final [] none) := by
  unfold branch
  refine .bind (.lift _) fun op => ?_
  refine .bind (.lift _) fun target => ?_
  refine .bind (ensures_read sourced) fun left => ?_
  refine .bind (ensures_read sourced) fun right => ?_
  refine .bind (ensures_sameKind fun ⟨⟨_, isLeft⟩, isRight⟩ => ⟨isLeft, isRight⟩) fun _ => .pure ?_
  rintro ⟨⟨⟨-, isLeft⟩, isRight⟩, linked⟩
  have same : left.contract = right.contract := isLeft.same.trans isRight.same.symm
  exact .untyped (.reads (stated_two isLeft isRight) rfl (.slots same linked))

theorem ensures_branchZero :
    Ensures context final True (branchZero context current) (Accounts context final [] none) := by
  unfold branchZero
  refine .bind (.lift _) fun op => ?_
  refine .bind (.lift _) fun target => ?_
  refine .bind (ensures_read sourced) fun left => .pure ?_
  rintro ⟨-, held⟩
  obtain ⟨several, fallback⟩ := several_comparable op
  rw [← held.same] at several fallback
  refine .untyped (.reads (List.forall_mem_cons.mpr ⟨.var held.stated, ?_⟩) rfl .zero)
  exact List.forall_mem_singleton.mpr (.literal held.stated several fallback)

omit sourced in
theorem ensures_goto :
    Ensures context final True (goto current) (Accounts context final [] none) := by
  unfold goto
  refine .bind (.lift _) fun target => .pure fun _ => .untyped ?_
  exact .reads (fun _ member => by cases member) rfl trivial

omit sourced in
theorem ensures_mapM {α β : Type} {act : α → Lower β} {list : List α} {pre : Prop}
    (each : ∀ item pre, Ensures context final pre (act item) fun _ => True) :
    Ensures context final pre (list.mapM act) fun _ => True := by
  induction list generalizing pre with
  | nil => exact .pure fun _ => trivial
  | cons item rest ih =>
      rw [List.mapM_cons]
      refine .bind (each item _) fun _ => ?_
      refine .bind ih fun _ => ?_
      exact .pure fun _ => trivial

theorem ensures_switch :
    Ensures context final True (switch context current) (Accounts context final [] none) := by
  unfold switch
  split
  · refine .bind (ensures_mapM fun item pre => ?_) fun cases => ?_
    · refine .bind (.lift _) fun target => ?_
      exact .pure fun _ => trivial
    refine .bind (ensures_read sourced) fun key => .pure ?_
    exact fun ⟨_, isKey⟩ => .untyped (.reads (stated_one isKey) rfl trivial)
  · exact .fails _

/-! ### Objects -/

/-- What monitors and `throw` make of an object. -/
theorem ensures_useObject {use : Operand Slot → Statement Slot}
    (operands : ∀ slot, (use (.var slot)).operands = [.var slot])
    (nothing : ∀ slot, (use (.var slot)).written = none)
    (balanced : ∀ slot, Balanced final (use (.var slot))) :
    Ensures context final True (useObject context current use) (Accounts context final [] none) := by
  unfold useObject
  refine .bind (ensures_read sourced) fun value => .pure ?_
  rintro ⟨-, isValue⟩
  refine .untyped (.reads ?_ (nothing value) (balanced value))
  rw [operands]
  exact stated_one isValue

theorem ensures_fillArrayData :
    Ensures context final True (fillArrayData context current) (Accounts context final [] none) := by
  unfold fillArrayData
  split
  · refine .bind (ensures_readArray sourced) fun ⟨array, type⟩ => .pure ?_
    exact fun ⟨_, isArray⟩ => .untyped (.reads (stated_one isArray) rfl trivial)
  · exact .fails _

include listed

/-- An object of a type of the pool. -/
theorem ensures_makeTyped {position : Nat} {contract : KindSet}
    {value : Nat → Operand Slot → Expression Slot}
    (defined : definedWidth current.opcode = some object.width)
    (operands : ∀ index slot, (value index (.var slot)).operands = [.var slot])
    (fresh : ∀ index slot operand, value index (.var slot) ≠ .use operand) :
    Ensures context final True (makeTyped context current position contract value)
      (Accounts context final [] none) := by
  unfold makeTyped
  refine .bind (.lift _) fun index => ?_
  refine .bind (ensures_read sourced) fun source => ?_
  refine .bind (ensures_write sourced listed defined) fun dest => ?_
  refine .bind (.lift _) fun type => ?_
  refine .bind ensures_declare fun _ => .pure ?_
  rintro ⟨⟨⟨⟨-, isSource⟩, isDest⟩, -⟩, -⟩
  refine .computes isDest ?_ (fresh index source)
  rw [operands]
  exact stated_one isSource

theorem ensures_instanceOf (family : current.opcode.family = .instanceOf) :
    Ensures context final True (instanceOf context current) (Accounts context final [] none) := by
  have defined : definedWidth current.opcode = some (KindSet.ofKind .int).width :=
    definedWidth_narrow (by simp [family])
  unfold instanceOf
  refine .bind (.lift _) fun index => ?_
  exact ensures_compute sourced listed defined (fun _ => rfl) (by simp)

/-! ### Fields -/

omit sourced listed in
theorem fieldKind_of_fieldAccess {field : Nat} {type : Descriptor} {kind : Kind}
    (found : fieldAccess context current = .ok (field, type, kind)) :
    current.fieldKind context = some kind := by
  obtain ⟨isType, isKind⟩ := field_of_fieldAccess found
  obtain ⟨own, isField, rfl⟩ := Option.map_eq_some_iff.mp isType
  rw [Current.fieldKind, isField]
  exact isKind

theorem ensures_iget (family : current.opcode.family = .iget) :
    Ensures context final True (iget context current)
      (Accounts context final [] (current.declaredWrite context known)) := by
  have defined := @definedWidth_own current (by simp [family])
  unfold iget
  refine .bind (.lift _) fun ⟨field, type, kind⟩ => ?_
  refine .bind (ensures_read sourced) fun source => ?_
  refine .bind (ensures_writeDeclared sourced listed defined) fun dest => .pure ?_
  rintro ⟨⟨⟨-, found⟩, isSource⟩, isBound⟩
  rw [Current.declaredWrite, family]
  refine .typedWrite (.computes isBound.stated ?_ (by simp)) ?_
  · exact stated_one isSource
  · exact isBound.restricts_of (fieldKind_of_fieldAccess found)

theorem ensures_sget (family : current.opcode.family = .sget) :
    Ensures context final True (sget context current)
      (Accounts context final [] (current.declaredWrite context known)) := by
  have defined := @definedWidth_own current (by simp [family])
  unfold sget
  refine .bind (.lift _) fun ⟨field, type, kind⟩ => ?_
  refine .bind (ensures_writeDeclared sourced listed defined) fun dest => .pure ?_
  rintro ⟨⟨-, found⟩, isBound⟩
  rw [Current.declaredWrite, family]
  refine .typedWrite (.computes isBound.stated ?_ (by simp)) ?_
  · exact fun _ member => by cases member
  · exact isBound.restricts_of (fieldKind_of_fieldAccess found)

omit listed

theorem ensures_iput (family : current.opcode.family = .iput) :
    Ensures context final True (iput context current)
      (Accounts context final (current.declaredReads context known) none) := by
  unfold iput
  refine .bind (.lift _) fun ⟨field, type, kind⟩ => ?_
  refine .bind (ensures_readDeclared sourced) fun value => ?_
  refine .bind (ensures_read sourced) fun target => .pure ?_
  rintro ⟨⟨⟨-, found⟩, isBound⟩, isTarget⟩
  rw [Current.declaredReads, family]
  refine .typedRead (.reads ?_ rfl trivial) rfl rfl
    (isBound.restricts_of (fieldKind_of_fieldAccess found))
  exact List.forall_mem_cons.mpr ⟨.var isBound.stated, stated_one isTarget⟩

theorem ensures_sput (family : current.opcode.family = .sput) :
    Ensures context final True (sput context current)
      (Accounts context final (current.declaredReads context known) none) := by
  unfold sput
  refine .bind (.lift _) fun ⟨field, type, kind⟩ => ?_
  refine .bind (ensures_readDeclared sourced) fun value => .pure ?_
  rintro ⟨⟨-, found⟩, isBound⟩
  rw [Current.declaredReads, family]
  refine .typedRead (.reads ?_ rfl trivial) rfl rfl
    (isBound.restricts_of (fieldKind_of_fieldAccess found))
  exact List.forall_mem_singleton.mpr (.var isBound.stated)

/-! ### Array elements -/

theorem ensures_elementAccess {pre : Prop} :
    Ensures context final pre (elementAccess context current) fun access =>
      Held context final object access.1 ∧ Held context final (.ofKind .int) access.2.1 := by
  unfold elementAccess
  refine .bind (ensures_readArray sourced) fun ⟨array, type⟩ => ?_
  refine .bind (ensures_read sourced) fun index => .pure ?_
  exact fun ⟨⟨_, isArray⟩, isIndex⟩ => ⟨isArray, isIndex⟩

/-- The kind of an element is that of its declared type, where this is known. -/
theorem aput_from (family : current.opcode.family = .aput) {before : LoweringState}
    (remembers : Remembers known before) :
    EnsuresFrom context final before True (aput context current)
      (Accounts context final (current.declaredReads context known) none) := by
  unfold aput
  refine .bind (ensures_read sourced before) fun value middle reads => ?_
  refine .bind (ensures_elementAccess sourced middle) fun ⟨array, index, element⟩ last access => ?_
  obtain ⟨-, isElement⟩ := elementAccess_types (remembers.asks asks_read reads) access
  rw [Current.declaredReads, family]
  dsimp only [Current.elementKind]
  rw [← isElement]
  have operands : ∀ {bound : Slot}, Stated context final bound →
      Held context final object array → Held context final (.ofKind .int) index →
      ∀ operand ∈ [Operand.var bound, .var array, .var index], OperandStated context final operand :=
    fun stated isArray isIndex => List.forall_mem_cons.mpr ⟨.var stated, stated_two isArray isIndex⟩
  cases element with
  | none =>
      refine Ensures.pure ?_ last
      rintro ⟨⟨-, isValue⟩, isArray, isIndex⟩
      refine .typedRead (.reads (operands isValue.stated isArray isIndex) rfl trivial) rfl rfl ?_
      exact fun _ impossible => by cases impossible
  | some element =>
      refine Ensures.bind (.lift _) (fun kind => ?_) last
      refine .bind (ensures_anchorElement fun ⟨⟨⟨_, isValue⟩, _⟩, _⟩ => isValue) fun bound => .pure ?_
      rintro ⟨⟨⟨-, isArray, isIndex⟩, isKind⟩, isBound⟩
      refine .typedRead (.reads (operands isBound.stated isArray isIndex) rfl trivial) rfl rfl ?_
      exact isBound.restricts_of (ofType_of_declaredKind isKind)

include listed

theorem aget_from (family : current.opcode.family = .aget) {before : LoweringState}
    (remembers : Remembers known before) :
    EnsuresFrom context final before True (aget context current)
      (Accounts context final [] (current.declaredWrite context known)) := by
  have defined := @definedWidth_own current (by simp [family])
  unfold aget
  refine .bind (ensures_elementAccess sourced before) fun ⟨array, index, element⟩ middle access => ?_
  refine .bind (ensures_write sourced listed defined middle) fun dest last _ => ?_
  obtain ⟨-, isElement⟩ := elementAccess_types remembers access
  rw [Current.declaredWrite, family]
  dsimp only [Current.elementKind]
  rw [← isElement]
  cases element with
  | none =>
      refine Ensures.pure ?_ last
      rintro ⟨⟨-, isArray, isIndex⟩, isDest⟩
      refine .typedWrite (.computes isDest.stated (stated_two isArray isIndex) (by simp)) ?_
      exact fun _ impossible => by cases impossible
  | some element =>
      refine Ensures.bind (.lift _) (fun kind => ?_) last
      refine .bind (ensures_anchorElement fun ⟨⟨_, isDest⟩, _⟩ => isDest) fun bound => ?_
      refine .bind ensures_declare fun _ => .pure ?_
      rintro ⟨⟨⟨⟨⟨-, isArray, isIndex⟩, -⟩, isKind⟩, isBound⟩, -⟩
      refine .typedWrite (.computes isBound.stated (stated_two isArray isIndex) (by simp)) ?_
      exact isBound.restricts_of (ofType_of_declaredKind isKind)

end

end Lower

end Dalvik
