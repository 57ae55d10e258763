import Dalvik.Proofs.Lowering.Ensures
import Dalvik.Proofs.Typing.CheckedSplit

/-!
# What lowering records of slots

Slots come from reads and writes, which record their contracts, and a rule that changes a
contract records the new one first.  So the slots of all statements have their contracts
among the constraints, whatever is lowered and in whatever order.
-/

namespace Dalvik

namespace Lower

variable {α β : Type} {context : LoweringContext} {current : Current}
  {before after : LoweringState} {known : List Slot}

/-! ## Slots whose contracts are recorded -/

/-- A constraint allows the value of a slot just the kinds of its contract, unless the contract
only says a width. -/
def Noted (state : LoweringState) (slot : Slot) : Prop :=
  slot.contract.isWidthOnly = true ∨ Restricts state slot.value slot.contract

/-- What restricts a value to the kinds of a set: the one kind that it has, or a choice. -/
theorem restricts_iff {state : LoweringState} {value : Nat} {kinds : KindSet} :
    Restricts state value kinds ↔ ∃ entry ∈ state.recorded,
      entry.constraint = .oneOf value kinds ∨
        ∃ kind, kinds = .ofKind kind ∧ entry.constraint = .exactly value kind := by
  refine exists_congr fun entry => and_congr_right fun _ => ?_
  cases entry.constraint <;> simp [Constraint.owner, Constraint.kinds, eq_comm, and_comm]

/-- Values that are paired are there, and a constraint gives them one kind. -/
def PairsRecorded (state : LoweringState) : Prop :=
  ∀ pair ∈ state.merges,
    (pair.1 < state.values.values.length ∧ pair.2 < state.values.values.length) ∧
      ∃ entry ∈ state.recorded, entry.constraint = .sameAs pair.1 pair.2

/-- Values and constraints are only added, and what is paired is recorded. -/
structure Adds (before after : LoweringState) : Prop extends Grows before after where
  pairs : PairsRecorded before → PairsRecorded after

theorem Adds.refl (state : LoweringState) : Adds state state :=
  ⟨.refl state, id⟩

theorem Adds.trans {first second third : LoweringState} (one : Adds first second)
    (two : Adds second third) : Adds first third :=
  ⟨one.toGrows.trans two.toGrows, two.pairs ∘ one.pairs⟩

theorem Noted.mono {slot : Slot} (noted : Noted before slot) (grows : Grows before after) :
    Noted after slot := by
  refine noted.imp_right ?_
  rintro ⟨entry, listed, isConstraint⟩
  exact ⟨entry, grows.recorded.subset listed, isConstraint⟩

/-- What is paired stays recorded when values and constraints are added. -/
theorem Adds.of_grows (grows : Grows before after) (merges : after.merges = before.merges) :
    Adds before after where
  toGrows := grows
  pairs recorded pair member := by
    obtain ⟨⟨first, second⟩, entry, listed, same⟩ := recorded pair (merges ▸ member)
    have longer := grows.values.length_le
    exact ⟨⟨first.trans_le longer, second.trans_le longer⟩, entry, grows.recorded.subset listed, same⟩

/-- From a state in which some slots are noted, a step that succeeds only adds to the state, and
the slots of its result are noted. -/
def NotesFrom (before : LoweringState) (known : List Slot) (act : Lower α) (slots : α → List Slot) :
    Prop :=
  ∀ result after, act.run before = .ok (result, after) → Adds before after ∧
    ((∀ slot ∈ known, Noted before slot) → ∀ slot ∈ slots result, Noted after slot)

/-- A step that notes the slots of its result, from any state. -/
def Notes (known : List Slot) (act : Lower α) (slots : α → List Slot) : Prop :=
  ∀ before, NotesFrom before known act slots

/-- Slots that a first step has noted are there for the next one. -/
theorem NotesFrom.bind {one : α → List Slot} {two : β → List Slot} {first : Lower α}
    {next : α → Lower β} (isFirst : NotesFrom before known first one)
    (isNext : ∀ value middle, first.run before = .ok (value, middle) →
      NotesFrom middle (one value ++ known) (next value) two) :
    NotesFrom before known (first >>= next) two := by
  intro result after success
  obtain ⟨value, middle, head, tail⟩ := bind_eq_ok.mp success
  obtain ⟨adds, noted⟩ := isFirst value middle head
  obtain ⟨addsOn, notedOn⟩ := isNext value middle head result after tail
  refine ⟨adds.trans addsOn, fun before => notedOn (List.forall_mem_append.mpr ⟨noted before, ?_⟩)⟩
  exact fun slot member => (before slot member).mono adds.toGrows

namespace Notes

theorem pure {slots : α → List Slot} {value : α} (within : slots value ⊆ known) :
    Notes known (pure value) slots := by
  intro before result after success
  obtain ⟨rfl, rfl⟩ := Prod.mk.inj (pure_eq_ok.mp success)
  exact ⟨.refl _, fun noted slot member => noted slot (within member)⟩

theorem bind {one : α → List Slot} {two : β → List Slot} {first : Lower α} {next : α → Lower β}
    (isFirst : Notes known first one)
    (isNext : ∀ value, Notes (one value ++ known) (next value) two) :
    Notes known (first >>= next) two :=
  fun before => .bind (isFirst before) fun value middle _ => isNext value middle

/-- What may fail does nothing else. -/
theorem lift (outcome : Except LiftError α) :
    Notes known (liftM outcome : Lower α) fun _ => [] := by
  intro before result after success
  obtain ⟨_, -, same⟩ := lift_eq_ok.mp success
  obtain ⟨rfl, rfl⟩ := Prod.mk.inj same
  exact ⟨.refl _, fun _ _ member => by cases member⟩

theorem fails (error : LiftError) {slots : α → List Slot} :
    Notes known (throw error : Lower α) slots :=
  fun _ _ _ success => absurd success throw_eq_ok

theorem get : Notes known (get : Lower LoweringState) fun _ => [] := by
  intro before result after success
  obtain ⟨rfl, rfl⟩ := Prod.mk.inj (get_eq_ok.mp success)
  exact ⟨.refl _, fun _ _ member => by cases member⟩

/-- A change of what was taken over or of declared types. -/
theorem modify {change : LoweringState → LoweringState}
    (values : ∀ state, (change state).values = state.values)
    (recorded : ∀ state, (change state).recorded = state.recorded)
    (merges : ∀ state, (change state).merges = state.merges) :
    Notes known (modify change : Lower PUnit) fun _ => [] := by
  intro before result after success
  obtain ⟨-, rfl⟩ := Prod.mk.inj (modify_eq_ok.mp success)
  refine ⟨.of_grows ⟨?_, ?_⟩ (merges before), fun _ _ member => by cases member⟩
  · rw [values]
  · rw [recorded]

/-- A traversal notes the slots of all its results. -/
theorem mapM {act : α → Lower β} {slots : β → List Slot} {list : List α}
    (each : ∀ item known, Notes known (act item) slots) :
    Notes known (list.mapM act) fun results => results.flatMap slots := by
  induction list generalizing known with
  | nil => exact .pure (List.nil_subset _)
  | cons item rest ih =>
      rw [List.mapM_cons]
      refine .bind (each item _) fun value => ?_
      refine .bind ih fun values => ?_
      exact .pure (by simp)

end Notes

/-! ## Constraints -/

/-- A constraint that is recorded notes its value with the kinds that it allows. -/
theorem notes_record {place : Option Addr} {constraint : Constraint} {origin : Origin} :
    Notes known (record place constraint origin) fun _ =>
      constraint.kinds.toList.map fun kinds => ⟨constraint.owner, kinds⟩ := by
  intro before result after success
  obtain ⟨-, rfl⟩ := Prod.mk.inj (modify_eq_ok.mp success)
  refine ⟨.of_grows ⟨List.prefix_rfl, List.prefix_append _ _⟩ rfl, fun _ slot member => ?_⟩
  obtain ⟨kinds, isKinds, rfl⟩ := List.mem_map.mp member
  exact .inr ⟨_, List.mem_append_right _ List.mem_cons_self, rfl, Option.mem_toList.mp isKinds⟩

theorem notes_restrict {place : Addr} {value : Nat} {kinds : KindSet} {origin : Origin} :
    Notes known (restrict place value kinds origin) fun _ => [⟨value, kinds⟩] := by
  unfold restrict
  cases found : Constraint.restricting value kinds with
  | some constraint =>
      obtain ⟨owner, allowed⟩ := restricting_eq_some found
      have recorded := @notes_record known (some place) constraint origin
      rwa [owner, allowed] at recorded
  | none =>
      intro before result after success
      obtain ⟨-, rfl⟩ := Prod.mk.inj (pure_eq_ok.mp success)
      exact ⟨.refl _, fun _ => List.forall_mem_singleton.mpr (.inl (restricting_eq_none found))⟩

theorem notes_declare {value : Nat} {type : Descriptor} :
    Notes known (declare value type) fun _ => [] := by
  unfold declare
  split
  · exact .modify (fun _ => rfl) (fun _ => rfl) fun _ => rfl
  · exact .pure (List.nil_subset _)

theorem notes_sameKind {first second : Slot} :
    Notes known (sameKind current first second) fun _ => [] := by
  unfold sameKind
  split
  · exact .pure (List.nil_subset _)
  · exact notes_record

theorem notes_anchor {slot : Slot} {kind : Kind} :
    Notes known (anchor current slot kind) fun bound => [bound] := by
  unfold anchor
  refine .bind notes_record fun _ => ?_
  exact .pure (List.subset_append_left _ _)

/-- An element keeps its contract if the declared kind has another width. -/
theorem notes_anchorElement {slot : Slot} {kind : Kind} (isKnown : slot ∈ known) :
    Notes known (anchorElement current slot kind) fun bound => [bound] := by
  unfold anchorElement
  refine .bind notes_anchor fun bound => .pure ?_
  split <;> simp [isKnown]

/-! ## Reads and writes -/

theorem notes_resolve {reg : Reg} {width : Width} :
    Notes known (resolve context current reg width) fun _ => [] := by
  intro before resolved after success
  obtain ⟨added, merges, -⟩ := resolve_spec success
  simp only [resolve, bind_eq_ok, get_eq_ok, set_eq_ok, pure_eq_ok, Prod.mk.injEq] at success
  obtain ⟨_, _, ⟨rfl, rfl⟩, _, _, ⟨-, rfl⟩, -, rfl⟩ := success
  exact ⟨.of_grows ⟨added, List.prefix_rfl⟩ merges, fun _ _ member => by cases member⟩

/-- The values of a read are there. -/
theorem lt_of_resolve {reg : Reg} {width : Width} {resolved : ValueFile.Resolved}
    (success : (resolve context current reg width).run before = .ok (resolved, after)) :
    ∀ value ∈ resolved.value :: resolved.aliases, value < after.values.values.length := by
  obtain ⟨-, -, ⟨-, alone, _, found, -⟩ | ⟨_, _, -, own, others⟩⟩ := resolve_spec success
  · rw [alone]
    exact List.forall_mem_singleton.mpr (List.getElem?_eq_some_iff.mp found).1
  · refine List.forall_mem_cons.mpr ⟨ValueFile.lt_of_definedAt? own, fun value member => ?_⟩
    obtain ⟨_, -, defined⟩ := exists_of_forall₂ others.flip member
    exact ValueFile.lt_of_definedAt? defined

/-- Values are paired together with the constraint that gives them one kind. -/
theorem merge_from {place : Addr} {value : Nat} {others : List Nat}
    (present : ∀ other ∈ value :: others, other < before.values.values.length) :
    NotesFrom before known (merge place value others) fun _ => [] := by
  intro result after success
  obtain ⟨-, rfl⟩ := Prod.mk.inj (modify_eq_ok.mp success)
  refine ⟨⟨⟨List.prefix_rfl, List.prefix_append _ _⟩, fun recorded => ?_⟩,
    fun _ _ member => by cases member⟩
  obtain ⟨own, rest⟩ := List.forall_mem_cons.mp present
  refine List.forall_mem_append.mpr ⟨fun pair member => ?_, List.forall_mem_map.mpr fun other member => ?_⟩
  · obtain ⟨inside, entry, listed, same⟩ := recorded pair member
    exact ⟨inside, entry, List.mem_append_left _ listed, same⟩
  · exact ⟨⟨rest other member, own⟩, _, List.mem_append_right _ (List.mem_map_of_mem member), rfl⟩

theorem notes_readReaching {reg : Reg} {contract : KindSet} {origin : Origin} :
    Notes known (readReaching context current reg contract origin) fun read => [read.1] := by
  unfold readReaching
  refine .bind (.lift _) fun _ before => ?_
  refine .bind (notes_resolve before) fun resolved middle resolves => ?_
  have present := lt_of_resolve resolves
  refine .bind (merge_from present) fun _ last _ => ?_
  refine Notes.bind notes_restrict (fun _ => ?_) last
  exact .pure (by simp)

theorem notes_readAs {reg : Reg} {contract : KindSet} {origin : Origin} :
    Notes known (readAs context current reg contract origin) fun slot => [slot] := by
  unfold readAs
  refine .bind notes_readReaching fun read => ?_
  exact .pure (List.subset_append_left _ _)

theorem notes_read {position : Nat} {contract : KindSet} :
    Notes known (read context current position contract) fun slot => [slot] := by
  unfold read
  refine .bind (.lift _) fun reg => ?_
  exact notes_readAs

theorem notes_readArray {position : Nat} {contract : KindSet} :
    Notes known (readArray context current position contract) fun read => [read.1] := by
  unfold readArray
  refine .bind (.lift _) fun reg => ?_
  refine .bind notes_readReaching fun read => ?_
  refine .bind .get fun state => ?_
  exact .pure (by simp)

theorem notes_readDeclared {contract : KindSet} {kind : Kind} :
    Notes known (readDeclared context current contract kind) fun slot => [slot] := by
  unfold readDeclared
  refine .bind notes_read fun value => ?_
  exact notes_anchor

theorem notes_define {site : Site} {reg : Reg} {width : Width} :
    Notes known (define site reg width) fun _ => [] := by
  intro before value after success
  obtain ⟨keeps, -⟩ := define_spec success
  simp only [define, bind_eq_ok, get_eq_ok, set_eq_ok, pure_eq_ok, Prod.mk.injEq] at success
  obtain ⟨_, _, ⟨rfl, rfl⟩, _, _, ⟨-, rfl⟩, -, rfl⟩ := success
  exact ⟨.of_grows ⟨keeps.values, List.prefix_rfl⟩ rfl, fun _ _ member => by cases member⟩

theorem notes_writeAt {place : Addr} {reg : Reg} {contract : KindSet} {origin : Origin} :
    Notes known (writeAt context current place reg contract origin) fun slot => [slot] := by
  unfold writeAt
  refine .bind (.lift _) fun _ => ?_
  refine .bind notes_define fun value => ?_
  refine .bind notes_restrict fun _ => ?_
  exact .pure (List.subset_append_left _ _)

theorem notes_write {position : Nat} {contract : KindSet} :
    Notes known (write context current position contract) fun slot => [slot] := by
  unfold write
  refine .bind (.lift _) fun reg => ?_
  exact notes_writeAt

theorem notes_writeDeclared {type : Descriptor} {kind : Kind} :
    Notes known (writeDeclared context current type kind) fun slot => [slot] := by
  unfold writeDeclared
  refine .bind notes_write fun dest => ?_
  refine .bind notes_anchor fun bound => ?_
  refine .bind notes_declare fun _ => ?_
  exact .pure (by simp)

/-! ## Statements -/

def slotsOf (statements : List (Statement Slot)) : List Slot :=
  statements.flatMap Statement.mentions

/-- No statement, or one that has no slots. -/
theorem Notes.nothing {statements : List (Statement Slot)} (slotless : slotsOf statements = []) :
    Notes known (Pure.pure statements) slotsOf :=
  .pure (slotless ▸ List.nil_subset _)

/-- One statement that assigns to a slot. -/
theorem Notes.assigns {dest : Slot} {value : Expression Slot} (slots : List Slot)
    (mentions : value.operands.flatMap Operand.mentions = slots) (within : dest :: slots ⊆ known) :
    Notes known (Pure.pure (assign dest value)) slotsOf := by
  obtain ⟨isDest, operands⟩ := List.cons_subset.mp within
  refine .pure ?_
  simp [slotsOf, assign, Statement.mentions, Statement.operands, Statement.written,
    Destination.operands, Destination.written, mentions, isDest, operands]

/-- One statement that writes no slot. -/
theorem Notes.reads {statement : Statement Slot} (slots : List Slot)
    (nothing : statement.written = none)
    (mentions : statement.operands.flatMap Operand.mentions = slots) (within : slots ⊆ known) :
    Notes known (Pure.pure [statement]) slotsOf := by
  refine .pure ?_
  simp [slotsOf, Statement.mentions, nothing, mentions, within]

/-! ### Shapes of rules -/

theorem notes_compute {source dest : KindSet} {value : Operand Slot → Expression Slot}
    (mentions : ∀ slot, (value (.var slot)).operands.flatMap Operand.mentions = [slot]) :
    Notes known (compute context current source dest value) slotsOf := by
  unfold compute
  refine .bind notes_read fun source => ?_
  refine .bind notes_write fun dest => ?_
  exact .assigns [source] (mentions source) (by simp)

theorem notes_loadItem {kind : ReferenceKind} {value : Nat → Expression Slot}
    (mentions : ∀ index, (value index).operands.flatMap Operand.mentions = []) :
    Notes known (loadItem context current kind value) slotsOf := by
  unfold loadItem
  refine .bind (.lift _) fun index => ?_
  refine .bind notes_write fun dest => ?_
  exact .assigns [] (mentions index) (by simp)

theorem notes_useObject {use : Operand Slot → Statement Slot}
    (nothing : ∀ slot, (use (.var slot)).written = none)
    (mentions : ∀ slot, (use (.var slot)).operands.flatMap Operand.mentions = [slot]) :
    Notes known (useObject context current use) slotsOf := by
  unfold useObject
  refine .bind notes_read fun value => ?_
  exact .reads [value] (nothing value) (mentions value) (by simp)

theorem notes_makeTyped {position : Nat} {contract : KindSet}
    {value : Nat → Operand Slot → Expression Slot}
    (mentions : ∀ index slot, (value index (.var slot)).operands.flatMap Operand.mentions = [slot]) :
    Notes known (makeTyped context current position contract value) slotsOf := by
  unfold makeTyped
  refine .bind (.lift _) fun index => ?_
  refine .bind notes_read fun source => ?_
  refine .bind notes_write fun dest => ?_
  refine .bind (.lift _) fun type => ?_
  refine .bind notes_declare fun _ => ?_
  exact .assigns [source] (mentions index source) (by simp)

/-! ### Moves and constants -/

theorem notes_move : Notes known (move context current) slotsOf := by
  unfold move
  refine .bind notes_readArray fun ⟨source, type⟩ => ?_
  refine .bind notes_write fun dest => ?_
  refine .bind notes_sameKind fun _ => ?_
  cases type with
  | none => exact .assigns [source] rfl (by simp)
  | some type =>
      refine .bind notes_declare fun _ => ?_
      exact .assigns [source] rfl (by simp)

theorem notes_moveResult : Notes known (moveResult context current) slotsOf := by
  unfold moveResult
  refine .bind .get fun state => ?_
  split
  · exact .nothing rfl
  · refine .bind notes_write fun dest => ?_
    exact .nothing rfl

theorem notes_moveException : Notes known (moveException context current) slotsOf := by
  unfold moveException
  refine .bind (.lift _) fun reg => ?_
  refine .bind notes_writeAt fun dest => ?_
  exact .pure (List.subset_append_left _ _)

theorem notes_returnValue : Notes known (returnValue context current) slotsOf := by
  unfold returnValue
  refine .bind (.lift _) fun method => ?_
  refine .bind (.lift _) fun kind => ?_
  refine .bind notes_readDeclared fun value => ?_
  exact .reads [value] rfl rfl (by simp)

/-- A literal takes its kind from the slot that it is put into. -/
theorem notes_const : Notes known (const context current) slotsOf := by
  unfold const
  refine .bind (.lift _) fun literal => ?_
  refine .bind notes_write fun dest => ?_
  exact .assigns [dest] rfl (by simp)

/-! ### Arithmetic -/

theorem notes_not : Notes known (Lower.not context current) slotsOf := by
  unfold Lower.not
  refine .bind notes_read fun source => ?_
  refine .bind notes_write fun dest => ?_
  refine .bind notes_sameKind fun _ => ?_
  exact .assigns [source] rfl (by simp)

theorem notes_convert : Notes known (convert context current) slotsOf := by
  unfold convert
  split
  · split
    · exact notes_compute fun _ => rfl
    · exact .fails _
  · exact .fails _

theorem notes_readBoth {first second : Nat} {left right : KindSet} :
    Notes known (readBoth context current first second left right) fun operands =>
      operands.1.mentions ++ operands.2.mentions := by
  unfold readBoth
  refine .bind notes_read fun left => ?_
  refine .bind notes_read fun right => ?_
  exact .pure (by simp [Operand.mentions])

theorem notes_binaryOperands (op : BinaryOp) :
    Notes known (binaryOperands context current op) fun operands =>
      operands.1.mentions ++ operands.2.mentions := by
  unfold binaryOperands
  dsimp only
  split
  · exact notes_readBoth
  · exact notes_readBoth
  · refine .bind notes_read fun source => ?_
    refine .bind (.lift _) fun literal => ?_
    split <;> exact .pure (by simp [Operand.mentions])

/-- An operator is applied to two operands that were read. -/
theorem Notes.applies {op : BinaryOp} {left right : Operand Slot} {dest : Slot} :
    Notes ([dest] ++ (left.mentions ++ right.mentions ++ known))
      (Pure.pure (assign dest (.binary op left right))) slotsOf := by
  refine .assigns (left.mentions ++ right.mentions) (by simp [Expression.operands]) ?_
  exact List.cons_subset_cons _ (List.subset_append_left _ _)

theorem notes_binary : Notes known (binary context current) slotsOf := by
  unfold binary
  split
  · refine .bind (notes_binaryOperands _) fun ⟨left, right⟩ => ?_
    refine .bind notes_write fun dest => ?_
    exact .applies
  · exact .fails _

theorem notes_cmp : Notes known (cmp context current) slotsOf := by
  unfold cmp
  split
  · refine .bind notes_readBoth fun ⟨left, right⟩ => ?_
    refine .bind notes_write fun dest => ?_
    exact .applies
  · exact .fails _

/-! ### Branches -/

theorem notes_branch : Notes known (branch context current) slotsOf := by
  unfold branch
  refine .bind (.lift _) fun op => ?_
  refine .bind (.lift _) fun target => ?_
  refine .bind notes_read fun left => ?_
  refine .bind notes_read fun right => ?_
  refine .bind notes_sameKind fun _ => ?_
  exact .reads [left, right] rfl rfl (by simp)

/-- The zero of a comparison takes its kind from the other side. -/
theorem notes_branchZero : Notes known (branchZero context current) slotsOf := by
  unfold branchZero
  refine .bind (.lift _) fun op => ?_
  refine .bind (.lift _) fun target => ?_
  refine .bind notes_read fun left => ?_
  exact .reads [left, left] rfl rfl (by simp)

theorem notes_goto : Notes known (goto current) slotsOf := by
  unfold goto
  refine .bind (.lift _) fun target => ?_
  exact .nothing rfl

theorem notes_switch : Notes known (switch context current) slotsOf := by
  unfold switch
  split
  · have targets : ∀ (item : Int32 × Int32) known, Notes known (do
        let target ← current.offsetBy item.2
        return (item.1, target)) fun _ => [] := by
      intro item known
      refine .bind (.lift _) fun target => ?_
      exact .pure (List.nil_subset _)
    refine .bind (.mapM targets) fun cases => ?_
    refine .bind notes_read fun key => ?_
    exact .reads [key] rfl rfl (by simp)
  · exact .fails _

/-! ### Objects, fields and elements -/

theorem notes_instanceOf : Notes known (instanceOf context current) slotsOf := by
  unfold instanceOf
  refine .bind (.lift _) fun index => ?_
  exact notes_compute fun _ => rfl

theorem notes_fillArrayData : Notes known (fillArrayData context current) slotsOf := by
  unfold fillArrayData
  split
  · refine .bind notes_readArray fun ⟨array, type⟩ => ?_
    exact .reads [array] rfl rfl (by simp)
  · exact .fails _

theorem notes_elementAccess :
    Notes known (elementAccess context current) fun access => [access.1, access.2.1] := by
  unfold elementAccess
  refine .bind notes_readArray fun ⟨array, type⟩ => ?_
  refine .bind notes_read fun index => ?_
  exact .pure (by simp)

theorem notes_aget : Notes known (aget context current) slotsOf := by
  unfold aget
  refine .bind notes_elementAccess fun ⟨array, index, element⟩ => ?_
  refine .bind notes_write fun dest => ?_
  cases element with
  | none => exact .assigns [array, index] rfl (by simp)
  | some element =>
      refine .bind (.lift _) fun kind => ?_
      refine .bind (notes_anchorElement (by simp)) fun bound => ?_
      refine .bind notes_declare fun _ => ?_
      exact .assigns [array, index] rfl (by simp)

theorem notes_aput : Notes known (aput context current) slotsOf := by
  unfold aput
  refine .bind notes_read fun value => ?_
  refine .bind notes_elementAccess fun ⟨array, index, element⟩ => ?_
  cases element with
  | none => exact .reads [value, array, index] rfl rfl (by simp)
  | some element =>
      refine .bind (.lift _) fun kind => ?_
      refine .bind (notes_anchorElement (by simp)) fun bound => ?_
      exact .reads [bound, array, index] rfl rfl (by simp)

theorem notes_iget : Notes known (iget context current) slotsOf := by
  unfold iget
  refine .bind (.lift _) fun ⟨field, type, kind⟩ => ?_
  refine .bind notes_read fun source => ?_
  refine .bind notes_writeDeclared fun dest => ?_
  exact .assigns [source] rfl (by simp)

theorem notes_iput : Notes known (iput context current) slotsOf := by
  unfold iput
  refine .bind (.lift _) fun ⟨field, type, kind⟩ => ?_
  refine .bind notes_readDeclared fun value => ?_
  refine .bind notes_read fun target => ?_
  exact .reads [value, target] rfl rfl (by simp)

theorem notes_sget : Notes known (sget context current) slotsOf := by
  unfold sget
  refine .bind (.lift _) fun ⟨field, type, kind⟩ => ?_
  refine .bind notes_writeDeclared fun dest => ?_
  exact .assigns [] rfl (by simp)

theorem notes_sput : Notes known (sput context current) slotsOf := by
  unfold sput
  refine .bind (.lift _) fun ⟨field, type, kind⟩ => ?_
  refine .bind notes_readDeclared fun value => ?_
  exact .reads [value] rfl rfl (by simp)

/-! ### Calls -/

theorem notes_readArguments {number position : Nat} {kinds : List Kind} :
    Notes known (readArguments context current number position kinds) fun slots => slots := by
  induction kinds generalizing known number position with
  | nil => exact .pure (List.nil_subset _)
  | cons kind kinds ih =>
      have rest : ∀ {known : List Slot} {reg : Reg}, Notes known (do
          let slot ← readAs context current reg (.ofKind kind) .anchor
          let slots ← readArguments context current (number + 1) (position + kind.width.slots) kinds
          return slot :: slots) fun slots => slots := by
        intro known reg
        refine .bind notes_readAs fun slot => ?_
        refine .bind ih fun slots => ?_
        exact .pure (by simp)
      rw [readArguments]
      refine .bind (.lift _) fun reg => ?_
      split
      · refine .bind (.lift _) fun second => ?_
        split
        · exact .bind (.lift _) fun _ => rest
        · exact rest
      · exact rest

theorem notes_arguments {kinds : List Kind} :
    Notes known (arguments context current kinds) fun slots => slots := by
  unfold arguments
  dsimp only
  split
  · intro before slots after success
    obtain ⟨_, _, fails, -⟩ := bind_eq_ok.mp success
    exact absurd fails throw_eq_ok
  · exact notes_readArguments

/-- The slot of a result has the kind that the call passes, and its `move-result` may record
other kinds of the same value. -/
theorem notes_result {kind : Kind} :
    Notes known (result context current kind) fun taken => taken.toList := by
  unfold result
  split
  · exact .pure (List.nil_subset _)
  · split
    · refine .bind notes_writeAt fun dest => ?_
      refine .bind notes_restrict fun _ => ?_
      refine .bind (.modify (fun _ => rfl) (fun _ => rfl) fun _ => rfl) fun _ => ?_
      exact .pure (by simp)
    · intro before taken after success
      obtain ⟨_, impossible, -⟩ := lift_eq_ok.mp success
      cases impossible

theorem flatMap_mentions_var (slots : List Slot) :
    (slots.map Operand.var).flatMap Operand.mentions = slots := by
  induction slots with
  | nil => rfl
  | cons slot rest ih => exact congrArg (slot :: ·) ih

/-- A call that is a statement of its own, or that assigns its result. -/
theorem notes_call {kind : Kind} {call : Expression Slot} {type : Descriptor}
    {unused : Statement Slot}
    (within : call.operands.flatMap Operand.mentions ⊆ known) (alone : unused.mentions ⊆ known) :
    Notes known (do
      match ← result context current kind with
      | none => return [unused]
      | some dest => do
          declare dest.value type
          return assign dest call) slotsOf := by
  refine .bind notes_result fun taken => ?_
  cases taken with
  | none => exact .pure (by simpa [slotsOf] using alone)
  | some dest =>
      refine .bind notes_declare fun _ => ?_
      exact .assigns _ rfl (by simp [within])

theorem notes_invoke : Notes known (invoke context current) slotsOf := by
  unfold invoke
  split
  · rename_i kind isKind
    refine .bind (.lift _) fun index => ?_
    refine .bind (.lift _) fun method => ?_
    refine .bind (.lift _) fun kinds => ?_
    refine .bind notes_arguments fun slots => ?_
    dsimp only
    generalize isCall : (if kind.hasReceiver = true then
        Expression.invoke kind index (slots.map Operand.var).head? (slots.map Operand.var).tail
      else Expression.invoke kind index none (slots.map Operand.var)) = call
    have mentions : call.operands.flatMap Operand.mentions = slots := by
      have operands : call.operands = slots.map Operand.var := by
        subst isCall
        split
        · cases slots <;> rfl
        · rfl
      rw [operands, flatMap_mentions_var]
    split
    · exact .reads slots rfl mentions (by simp)
    · exact notes_call (by simp [mentions])
        (by simp [Statement.mentions, Statement.operands, Statement.written, mentions])
  · exact .fails _

theorem notes_filledNewArray : Notes known (filledNewArray context current) slotsOf := by
  unfold filledNewArray
  refine .bind (.lift _) fun index => ?_
  refine .bind (.lift _) fun type => ?_
  split
  · refine .bind (.lift _) fun kind => ?_
    refine .bind notes_arguments fun slots => ?_
    exact notes_call (by simp [Expression.operands, flatMap_mentions_var]) (List.nil_subset _)
  · exact .fails _

/-! ### All rules -/

theorem notes_rule : Notes known (rule context current) slotsOf := by
  unfold rule
  split
  · exact .nothing rfl
  · exact notes_move
  · exact notes_moveResult
  · exact notes_moveException
  · exact .nothing rfl
  · exact notes_returnValue
  · exact notes_const
  · exact notes_loadItem fun _ => rfl
  · exact notes_loadItem fun _ => rfl
  · exact notes_useObject (fun _ => rfl) fun _ => rfl
  · exact notes_useObject (fun _ => rfl) fun _ => rfl
  · exact notes_makeTyped fun _ _ => rfl
  · exact notes_instanceOf
  · exact notes_compute fun _ => rfl
  · exact notes_loadItem fun _ => rfl
  · exact notes_makeTyped fun _ _ => rfl
  · exact notes_filledNewArray
  · exact notes_fillArrayData
  · exact notes_useObject (fun _ => rfl) fun _ => rfl
  · exact notes_goto
  · exact notes_switch
  · exact notes_cmp
  · exact notes_branch
  · exact notes_branchZero
  · exact notes_aget
  · exact notes_aput
  · exact notes_iget
  · exact notes_iput
  · exact notes_sget
  · exact notes_sput
  · exact notes_invoke
  · exact notes_compute fun _ => rfl
  · exact notes_not
  · exact notes_convert
  · exact notes_binary
  · exact notes_binary
  · exact notes_binary

theorem notes_instruction {instruction : Instruction} {next : Option Instruction} :
    Notes known (Lower.instruction context instruction next) slotsOf := by
  unfold Lower.instruction
  split
  · exact notes_rule
  · exact .fails _

/-- An argument is introduced with the kind of its declared type. -/
theorem notes_argument {argument : Argument} :
    Notes known (Lower.argument argument) Statement.mentions := by
  unfold Lower.argument
  refine .bind notes_define fun value => ?_
  refine .bind notes_record fun _ => ?_
  split
  · refine .bind notes_declare fun _ => ?_
    exact .pure (List.subset_append_left [_] _)
  · exact .pure (List.subset_append_left [_] _)

theorem notes_allArguments : Notes known (allArguments context) slotsOf := by
  unfold allArguments
  refine .bind (.lift _) fun arguments => ?_
  exact .mapM fun argument known => notes_argument

/-! ## Sequences of calls -/

/-- What may be asked of lowering: the identity statements of the arguments, or the statements
of an instruction with the one after it in sight. -/
inductive Call where
  | arguments
  | instruction (instruction : Instruction) (next : Option Instruction)

def perform (context : LoweringContext) : Call → Lower (List (Statement Slot))
  | .arguments => allArguments context
  | .instruction instruction next => Lower.instruction context instruction next

theorem notes_perform {call : Call} : Notes known (perform context call) slotsOf := by
  cases call with
  | arguments => exact notes_allArguments
  | instruction instruction next => exact notes_instruction

/-- Values of one web are in one class: pairs join the web, and a constraint each pair. -/
theorem PairsRecorded.label_eq {state : LoweringState} (recorded : PairsRecorded state)
    {first second : Nat} (isFirst : first < state.values.values.length)
    (isSecond : second < state.values.values.length)
    (inOne : ((Partition.discrete state.values.values.length).unionAll state.merges).label first =
      ((Partition.discrete state.values.values.length).unionAll state.merges).label second) :
    (Solution.partition state.values.values state.recorded).label first =
      (Solution.partition state.values.values state.recorded).label second := by
  have connected := (Partition.label_discrete_unionAll_iff (fun pair member => (recorded pair member).1)
    isFirst isSecond).mp inOne
  clear inOne isFirst isSecond
  induction connected with
  | rel a b member =>
      obtain ⟨⟨aInside, bInside⟩, joined⟩ := recorded (a, b) member
      refine @Partition.label_unionAll_of_mem _ _ (a, b) (Solution.mem_sameKinds.mpr joined) ?_ ?_
      · rwa [Partition.length_discrete]
      · rwa [Partition.length_discrete]
  | refl => rfl
  | symm _ _ _ ih => exact ih.symm
  | trans _ _ _ _ _ one two => exact one.trans two

/-- After calls that succeed, each slot of their statements has its contract recorded unless
this only says a width; each pair has a constraint that gives it one kind; and the values of a
web are in one class. -/
theorem contracts_recorded {calls : List Call} {results : List (List (Statement Slot))}
    {final : LoweringState}
    (success : (calls.mapM (perform context)).run {} = .ok (results, final)) :
    (∀ statements ∈ results, ∀ statement ∈ statements, ∀ slot ∈ statement.mentions,
      slot.contract.isWidthOnly = false → ∃ entry ∈ final.recorded,
        entry.constraint = .oneOf slot.value slot.contract ∨
          ∃ kind, slot.contract = .ofKind kind ∧ entry.constraint = .exactly slot.value kind) ∧
    (∀ pair ∈ final.merges, ∃ entry ∈ final.recorded, entry.constraint = .sameAs pair.1 pair.2) ∧
    ∀ first < final.values.values.length, ∀ second < final.values.values.length,
      ((Partition.discrete final.values.values.length).unionAll final.merges).label first =
          ((Partition.discrete final.values.values.length).unionAll final.merges).label second →
        ∃ number, (Solution.solve final.values.values final.recorded).classOf[first]? = some number ∧
          (Solution.solve final.values.values final.recorded).classOf[second]? = some number := by
  have notes : Notes [] (calls.mapM (perform context)) fun results => results.flatMap slotsOf :=
    .mapM fun _ _ => notes_perform
  obtain ⟨adds, noted⟩ := notes {} results final success
  have recorded : PairsRecorded final := adds.pairs fun _ member => by cases member
  refine ⟨fun statements inResults statement inStatements slot mentioned notOnly => ?_,
    fun pair member => (recorded pair member).2, fun first isFirst second isSecond inOne => ?_⟩
  · have listed : slot ∈ results.flatMap slotsOf :=
      List.mem_flatMap.mpr ⟨statements, inResults,
        List.mem_flatMap.mpr ⟨statement, inStatements, mentioned⟩⟩
    rcases noted (List.forall_mem_nil _) slot listed with only | restricts
    · exact absurd only (Bool.eq_false_iff.mp notOnly)
    · exact restricts_iff.mp restricts
  · refine ⟨_, Solution.classOf_solve isFirst, ?_⟩
    rw [recorded.label_eq isFirst isSecond inOne]
    exact Solution.classOf_solve isSecond

/-- What is known of a register that two instructions may have set. -/
def setTwice : LoweringContext where
  pool := .empty
  code := ⟨0, ⟨8⟩, 1, [], []⟩
  graph := ⟨[], [], 0, .empty⟩
  states := ⟨[(5, ⟨[.ofList [⟨.at 2, .ofNat 0, .narrow⟩, ⟨.at 4, .ofNat 0, .narrow⟩]]⟩)], []⟩

/-- The two instructions that set the register, and one that negates it. -/
def settingTwice : List Call :=
  [.instruction (.setZero 2) none, .instruction (.setZero 4) none,
    .instruction (.ofOpcode 5 .negInt [.ofNat 0, .ofNat 0] none none) none]

/-- Where the register is negated, its two values are paired, and the one that is read is an int. -/
theorem contracts_recorded_setTwice : ∃ results final,
    (settingTwice.mapM (perform setTwice)).run {} = .ok (results, final) ∧ final.merges = [(1, 0)] ∧
      Restricts final 0 (.ofKind .int) ∧
      (∃ entry ∈ final.recorded, entry.constraint = .sameAs 1 0) ∧
      ∃ number, (Solution.solve final.values.values final.recorded).classOf[0]? = some number ∧
        (Solution.solve final.values.values final.recorded).classOf[1]? = some number := by
  obtain ⟨⟨results, final⟩, success, merges, values, mentioned⟩ :
      ∃ lowered : List (List (Statement Slot)) × LoweringState,
        (settingTwice.mapM (perform setTwice)).run {} = .ok lowered ∧
          lowered.2.merges = [(1, 0)] ∧ lowered.2.values.values.length = 3 ∧
          ∃ statements ∈ lowered.1, ∃ statement ∈ statements,
            ⟨0, .ofKind .int⟩ ∈ statement.mentions := exists_ok_of_decide (by decide +kernel)
  obtain ⟨contracts, pairs, classes⟩ := contracts_recorded success
  refine ⟨results, final, success, merges, ?_, pairs (1, 0) (merges ▸ List.mem_singleton_self _), ?_⟩
  · obtain ⟨statements, inResults, statement, inStatements, mentioned⟩ := mentioned
    exact restricts_iff.mpr (contracts statements inResults statement inStatements _ mentioned rfl)
  · dsimp only at values
    rw [values] at classes
    refine classes 0 (by decide) 1 (by decide) ?_
    rw [merges]
    decide

end Lower

end Dalvik
