import Dalvik.Proofs.Lowering.Asking

/-!
# Declared types of arrays

Arguments, fields, calls and the types that new arrays, casts and nested arrays name declare
what type an array has.  Code is lowered in its order, so the type of an array is known at an
instruction where all definitions that reach the read have it declared before: in a loop a
definition after the instruction declares nothing for it.

Lowering remembers just the types that are known.
-/

namespace Dalvik

abbrev ArrayTypes := Site → Reg → Option Descriptor

namespace ArrayTypes

/-- A definition has a declared type; only array types matter. -/
def learn (known : ArrayTypes) (site : Site) (reg : Reg) (type : Descriptor) : ArrayTypes :=
  match type with
  | .array _ _ => fun other own => if other = site ∧ own = reg then some type else known other own
  | _ => known

/-- The type that is known of all definitions that reach a read. -/
def common (known : ArrayTypes) : List Def → Option Descriptor
  | [] => none
  | d :: others => (known d.site d.reg).filter fun type =>
      others.all fun other => known other.site other.reg == some type

def introduce (known : ArrayTypes) (argument : Argument) : ArrayTypes :=
  match argument.source with
  | .parameter _ type => known.learn .param argument.reg type
  | _ => known

def ofArguments (arguments : List Argument) : ArrayTypes :=
  arguments.foldl introduce fun _ _ => none

end ArrayTypes

namespace Current

/-! ## What instructions declare -/

def item? {α : Type} (lookup : Nat → Except CodeError α) (current : Current) : Option α := do
  let reference ← current.instruction.reference
  (lookup reference.index).toOption

/-- The array type that is known where an instruction reads an operand. -/
def arrayType (context : LoweringContext) (known : ArrayTypes) (current : Current) (position : Nat)
    (width : Width) : Option Descriptor := do
  let reg ← current.instruction.regs[position]?
  known.common (context.readable current.addr reg width)

/-- The type of the elements of the array that an instruction accesses. -/
def elementType (context : LoweringContext) (known : ArrayTypes) (current : Current) :
    Option Descriptor :=
  (current.arrayType context known 1 .narrow).bind Descriptor.element?

/-- The declared type of what an instruction puts into a register. -/
def declaredType (context : LoweringContext) (known : ArrayTypes) (current : Current) :
    Option Descriptor :=
  match current.opcode.family with
  | .move => current.arrayType context known 1 current.opcode.width
  | .checkCast | .newArray | .filledNewArray => current.item? context.pool.type
  | .iget | .sget => (current.item? context.pool.field).map FieldRef.type
  | .invoke => (current.item? context.pool.method).map fun method => method.prototype.ret
  | .aget => current.elementType context known
  | _ => none

/-- The definition of an instruction, or of the `move-result` it takes over. -/
def place? (context : LoweringContext) (current : Current) : Option (Site × Reg) :=
  if current.opcode.hasResult then do
    let (taken, _) ← current.instruction.takesOver context current.next
    let reg ← taken.regs[0]?
    return (.at taken.addr, reg)
  else do
    let reg ← current.instruction.regs[0]?
    return (.at current.addr, reg)

end Current

/-- The array types that are known after an instruction. -/
def ArrayTypes.after (known : ArrayTypes) (context : LoweringContext) (current : Current) :
    ArrayTypes :=
  match current.place? context, current.declaredType context known with
  | some (site, reg), some type => known.learn site reg type
  | _, _ => known

namespace Lower

variable {context : LoweringContext} {current : Current} {known : ArrayTypes}
  {before after state : LoweringState}

/-! ## What instructions refer to -/

theorem item?_eq_some {α : Type} {lookup : Nat → Except CodeError α} {kind : ReferenceKind}
    {index : Nat} {item : α} (refers : current.reference kind = .ok index)
    (found : liftCode (lookup index) = .ok item) : current.item? lookup = some item := by
  obtain ⟨reference, given, rfl⟩ := reference_eq_ok refers
  rw [Current.item?, given]
  dsimp only [bind, Option.bind]
  rw [liftCode_eq_ok.mp found]
  rfl

theorem ofType_of_declaredKind {type : Descriptor} {kind : Kind}
    (found : current.declaredKind type = .ok kind) : Kind.ofType type = some kind := by
  unfold Current.declaredKind at found
  split at found
  · rename_i own isOwn
    exact isOwn.trans (congrArg some (Except.ok.inj found))
  · cases found

/-- The field of an access has the type and the kind that are declared for it. -/
theorem field_of_fieldAccess {field : Nat} {type : Descriptor} {kind : Kind}
    (found : fieldAccess context current = .ok (field, type, kind)) :
    (current.item? context.pool.field).map FieldRef.type = some type ∧ Kind.ofType type = some kind := by
  simp only [fieldAccess, Dalvik.bind_eq_ok, Dalvik.pure_eq_ok, Prod.mk.injEq] at found
  obtain ⟨index, refers, own, isField, ownKind, isKind, -, rfl, rfl⟩ := found
  rw [item?_eq_some refers isField]
  exact ⟨rfl, ofType_of_declaredKind isKind⟩

/-! ## What lowering remembers -/

/-- Lowering remembers the types that are known of definitions, and of no other values. -/
structure Remembers (known : ArrayTypes) (state : LoweringState) : Prop where
  types : ∀ site reg, (state.values.definedAt? site reg).bind (state.arrays.lookup ·) = known site reg
  defined : ∀ entry ∈ state.arrays, ∃ site reg, state.values.definedAt? site reg = some entry.1

theorem remembers_empty : Remembers (fun _ _ => none) {} where
  types site reg := by
    cases (ValueFile.empty.definedAt? site reg) <;> rfl
  defined _ member := by cases member

namespace Remembers

/-- The type of a value is that of its definition. -/
theorem lookup (remembers : Remembers known state) {site : Site} {reg : Reg} {value : Nat}
    (defined : state.values.definedAt? site reg = some value) :
    state.arrays.lookup value = known site reg := by
  rw [← remembers.types site reg, defined]
  rfl

/-- A value of no definition has no type. -/
theorem lookup_undefined (remembers : Remembers known state) {value : Nat}
    (undefined : ∀ site reg, state.values.definedAt? site reg ≠ some value) :
    state.arrays.lookup value = none := by
  refine List.lookup_eq_none_iff.mpr fun entry member => ?_
  obtain ⟨site, reg, defined⟩ := remembers.defined entry member
  rw [bne_iff_ne]
  rintro rfl
  exact undefined site reg defined

/-- What is remembered stays when values are added: no type was there for a value that a
definition gets later. -/
theorem mono (remembers : Remembers known before)
    (longer : before.values.values <+: after.values.values) (same : after.arrays = before.arrays) :
    Remembers known after where
  types site reg := by
    rw [same]
    cases old : before.values.definedAt? site reg with
    | some value =>
        rw [ValueFile.definedAt?_mono longer old]
        exact remembers.lookup old
    | none =>
        rw [← remembers.types site reg, old, Option.bind_none]
        cases new : after.values.definedAt? site reg with
        | none => rfl
        | some value =>
            refine remembers.lookup_undefined fun other own defined => ?_
            have same : (other, own) = (site, reg) :=
              ValueFile.definedAt?_injective (ValueFile.definedAt?_mono longer defined) new
            obtain ⟨rfl, rfl⟩ := Prod.mk.inj same
            rw [old] at defined
            cases defined
  defined entry member := by
    obtain ⟨site, reg, defined⟩ := remembers.defined entry (same ▸ member)
    exact ⟨site, reg, ValueFile.definedAt?_mono longer defined⟩

/-- A step that declares nothing keeps what is remembered. -/
theorem asks {α : Type} {act : Lower α} {requests : List ValueFile.Request} {taken : List Addr}
    {post : α → Prop} {result : α} (remembers : Remembers known before)
    (asks : Asks False act requests taken post) (success : act.run before = .ok (result, after)) :
    Remembers known after := by
  obtain ⟨longer, same⟩ := asks.grows success
  exact remembers.mono longer same

/-- A declared array type is remembered for the definition of the value. -/
theorem declare {site : Site} {reg : Reg} {value : Nat} {type : Descriptor} {result : Unit}
    (remembers : Remembers known before)
    (defined : before.values.definedAt? site reg = some value)
    (success : (declare value type).run before = .ok (result, after)) :
    Remembers (known.learn site reg type) after := by
  cases type with
  | array dimensions element =>
      obtain ⟨-, rfl⟩ := Prod.mk.inj (modify_eq_ok.mp success)
      refine ⟨fun other own => ?_, List.forall_mem_cons.mpr ⟨⟨site, reg, defined⟩, remembers.defined⟩⟩
      dsimp only [ArrayTypes.learn]
      by_cases here : other = site ∧ own = reg
      · obtain ⟨rfl, rfl⟩ := here
        rw [if_pos ⟨rfl, rfl⟩, defined]
        exact List.lookup_cons_self
      · rw [if_neg here, ← remembers.types other own]
        cases found : before.values.definedAt? other own with
        | none => rfl
        | some different =>
            -- another definition has another value, whose entry is behind the new one
            have distinct : (different == value) = false := by
              refine beq_eq_false_iff_ne.mpr fun same => here (Prod.mk.inj ?_)
              exact @ValueFile.definedAt?_injective _ (other, own) (site, reg) _ (same ▸ found) defined
            rw [Option.bind_some, Option.bind_some, List.lookup_cons, distinct]
  | _ =>
      obtain ⟨-, rfl⟩ := Prod.mk.inj (pure_eq_ok.mp success)
      exact remembers

/-- The values of definitions have the type that is known of these. -/
theorem commonType (remembers : Remembers known state) {defs : List Def} {values : List Nat}
    (defined : List.Forall₂ (fun d value => state.values.definedAt? d.site d.reg = some value)
      defs values) : Lower.commonType state.arrays values = known.common defs := by
  cases defined with
  | nil => rfl
  | cons first others =>
      rename_i d value defs values
      have same : ∀ type, (values.all fun other => state.arrays.lookup other == some type) =
          defs.all fun other => known other.site other.reg == some type := by
        intro type
        induction others with
        | nil => rfl
        | cons own _ ih => rw [List.all_cons, List.all_cons, ih, remembers.lookup own]
      rw [Lower.commonType, ArrayTypes.common, remembers.lookup first]
      simp only [same]

end Remembers

/-! ## Reads of arrays -/

/-- The type that is found for the values of a read is known of the definitions that reach it. -/
theorem readReaching_types {reg : Reg} {contract : KindSet} {origin : Origin} {slot : Slot}
    {reaching : List Nat} (remembers : Remembers known before)
    (success : (readReaching context current reg contract origin).run before =
      .ok ((slot, reaching), after)) :
    Remembers known after ∧ commonType after.arrays reaching =
      known.common (context.readable current.addr reg contract.width) := by
  have remembersAfter : Remembers known after := remembers.asks asks_readReaching success
  refine ⟨remembersAfter, ?_⟩
  simp only [readReaching, bind_eq_ok, lift_eq_ok, pure_eq_ok, Prod.mk.injEq] at success
  obtain ⟨_, _, ⟨_, -, -, rfl⟩, resolved, first, resolves, _, second, merges, _, third, restricts,
    ⟨-, rfl⟩, rfl⟩ := success
  obtain ⟨-, -, values⟩ := resolve_spec resolves
  have longer : first.values.values <+: third.values.values :=
    (asks_merge.grows merges).1.trans (asks_restrict.grows restricts).1
  rcases values with ⟨nothing, none, record, found, isNew, -⟩ | ⟨d, others, reached, own, aliases⟩
  · have undefined : ∀ site reg, third.values.definedAt? site reg ≠ some resolved.value := by
      intro site reg defined
      obtain ⟨own, isOwn, isSite, -⟩ := ValueFile.definedAt?_eq_some defined
      obtain rfl := Option.some.inj ((ValueFile.getElem?_mono longer found).symm.trans isOwn)
      rw [isNew] at isSite
      cases isSite
    rw [nothing, none, commonType, remembersAfter.lookup_undefined undefined]
    rfl
  · rw [reached]
    refine remembersAfter.commonType (.cons (ValueFile.definedAt?_mono longer own) ?_)
    exact aliases.imp fun e other found => ValueFile.definedAt?_mono longer found

theorem readArray_types {position : Nat} {contract : KindSet} {slot : Slot}
    {type : Option Descriptor} (remembers : Remembers known before)
    (success : (readArray context current position contract).run before = .ok ((slot, type), after)) :
    Remembers known after ∧ type = current.arrayType context known position contract.width := by
  simp only [readArray, bind_eq_ok, lift_eq_ok, reg_eq_ok, get_eq_ok, pure_eq_ok,
    Prod.mk.injEq] at success
  obtain ⟨_, _, ⟨reg, given, rfl, rfl⟩, ⟨_, reaching⟩, _, reads, _, _, ⟨rfl, rfl⟩, ⟨-, rfl⟩, rfl⟩ :=
    success
  obtain ⟨remembers, found⟩ := readReaching_types remembers reads
  refine ⟨remembers, found.trans ?_⟩
  rw [Current.arrayType, given]
  rfl

theorem elementAccess_types {array index : Slot} {element : Option Descriptor}
    (remembers : Remembers known before)
    (success : (elementAccess context current).run before = .ok ((array, index, element), after)) :
    Remembers known after ∧ element = current.elementType context known := by
  simp only [elementAccess, bind_eq_ok, pure_eq_ok, Prod.mk.injEq] at success
  obtain ⟨⟨_, type⟩, _, reads, _, _, others, ⟨-, -, rfl⟩, rfl⟩ := success
  obtain ⟨remembers, rfl⟩ := readArray_types remembers reads
  exact ⟨remembers.asks asks_read others, rfl⟩

end Lower

end Dalvik
