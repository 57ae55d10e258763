import Dalvik.Proofs.Argument
import Dalvik.Proofs.Kind
import Dalvik.Proofs.Lowering.Calls
import Dalvik.Proofs.Reaching.Sources

/-!
# What steps leave in the final state

Lowering only adds values and constraints, so what a step records is still there in the
end.  A step ensures something of its result and the final state; a chain of steps
ensures what its steps do.
-/

namespace Dalvik

/-- The kind of what a call passes to the `move-result` after it. -/
def Instruction.resultKind (pool : Pool) (instruction : Instruction) : Option Kind :=
  match instruction.opcode.map Opcode.family with
  | some .invoke => do
      let reference ← instruction.reference
      let method ← (pool.method reference.index).toOption
      Kind.ofType method.prototype.ret
  | some .filledNewArray => some .object
  | _ => none

namespace LoweringContext

/-- A write of the code that is lowered, or of an argument. -/
def Provides (context : LoweringContext) (site : Site) (reg : Reg) (width : Width) : Prop :=
  ∃ arguments, Argument.ofCode context.code context.pool = .ok arguments ∧
    context.code.Provides (arguments.map fun argument => (argument.reg, argument.width)) site reg width

/-- The method has arguments, and what can be read is written with the width it is read
with. -/
structure Sourced (context : LoweringContext) : Prop where
  passed : ∃ arguments, Argument.ofCode context.code context.pool = .ok arguments
  readable : ∀ addr reg width, ∀ d ∈ context.readable addr reg width,
    context.Provides d.site d.reg width

end LoweringContext

/-- An instruction that is lowered is one of the code, with the one after it in sight. -/
structure Current.Listed (context : LoweringContext) (current : Current) : Prop where
  opcode : current.instruction.opcode = some current.opcode
  member : current.instruction ∈ context.code.instructions
  follows : ∀ next, current.next = some next →
    [current.instruction, next] <:+: context.code.instructions

namespace ValueFile

variable {property : ProvisionalValue → Prop}

theorem define_induction {before after : ValueFile} {site : Site} {reg : Reg} {width : Width}
    {value : Nat} (made : before.define site reg width = (after, value))
    (known : ∀ record ∈ before.values, property record)
    (new : ∀ generation, property ⟨reg, generation, some site, width⟩) :
    ∀ record ∈ after.values, property record := by
  unfold define at made
  split at made
  · obtain ⟨rfl, rfl⟩ := Prod.mk.inj made
    exact known
  · obtain ⟨rfl, rfl⟩ := Prod.mk.inj made
    exact List.forall_mem_append.mpr ⟨known, List.forall_mem_singleton.mpr (new _)⟩

theorem defineAll_induction {before after : ValueFile} {width : Width} {defs : List Def}
    {values : List Nat} (made : before.defineAll width defs = (after, values))
    (known : ∀ record ∈ before.values, property record)
    (new : ∀ d ∈ defs, ∀ generation, property ⟨d.reg, generation, some d.site, width⟩) :
    ∀ record ∈ after.values, property record := by
  induction defs generalizing before values with
  | nil =>
      obtain ⟨rfl, rfl⟩ := Prod.mk.inj made
      exact known
  | cons d rest ih =>
      obtain ⟨first, others⟩ := List.forall_mem_cons.mp new
      cases head : before.define d.site d.reg width with
      | mk middle value =>
          cases tail : middle.defineAll width rest with
          | mk last more =>
              simp only [defineAll, head, tail, Prod.mk.injEq] at made
              obtain ⟨rfl, rfl⟩ := made
              exact ih tail (define_induction head known first) others

/-- What holds of the values before a read, of those of the definitions that reach it and of
a new one holds of all values after it. -/
theorem resolve_induction {before after : ValueFile} {states : Dataflow} {reg : Reg} {addr : Addr}
    {width : Width} {resolved : Resolved}
    (made : before.resolve states reg addr width = (after, resolved))
    (known : ∀ record ∈ before.values, property record)
    (new : ∀ d ∈ ((states.entryAt addr).map fun state => state.readable reg width).getD [],
      ∀ generation, property ⟨d.reg, generation, some d.site, width⟩)
    (undefined : ∀ generation, property ⟨reg, generation, none, width⟩) :
    ∀ record ∈ after.values, property record := by
  simp only [resolve] at made
  split at made
  · rename_i file value aliases all
    obtain ⟨rfl, rfl⟩ := Prod.mk.inj made
    exact defineAll_induction all known new
  · rename_i file all
    obtain ⟨rfl, rfl⟩ := Prod.mk.inj made
    exact List.forall_mem_append.mpr
      ⟨defineAll_induction all known new, List.forall_mem_singleton.mpr (undefined _)⟩

end ValueFile

namespace Lower

variable {α β : Type} {context : LoweringContext} {current : Current} {before after final : LoweringState}

/-! ## What is recorded of values -/

/-- A constraint allows a value just the kinds of a set. -/
def Restricts (state : LoweringState) (value : Nat) (kinds : KindSet) : Prop :=
  ∃ entry ∈ state.recorded, entry.constraint.owner = value ∧ entry.constraint.kinds = some kinds

/-- A constraint gives two values one kind, or they are the same. -/
def Linked (state : LoweringState) (first second : Nat) : Prop :=
  first = second ∨ ∃ entry ∈ state.recorded, entry.constraint = .sameAs first second

/-- A value comes from writes of a width, or from a read of this width that nothing
reaches. -/
inductive Comes (context : LoweringContext) (state : LoweringState) (value : Nat) (width : Width) :
    Prop where
  | undefined {record : ProvisionalValue} (found : state.values.values[value]? = some record)
      (isNew : record.site = none) (own : record.width = width)
  | defined {site : Site} {reg : Reg} (found : state.values.definedAt? site reg = some value)
      (provides : context.Provides site reg width)

theorem Comes.lt {value : Nat} {width : Width} (comes : Comes context final value width) :
    value < final.values.values.length := by
  cases comes with
  | undefined found _ _ => exact (List.getElem?_eq_some_iff.mp found).1
  | defined found _ => exact ValueFile.lt_of_definedAt? found

/-- What has opened a value: a read that nothing reaches, a write, or a call whose result is
the value of the `move-result` after it. -/
inductive Opened (context : LoweringContext) (record : ProvisionalValue) : Prop where
  | undefined (isNew : record.site = none)
  | provided {site : Site} (isSite : record.site = some site)
      (provides : context.Provides site record.reg record.width)
  | result {call next : Instruction} {kind : Kind}
      (follows : [call, next] <:+: context.code.instructions)
      (moves : next.opcode.map Opcode.family = some .moveResult)
      (passes : call.resultKind context.pool = some kind)
      (isSite : record.site = some (.at next.addr)) (first : next.regs[0]? = some record.reg)
      (own : record.width = kind.width)

/-- Values and constraints are only added. -/
structure Grows (before after : LoweringState) : Prop where
  values : before.values.values <+: after.values.values
  recorded : before.recorded <+: after.recorded

theorem Grows.refl (state : LoweringState) : Grows state state :=
  ⟨List.prefix_rfl, List.prefix_rfl⟩

theorem Grows.trans {first second third : LoweringState} (one : Grows first second)
    (two : Grows second third) : Grows first third :=
  ⟨one.values.trans two.values, one.recorded.trans two.recorded⟩

/-- What holds of all values, constraints and pairs: values are opened by reads, writes and
calls, constraints are about them, values that must have one kind come with one width, and those
that are paired must have one kind. -/
structure Orderly (context : LoweringContext) (final state : LoweringState) : Prop where
  opened : ∀ record ∈ state.values.values, Opened context record
  owned : ∀ entry ∈ state.recorded, entry.constraint.owner < final.values.values.length
  linked : ∀ entry ∈ state.recorded, ∀ first second, entry.constraint = .sameAs first second →
    ∃ width, Comes context final first width ∧ Comes context final second width
  paired : ∀ pair ∈ state.merges, ∃ entry ∈ final.recorded,
    entry.constraint = .sameAs pair.1 pair.2

theorem orderly_empty : Orderly context final {} where
  opened _ member := by cases member
  owned _ member := by cases member
  linked _ member := by cases member
  paired _ member := by cases member

/-- A step that succeeds from a state only adds to it, and where the precondition holds it
keeps the state in order and its result fits the final state.  What earlier steps ensure of
the final state is the precondition of later ones. -/
def EnsuresFrom (context : LoweringContext) (final before : LoweringState) (pre : Prop)
    (act : Lower α) (post : α → Prop) : Prop :=
  ∀ result after, act.run before = .ok (result, after) → Grows before after ∧
    (Grows after final → pre → (Orderly context final before → Orderly context final after) ∧
      post result)

/-- What a step ensures from any state. -/
def Ensures (context : LoweringContext) (final : LoweringState) (pre : Prop) (act : Lower α)
    (post : α → Prop) : Prop :=
  ∀ before, EnsuresFrom context final before pre act post

variable {pre : Prop}

/-- Steps after a first one, of which it is known what it did. -/
theorem EnsuresFrom.bind {one : α → Prop} {two : β → Prop} {first : Lower α} {next : α → Lower β}
    (isFirst : EnsuresFrom context final before pre first one)
    (isNext : ∀ value middle, first.run before = .ok (value, middle) →
      EnsuresFrom context final middle (pre ∧ one value) (next value) two) :
    EnsuresFrom context final before pre (first >>= next) two := by
  intro result after success
  obtain ⟨value, middle, head, tail⟩ := bind_eq_ok.mp success
  obtain ⟨grows, fits⟩ := isFirst value middle head
  obtain ⟨growsOn, fitsOn⟩ := isNext value middle head result after tail
  refine ⟨grows.trans growsOn, fun toFinal known => ?_⟩
  obtain ⟨orderly, holds⟩ := fits (growsOn.trans toFinal) known
  obtain ⟨orderlyOn, holdsOn⟩ := fitsOn toFinal ⟨known, holds⟩
  exact ⟨orderlyOn ∘ orderly, holdsOn⟩

namespace Ensures

theorem pure {post : α → Prop} {value : α} (holds : pre → post value) :
    Ensures context final pre (pure value) post := by
  intro before result after success
  obtain ⟨rfl, rfl⟩ := Prod.mk.inj (pure_eq_ok.mp success)
  exact ⟨.refl before, fun _ known => ⟨id, holds known⟩⟩

theorem bind {one : α → Prop} {two : β → Prop} {first : Lower α} {next : α → Lower β}
    (isFirst : Ensures context final pre first one)
    (isNext : ∀ value, Ensures context final (pre ∧ one value) (next value) two) :
    Ensures context final pre (first >>= next) two :=
  fun before => .bind (isFirst before) fun value middle _ => isNext value middle

/-- What may fail does nothing else. -/
theorem lift (outcome : Except LiftError α) :
    Ensures context final pre (liftM outcome : Lower α) fun value => outcome = .ok value := by
  intro before result after success
  obtain ⟨value, isValue, same⟩ := lift_eq_ok.mp success
  obtain ⟨rfl, rfl⟩ := Prod.mk.inj same
  exact ⟨.refl before, fun _ _ => ⟨id, isValue⟩⟩

theorem fails (error : LiftError) {post : α → Prop} :
    Ensures context final pre (throw error : Lower α) post :=
  fun _ _ _ success => absurd success throw_eq_ok

theorem get : Ensures context final pre (get : Lower LoweringState) fun _ => True := by
  intro before result after success
  obtain ⟨rfl, rfl⟩ := Prod.mk.inj (get_eq_ok.mp success)
  exact ⟨.refl before, fun _ _ => ⟨id, trivial⟩⟩

/-- A change of what was taken over or of declared types. -/
theorem modify {change : LoweringState → LoweringState}
    (values : ∀ state, (change state).values = state.values)
    (recorded : ∀ state, (change state).recorded = state.recorded)
    (merges : ∀ state, (change state).merges = state.merges) :
    Ensures context final pre (modify change : Lower PUnit) fun _ => True := by
  intro before result after success
  obtain ⟨-, rfl⟩ := Prod.mk.inj (modify_eq_ok.mp success)
  refine ⟨⟨?_, ?_⟩, fun _ _ => ⟨fun orderly => ⟨?_, ?_, ?_, ?_⟩, trivial⟩⟩
  · rw [values]
  · rw [recorded]
  · rw [values]
    exact orderly.opened
  · rw [recorded]
    exact orderly.owned
  · rw [recorded]
    exact orderly.linked
  · rw [merges]
    exact orderly.paired

theorem weaken {post other : α → Prop} {act : Lower α} (ensures : Ensures context final pre act post)
    (implies : ∀ value, post value → other value) : Ensures context final pre act other := by
  intro before result after success
  obtain ⟨grows, fits⟩ := ensures before result after success
  exact ⟨grows, fun toFinal known => ⟨(fits toFinal known).1, implies _ (fits toFinal known).2⟩⟩

/-- What follows from the precondition holds of the result too. -/
theorem also {post : α → Prop} {act : Lower α} {known : Prop}
    (ensures : Ensures context final pre act post) (holds : pre → known) :
    Ensures context final pre act fun value => post value ∧ known := by
  intro before result after success
  obtain ⟨grows, fits⟩ := ensures before result after success
  exact ⟨grows, fun toFinal isPre => ⟨(fits toFinal isPre).1, (fits toFinal isPre).2, holds isPre⟩⟩

end Ensures

/-! ## Constraints -/

/-- A constraint that is recorded stays; it must be about a value that there is, and one that
joins classes of values that come with one width. -/
theorem ensures_record {place : Option Addr} {constraint : Constraint} {origin : Origin}
    (owned : pre → constraint.owner < final.values.values.length)
    (joins : pre → ∀ first second, constraint = .sameAs first second →
      ∃ width, Comes context final first width ∧ Comes context final second width) :
    Ensures context final pre (record place constraint origin) fun _ =>
      ∃ entry ∈ final.recorded, entry.constraint = constraint := by
  intro before result after success
  obtain ⟨-, rfl⟩ := Prod.mk.inj (modify_eq_ok.mp success)
  refine ⟨⟨List.prefix_rfl, List.prefix_append _ _⟩, fun toFinal known => ⟨fun orderly => ?_, ?_⟩⟩
  · refine ⟨orderly.opened, List.forall_mem_append.mpr ⟨orderly.owned, ?_⟩,
      List.forall_mem_append.mpr ⟨orderly.linked, ?_⟩, orderly.paired⟩
    · exact List.forall_mem_singleton.mpr (owned known)
    · exact List.forall_mem_singleton.mpr (joins known)
  · exact ⟨_, toFinal.recorded.subset (List.mem_append_right _ List.mem_cons_self), rfl⟩

theorem restricting_eq_some {value : Nat} {kinds : KindSet} {constraint : Constraint}
    (found : Constraint.restricting value kinds = some constraint) :
    constraint.owner = value ∧ constraint.kinds = some kinds := by
  unfold Constraint.restricting at found
  split at found
  · cases found
  · split at found
    · rename_i kind isSingle
      obtain rfl := Option.some.inj found
      exact ⟨rfl, congrArg some (KindSet.eq_ofKind_of_single isSingle).symm⟩
    · obtain rfl := Option.some.inj found
      exact ⟨rfl, rfl⟩

theorem restricting_eq_none {value : Nat} {kinds : KindSet}
    (nothing : Constraint.restricting value kinds = none) : kinds.isWidthOnly = true := by
  unfold Constraint.restricting at nothing
  split at nothing
  · assumption
  · split at nothing <;> cases nothing

/-- A set of kinds that says more than a width is recorded. -/
theorem ensures_restrict {place : Addr} {value : Nat} {kinds : KindSet} {origin : Origin}
    (present : pre → value < final.values.values.length) :
    Ensures context final pre (restrict place value kinds origin) fun _ =>
      kinds.isWidthOnly = true ∨ Restricts final value kinds := by
  unfold restrict
  split
  · rename_i constraint found
    obtain ⟨owner, allowed⟩ := restricting_eq_some found
    refine (ensures_record (owner ▸ present) fun _ first second joins => ?_).weaken ?_
    · rw [joins] at allowed
      cases allowed
    · rintro _ ⟨entry, listed, rfl⟩
      exact .inr ⟨entry, listed, owner, allowed⟩
  · rename_i nothing
    exact .pure fun _ => .inl (restricting_eq_none nothing)

theorem ensures_declare {value : Nat} {type : Descriptor} :
    Ensures context final pre (declare value type) fun _ => True := by
  unfold declare
  split
  · exact .modify (fun _ => rfl) (fun _ => rfl) fun _ => rfl
  · exact .pure fun _ => trivial

/-! ## Slots -/

/-- A slot that was read or written: its value comes with the width of its contract, which
is recorded. -/
structure Held (context : LoweringContext) (final : LoweringState) (contract : KindSet) (slot : Slot) :
    Prop where
  same : slot.contract = contract
  comes : Comes context final slot.value contract.width
  recorded : contract.isWidthOnly = true ∨ Restricts final slot.value contract

/-- A slot of a statement: its contract is recorded, and its value comes with the width of
this if the contract is of several kinds. -/
structure Stated (context : LoweringContext) (final : LoweringState) (slot : Slot) : Prop where
  present : slot.value < final.values.values.length
  recorded : slot.contract.isWidthOnly = true ∨ Restricts final slot.value slot.contract
  comes : slot.contract.single = none → Comes context final slot.value slot.contract.width

theorem Held.stated {contract : KindSet} {slot : Slot} (held : Held context final contract slot) :
    Stated context final slot := by
  obtain ⟨rfl, comes, recorded⟩ := held
  exact ⟨comes.lt, recorded, fun _ => comes⟩

/-- A slot that is bound to a declared kind. -/
structure Bound (context : LoweringContext) (final : LoweringState) (kind : Kind) (slot : Slot) :
    Prop where
  restricts : Restricts final slot.value (.ofKind kind)
  stated : Stated context final slot

theorem ensures_sameKind {first second : Slot} {contract : KindSet}
    (held : pre → Held context final contract first ∧ Held context final contract second) :
    Ensures context final pre (sameKind current first second) fun _ =>
      Linked final first.value second.value := by
  unfold sameKind
  split
  · rename_i same
    exact .pure fun _ => .inl same
  · refine (ensures_record ?_ fun known one two joins => ?_).weaken fun _ recorded => .inr recorded
    · exact fun known => (held known).1.comes.lt
    · cases joins
      obtain ⟨left, right⟩ := held known
      exact ⟨contract.width, left.comes, right.comes⟩

theorem ensures_anchor {slot : Slot} {kind : Kind}
    (present : pre → slot.value < final.values.values.length) :
    Ensures context final pre (anchor current slot kind) fun bound =>
      bound.value = slot.value ∧ Bound context final kind bound := by
  unfold anchor
  refine .bind (ensures_record present fun _ _ _ joins => by cases joins) fun _ => .pure ?_
  rintro ⟨known, entry, listed, same⟩
  have restricts : Restricts final slot.value (.ofKind kind) :=
    ⟨entry, listed, by rw [same, Constraint.owner], by rw [same, Constraint.kinds]⟩
  refine ⟨rfl, restricts, present known, .inr restricts, fun several => ?_⟩
  simp at several

/-- An element keeps its own contract if the declared kind has another width. -/
theorem ensures_anchorElement {slot : Slot} {kind : Kind} {contract : KindSet}
    (held : pre → Held context final contract slot) :
    Ensures context final pre (anchorElement current slot kind) fun bound =>
      Bound context final kind bound := by
  unfold anchorElement
  refine .bind (ensures_anchor fun known => (held known).comes.lt) fun bound => .pure ?_
  rintro ⟨known, same, isBound⟩
  split
  · exact isBound
  · exact ⟨same ▸ isBound.restricts, (held known).stated⟩

/-! ## Reads -/

/-- All values of a read come with its width, and the first definition that reaches it has its
own. -/
theorem ensures_resolve (sourced : context.Sourced) {reg : Reg} {width : Width} :
    Ensures context final pre (resolve context current reg width) fun resolved =>
      (∀ value ∈ resolved.value :: resolved.aliases, Comes context final value width) ∧
      ∀ d, (context.readable current.addr reg width).head? = some d →
        final.values.definedAt? d.site d.reg = some resolved.value := by
  intro before resolved after success
  obtain ⟨added, sameMerges, values⟩ := resolve_spec success
  simp only [resolve, bind_eq_ok, get_eq_ok, set_eq_ok, pure_eq_ok, Prod.mk.injEq] at success
  obtain ⟨_, _, ⟨rfl, rfl⟩, _, _, ⟨-, rfl⟩, rfl, rfl⟩ := success
  refine ⟨⟨added, List.prefix_rfl⟩, fun toFinal _ => ⟨fun orderly => ?_, ?_⟩⟩
  · refine ⟨?_, orderly.owned, orderly.linked, orderly.paired⟩
    refine ValueFile.resolve_induction rfl orderly.opened (fun d reaches generation => ?_)
      fun _ => .undefined rfl
    exact .provided rfl (sourced.readable _ _ _ d reaches)
  · rcases values with ⟨nothing, none, record, found, isNew, isWidth⟩ |
      ⟨d, others, reaching, own, aliases⟩
    · rw [none, nothing]
      refine ⟨List.forall_mem_singleton.mpr ?_, fun _ impossible => by cases impossible⟩
      exact .undefined (ValueFile.getElem?_mono toFinal.values found) isNew isWidth
    · have provided := sourced.readable current.addr reg width
      rw [reaching] at provided ⊢
      obtain ⟨first, rest⟩ := List.forall_mem_cons.mp provided
      refine ⟨List.forall_mem_cons.mpr ⟨?_, fun value member => ?_⟩, fun e isHead => ?_⟩
      · exact .defined (ValueFile.definedAt?_mono toFinal.values own) first
      · obtain ⟨e, inOthers, found⟩ := exists_of_forall₂ aliases.flip member
        exact .defined (ValueFile.definedAt?_mono toFinal.values found) (rest e inOthers)
      · obtain rfl := Option.some.inj isHead
        exact ValueFile.definedAt?_mono toFinal.values own

/-- The values that reach one read must have one kind. -/
theorem ensures_merge {place : Addr} {value : Nat} {others : List Nat} {width : Width}
    (comes : pre → ∀ other ∈ value :: others, Comes context final other width) :
    Ensures context final pre (merge place value others) fun _ => True := by
  intro before result after success
  obtain ⟨-, rfl⟩ := Prod.mk.inj (modify_eq_ok.mp success)
  refine ⟨⟨List.prefix_rfl, List.prefix_append _ _⟩, fun toFinal known => ⟨fun orderly => ?_, trivial⟩⟩
  obtain ⟨own, rest⟩ := List.forall_mem_cons.mp (comes known)
  refine ⟨orderly.opened, List.forall_mem_append.mpr ⟨orderly.owned, ?_⟩,
    List.forall_mem_append.mpr ⟨orderly.linked, ?_⟩,
    List.forall_mem_append.mpr ⟨orderly.paired, ?_⟩⟩
  · exact List.forall_mem_map.mpr fun other member => (rest other member).lt
  · refine List.forall_mem_map.mpr fun other member first second same => ?_
    obtain ⟨rfl, rfl⟩ := Constraint.sameAs.inj same
    exact ⟨width, rest other member, own⟩
  · refine List.forall_mem_map.mpr fun other member => ?_
    exact ⟨_, toFinal.recorded.subset (List.mem_append_right _ (List.mem_map_of_mem member)), rfl⟩

/-- What a read ensures: a slot of the contract, which has the value of the first definition
that reaches the read. -/
structure ReadsSlot (context : LoweringContext) (final : LoweringState) (addr : Addr) (reg : Reg)
    (contract : KindSet) (slot : Slot) : Prop where
  held : Held context final contract slot
  first : ∀ d, (context.readable addr reg contract.width).head? = some d →
    final.values.definedAt? d.site d.reg = some slot.value

theorem ensures_readReaching (sourced : context.Sourced) {reg : Reg} {contract : KindSet}
    {origin : Origin} :
    Ensures context final pre (readReaching context current reg contract origin) fun read =>
      ReadsSlot context final current.addr reg contract read.1 := by
  unfold readReaching
  refine .bind (.lift _) fun _ => ?_
  refine .bind (ensures_resolve sourced) fun resolved => ?_
  refine .bind (ensures_merge fun ⟨_, values, _⟩ => values) fun _ => ?_
  refine .bind (ensures_restrict fun ⟨⟨_, values, _⟩, _⟩ => (values _ List.mem_cons_self).lt)
    fun _ => .pure ?_
  rintro ⟨⟨⟨-, values, first⟩, -⟩, recorded⟩
  exact ⟨⟨rfl, values _ List.mem_cons_self, recorded⟩, first⟩

theorem ensures_readAs (sourced : context.Sourced) {reg : Reg} {contract : KindSet} {origin : Origin} :
    Ensures context final pre (readAs context current reg contract origin) fun slot =>
      ReadsSlot context final current.addr reg contract slot := by
  unfold readAs
  refine .bind (ensures_readReaching sourced) fun _ => .pure ?_
  exact fun ⟨_, read⟩ => read

theorem ensures_read (sourced : context.Sourced) {position : Nat} {contract : KindSet} :
    Ensures context final pre (read context current position contract) fun slot =>
      Held context final contract slot := by
  unfold read
  refine .bind (.lift _) fun reg => ?_
  exact (ensures_readAs sourced).weaken fun _ read => read.held

theorem ensures_readArray (sourced : context.Sourced) {position : Nat} {contract : KindSet} :
    Ensures context final pre (readArray context current position contract) fun read =>
      Held context final contract read.1 := by
  unfold readArray
  refine .bind (.lift _) fun reg => ?_
  refine .bind (ensures_readReaching sourced) fun _ => ?_
  refine .bind .get fun state => .pure ?_
  exact fun ⟨⟨_, read⟩, _⟩ => read.held

/-- What is read as a value of a declared type is bound to its kind. -/
theorem ensures_readDeclared (sourced : context.Sourced) {contract : KindSet} {kind : Kind} :
    Ensures context final pre (readDeclared context current contract kind) fun bound =>
      Bound context final kind bound := by
  unfold readDeclared
  refine .bind (ensures_read sourced) fun value => ?_
  exact (ensures_anchor fun ⟨_, held⟩ => held.comes.lt).weaken fun _ ⟨_, isBound⟩ => isBound

/-! ## Writes -/

theorem ensures_define {site : Site} {reg : Reg} {width : Width}
    (opened : ∀ generation, Opened context ⟨reg, generation, some site, width⟩) :
    Ensures context final pre (define site reg width) fun value =>
      final.values.definedAt? site reg = some value := by
  intro before value after success
  obtain ⟨keeps, found⟩ := define_spec success
  simp only [define, bind_eq_ok, get_eq_ok, set_eq_ok, pure_eq_ok, Prod.mk.injEq] at success
  obtain ⟨_, _, ⟨rfl, rfl⟩, _, _, ⟨-, rfl⟩, rfl, rfl⟩ := success
  refine ⟨⟨keeps.values, List.prefix_rfl⟩, fun toFinal _ => ⟨fun orderly => ?_, ?_⟩⟩
  · exact ⟨ValueFile.define_induction rfl orderly.opened opened, orderly.owned, orderly.linked,
      orderly.paired⟩
  · exact ValueFile.definedAt?_mono toFinal.values found

theorem ensures_writeAt {place : Addr} {reg : Reg} {contract : KindSet} {origin : Origin}
    (opened : ∀ generation, Opened context ⟨reg, generation, some (.at place), contract.width⟩) :
    Ensures context final pre (writeAt context current place reg contract origin) fun slot =>
      slot.contract = contract ∧ final.values.definedAt? (.at place) reg = some slot.value ∧
        (contract.isWidthOnly = true ∨ Restricts final slot.value contract) := by
  unfold writeAt
  refine .bind (.lift _) fun _ => ?_
  refine .bind (ensures_define opened) fun value => ?_
  refine .bind (ensures_restrict fun ⟨_, found⟩ => ValueFile.lt_of_definedAt? found) fun _ => .pure ?_
  rintro ⟨⟨-, found⟩, recorded⟩
  exact ⟨rfl, found, recorded⟩

/-- The register an instruction writes is provided with the width its opcode defines. -/
theorem provides_own (sourced : context.Sourced) (listed : current.Listed context) {reg : Reg}
    {width : Width} (first : current.instruction.regs[0]? = some reg)
    (defined : definedWidth current.opcode = some width) :
    context.Provides (.at current.addr) reg width := by
  obtain ⟨arguments, found⟩ := sourced.passed
  refine ⟨arguments, found, .written listed.member ?_⟩
  rw [Instruction.definition, listed.opcode, List.head?_eq_getElem?, first]
  simp [defined]

theorem ensures_writeOwn (sourced : context.Sourced) (listed : current.Listed context) {reg : Reg}
    {contract : KindSet} {origin : Origin} (first : current.instruction.regs[0]? = some reg)
    (defined : definedWidth current.opcode = some contract.width) :
    Ensures context final pre (writeAt context current current.addr reg contract origin) fun slot =>
      Held context final contract slot := by
  have provides := provides_own sourced listed first defined
  refine (ensures_writeAt fun generation => .provided rfl provides).weaken ?_
  rintro slot ⟨same, found, recorded⟩
  exact ⟨same, .defined found provides, recorded⟩

theorem ensures_write (sourced : context.Sourced) (listed : current.Listed context)
    {contract : KindSet} (defined : definedWidth current.opcode = some contract.width) :
    Ensures context final pre (write context current 0 contract) fun slot =>
      Held context final contract slot := by
  intro before slot after success
  simp only [write, bind_eq_ok, lift_eq_ok, reg_eq_ok, Prod.mk.injEq] at success
  obtain ⟨_, _, ⟨reg, first, rfl, rfl⟩, writes⟩ := success
  exact ensures_writeOwn sourced listed first defined _ _ _ writes

/-- What is written as a value of a declared type is bound to its kind. -/
theorem ensures_writeDeclared (sourced : context.Sourced) (listed : current.Listed context)
    {type : Descriptor} {kind : Kind}
    (defined : definedWidth current.opcode = some current.contract.width) :
    Ensures context final pre (writeDeclared context current type kind) fun bound =>
      Bound context final kind bound := by
  unfold writeDeclared
  refine .bind (ensures_write sourced listed defined) fun dest => ?_
  refine .bind (ensures_anchor fun ⟨_, held⟩ => held.comes.lt) fun bound => ?_
  refine .bind ensures_declare fun _ => .pure ?_
  exact fun ⟨⟨_, _, isBound⟩, _⟩ => isBound

end Lower

end Dalvik
