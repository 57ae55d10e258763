import Dalvik.Proofs.Lowering.Values
import Dalvik.Proofs.Success

/-!
# Reading and writing registers

What the steps that lowering rules are made of do when they succeed.
-/

namespace Dalvik.Lower

variable {α β : Type} {context : LoweringContext} {current : Current}
  {before after : LoweringState}

/-! ## Steps that succeed -/

theorem bind_eq_ok {first : Lower α} {next : α → Lower β} {result : β × LoweringState} :
    (first >>= next).run before = .ok result ↔ ∃ value middle, first.run before = .ok (value, middle) ∧
      (next value).run middle = .ok result := by
  rw [StateT.run_bind, Dalvik.bind_eq_ok, Prod.exists]

theorem pure_eq_ok {value : α} {result : α × LoweringState} :
    (pure value : Lower α).run before = .ok result ↔ (value, before) = result :=
  Dalvik.pure_eq_ok

theorem lift_eq_ok {outcome : Except LiftError α} {result : α × LoweringState} :
    (liftM outcome : Lower α).run before = .ok result ↔
      ∃ value, outcome = .ok value ∧ (value, before) = result := by
  change (outcome >>= fun value => pure (value, before)) = .ok result ↔ _
  rw [Dalvik.bind_eq_ok]
  exact exists_congr fun value => and_congr_right fun _ => Dalvik.pure_eq_ok

theorem get_eq_ok {result : LoweringState × LoweringState} :
    (get : Lower LoweringState).run before = .ok result ↔ (before, before) = result :=
  Dalvik.pure_eq_ok

theorem set_eq_ok {state : LoweringState} {result : PUnit × LoweringState} :
    (set state : Lower PUnit).run before = .ok result ↔ (⟨⟩, state) = result :=
  Dalvik.pure_eq_ok

theorem modify_eq_ok {change : LoweringState → LoweringState} {result : PUnit × LoweringState} :
    (modify change : Lower PUnit).run before = .ok result ↔ (⟨⟩, change before) = result :=
  Dalvik.pure_eq_ok

/-! ## Steps that leave values alone -/

theorem mapM_keeps {act : α → Lower β} {list : List α} {results : List β}
    (each : ∀ item before after result, (act item).run before = .ok (result, after) →
      Keeps before after)
    (success : (list.mapM act).run before = .ok (results, after)) : Keeps before after := by
  induction list generalizing before results with
  | nil =>
      obtain ⟨-, rfl⟩ := Prod.mk.inj (pure_eq_ok.mp success)
      exact .refl _
  | cons item rest ih =>
      simp only [List.mapM_cons, bind_eq_ok, pure_eq_ok, Prod.mk.injEq] at success
      obtain ⟨value, middle, first, values, _, others, rfl, rfl⟩ := success
      exact (each item before middle value first).trans (ih others)

theorem record_spec {place : Option Addr} {constraint : Constraint} {origin : Origin} {result : Unit}
    (success : (record place constraint origin).run before = .ok (result, after)) :
    Keeps before after := by
  obtain ⟨-, rfl⟩ := Prod.mk.inj (modify_eq_ok.mp success)
  exact ⟨List.prefix_rfl, rfl⟩

theorem restrict_spec {place : Addr} {value : Nat} {kinds : KindSet} {origin : Origin} {result : Unit}
    (success : (restrict place value kinds origin).run before = .ok (result, after)) :
    Keeps before after := by
  unfold restrict at success
  split at success
  · exact record_spec success
  · obtain ⟨-, rfl⟩ := Prod.mk.inj (pure_eq_ok.mp success)
    exact ⟨List.prefix_rfl, rfl⟩

theorem declare_spec {value : Nat} {type : Descriptor} {result : Unit}
    (success : (declare value type).run before = .ok (result, after)) :
    Keeps before after := by
  unfold declare at success
  split at success
  · obtain ⟨-, rfl⟩ := Prod.mk.inj (modify_eq_ok.mp success)
    exact ⟨List.prefix_rfl, rfl⟩
  · obtain ⟨-, rfl⟩ := Prod.mk.inj (pure_eq_ok.mp success)
    exact ⟨List.prefix_rfl, rfl⟩

theorem sameKind_spec {first second : Slot} {result : Unit}
    (success : (sameKind current first second).run before = .ok (result, after)) :
    Keeps before after := by
  unfold sameKind at success
  split at success
  · obtain ⟨-, rfl⟩ := Prod.mk.inj (pure_eq_ok.mp success)
    exact ⟨List.prefix_rfl, rfl⟩
  · exact record_spec success

/-- Binding a slot to a kind keeps its value. -/
theorem anchor_spec {slot anchored : Slot} {kind : Kind}
    (success : (anchor current slot kind).run before = .ok (anchored, after)) :
    anchored.value = slot.value ∧ Keeps before after := by
  simp only [anchor, bind_eq_ok, pure_eq_ok, Prod.mk.injEq] at success
  obtain ⟨_, _, recorded, rfl, rfl⟩ := success
  exact ⟨rfl, record_spec recorded⟩

theorem anchorElement_spec {slot anchored : Slot} {kind : Kind}
    (success : (anchorElement current slot kind).run before = .ok (anchored, after)) :
    anchored.value = slot.value ∧ Keeps before after := by
  simp only [anchorElement, bind_eq_ok, pure_eq_ok, Prod.mk.injEq] at success
  obtain ⟨bound, _, isBound, rfl, rfl⟩ := success
  obtain ⟨same, kept⟩ := anchor_spec isBound
  refine ⟨?_, kept⟩
  split
  · exact same
  · rfl

/-! ## Reads -/

theorem checkBounds_eq_ok {reg : Reg} {width : Width} {result : Unit}
    (success : checkBounds context current reg width = .ok result) :
    reg.number + width.slots ≤ context.code.registers := by
  unfold checkBounds at success
  split at success
  · cases success
  · rename_i inside
    exact Nat.not_lt.mp inside

/-- The values of a register that is read: a new one, or those of the definitions
that reach the read. -/
theorem resolve_spec {reg : Reg} {width : Width} {resolved : ValueFile.Resolved}
    (success : (resolve context current reg width).run before = .ok (resolved, after)) :
    before.values.values <+: after.values.values ∧ after.merges = before.merges ∧
      ((context.readable current.addr reg width = [] ∧ resolved.aliases = [] ∧
          ∃ record, after.values.values[resolved.value]? = some record ∧ record.site = none ∧
            record.width = width) ∨
        ∃ d others, context.readable current.addr reg width = d :: others ∧
          after.values.definedAt? d.site d.reg = some resolved.value ∧
          List.Forall₂ (fun e other => after.values.definedAt? e.site e.reg = some other)
            others resolved.aliases) := by
  simp only [resolve, bind_eq_ok, get_eq_ok, set_eq_ok, pure_eq_ok, Prod.mk.injEq] at success
  obtain ⟨_, _, ⟨rfl, rfl⟩, _, _, ⟨-, rfl⟩, rfl, rfl⟩ := success
  obtain ⟨extended, values⟩ :=
    @ValueFile.resolve_spec context.states reg current.addr width _ _ _ _ rfl rfl
  exact ⟨extended, rfl, values⟩

theorem merge_spec {place : Addr} {value : Nat} {others : List Nat} {result : Unit}
    (success : (merge place value others).run before = .ok (result, after)) :
    after.values = before.values ∧ after.merges = before.merges ++ others.map (·, value) := by
  obtain ⟨-, rfl⟩ := Prod.mk.inj (modify_eq_ok.mp success)
  exact ⟨rfl, rfl⟩

theorem readReaching_spec {reg : Reg} {contract : KindSet} {origin : Origin} {slot : Slot}
    {reaching : List Nat}
    (success : (readReaching context current reg contract origin).run before =
      .ok ((slot, reaching), after)) :
    Performs context current.addr before [(reg, contract.width)] [slot.value] after := by
  simp only [readReaching, bind_eq_ok, lift_eq_ok, pure_eq_ok, Prod.mk.injEq] at success
  obtain ⟨_, _, ⟨_, bounded, -, rfl⟩, resolved, first, resolves, _, second, merges, _, third, restricts,
    ⟨rfl, rfl⟩, rfl⟩ := success
  obtain ⟨added, sameMerges, values⟩ := resolve_spec resolves
  obtain ⟨sameValues, pairs⟩ := merge_spec merges
  have kept : Keeps second third := restrict_spec restricts
  suffices read :
      Performs context current.addr before [(reg, contract.width)] [resolved.value] second from
    read.keep kept
  rw [sameMerges] at pairs
  rw [← sameValues] at added values
  have extended : Extends before second := ⟨added, pairs ▸ List.prefix_append _ _⟩
  have inside : ∀ read ∈ [(reg, contract.width)],
      read.1.number + read.2.slots ≤ context.code.registers := by
    intro read member
    obtain rfl := List.mem_singleton.mp member
    exact checkBounds_eq_ok bounded
  rcases values with ⟨nothing, none, record, found, isNew, isWidth⟩ | ⟨d, others, reaching, own, aliases⟩
  · refine ⟨extended, .cons (.undefined nothing found isNew isWidth) .nil, inside,
      fun pair member => .inl ?_⟩
    simpa [pairs, none] using member
  · refine ⟨extended, .cons (.defined reaching own fun e member => ?_) .nil, inside,
      fun pair member => ?_⟩
    · obtain ⟨other, isAlias, found⟩ := exists_of_forall₂ aliases member
      exact ⟨other, found, pairs ▸ List.mem_append_right _ (List.mem_map_of_mem isAlias)⟩
    · rcases List.mem_append.mp (pairs ▸ member) with old | new
      · exact .inl old
      · obtain ⟨other, isAlias, rfl⟩ := List.mem_map.mp new
        obtain ⟨e, inOthers, found⟩ := exists_of_forall₂ aliases.flip isAlias
        refine .inr ⟨_, List.mem_singleton_self _, ⟨e, ?_, found⟩, d, ?_, own⟩
        · exact reaching ▸ List.mem_cons_of_mem _ inOthers
        · exact reaching ▸ List.mem_cons_self

theorem readAs_spec {reg : Reg} {contract : KindSet} {origin : Origin} {slot : Slot}
    (success : (readAs context current reg contract origin).run before = .ok (slot, after)) :
    Performs context current.addr before [(reg, contract.width)] [slot.value] after := by
  simp only [readAs, bind_eq_ok, pure_eq_ok, Prod.mk.injEq] at success
  obtain ⟨⟨slot, reaching⟩, _, reads, rfl, rfl⟩ := success
  exact readReaching_spec reads

theorem reg_eq_ok {position : Nat} {reg : Reg} :
    current.reg position = .ok reg ↔ current.instruction.regs[position]? = some reg := by
  unfold Current.reg
  cases current.instruction.regs[position]? with
  | none => simp [Current.fail, malformed]
  | some found => simp

theorem read_spec {position : Nat} {contract : KindSet} {slot : Slot}
    (success : (read context current position contract).run before = .ok (slot, after)) :
    ∃ reg, current.instruction.regs[position]? = some reg ∧
      Performs context current.addr before [(reg, contract.width)] [slot.value] after := by
  simp only [read, bind_eq_ok, lift_eq_ok, reg_eq_ok, Prod.mk.injEq] at success
  obtain ⟨_, _, ⟨reg, given, rfl, rfl⟩, reads⟩ := success
  exact ⟨reg, given, readAs_spec reads⟩

theorem readArray_spec {position : Nat} {contract : KindSet} {slot : Slot}
    {type : Option Descriptor}
    (success : (readArray context current position contract).run before =
      .ok ((slot, type), after)) :
    ∃ reg, current.instruction.regs[position]? = some reg ∧
      Performs context current.addr before [(reg, contract.width)] [slot.value] after := by
  simp only [readArray, bind_eq_ok, lift_eq_ok, reg_eq_ok, get_eq_ok, pure_eq_ok,
    Prod.mk.injEq] at success
  obtain ⟨_, _, ⟨reg, given, rfl, rfl⟩, ⟨slot, reaching⟩, _, reads, _, _, ⟨rfl, rfl⟩,
    ⟨rfl, -⟩, rfl⟩ := success
  exact ⟨reg, given, readReaching_spec reads⟩

/-! ## Writes -/

theorem define_spec {site : Site} {reg : Reg} {width : Width} {value : Nat}
    (success : (define site reg width).run before = .ok (value, after)) :
    Keeps before after ∧
      after.values.definedAt? site reg = some value := by
  simp only [define, bind_eq_ok, get_eq_ok, set_eq_ok, pure_eq_ok, Prod.mk.injEq] at success
  obtain ⟨_, _, ⟨rfl, rfl⟩, _, _, ⟨-, rfl⟩, rfl, rfl⟩ := success
  obtain ⟨extended, found⟩ := @ValueFile.define_spec before.values _ site reg width _ rfl
  exact ⟨⟨extended, rfl⟩, found⟩

theorem writeAt_spec {place : Addr} {reg : Reg} {contract : KindSet} {origin : Origin} {slot : Slot}
    (success : (writeAt context current place reg contract origin).run before = .ok (slot, after)) :
    Keeps before after ∧
      after.values.definedAt? (.at place) reg = some slot.value := by
  simp only [writeAt, bind_eq_ok, lift_eq_ok, pure_eq_ok, Prod.mk.injEq] at success
  obtain ⟨_, _, ⟨_, -, -, rfl⟩, value, _, defines, _, _, restricts, rfl, rfl⟩ := success
  obtain ⟨one, found⟩ := define_spec defines
  have two := restrict_spec restricts
  exact ⟨one.trans two, ValueFile.definedAt?_mono two.values found⟩

theorem write_spec {position : Nat} {contract : KindSet} {slot : Slot}
    (success : (write context current position contract).run before = .ok (slot, after)) :
    ∃ reg, current.instruction.regs[position]? = some reg ∧
      Keeps before after ∧
      after.values.definedAt? (.at current.addr) reg = some slot.value := by
  simp only [write, bind_eq_ok, lift_eq_ok, reg_eq_ok, Prod.mk.injEq] at success
  obtain ⟨_, _, ⟨reg, given, rfl, rfl⟩, writes⟩ := success
  exact ⟨reg, given, writeAt_spec writes⟩

end Dalvik.Lower
