import Dalvik.Lift
import Dalvik.Proofs.Lowering.Calls

/-!
# Lowering methods

What the statements of a whole method say of the values and pairs that lowering has
gathered in the end.
-/

namespace Dalvik

namespace Lower

variable {context : LoweringContext} {current : Current} {before after : LoweringState}
  {statements : List (Statement Slot)}

theorem rule_spec (opcode : current.instruction.opcode = some current.opcode)
    (success : (rule context current).run before = .ok (statements, after)) :
    Means context current before statements after := by
  unfold rule at success
  split at success <;> rename_i family
  · obtain ⟨rfl, rfl⟩ := Prod.mk.inj (pure_eq_ok.mp success)
    refine .nothing (.refl _) ?_
    simp [Instruction.reads, opcode, family, Opcode.readOperands]
  · exact move_spec opcode family success
  · exact moveResult_spec opcode family success
  · exact moveException_spec opcode family success
  · obtain ⟨rfl, rfl⟩ := Prod.mk.inj (pure_eq_ok.mp success)
    refine .only (.nothing (.refl _)) ?_ rfl rfl
    simp [Instruction.reads, opcode, family, Opcode.readOperands]
  · exact returnValue_spec opcode family success
  · exact const_spec opcode family success
  · refine loadItem_spec opcode ?_ (keeps_of_family family rfl) (fun _ => rfl) success
    simp [Opcode.readOperands, family]
  · refine loadItem_spec opcode ?_ (keeps_of_family family rfl) (fun _ => rfl) success
    simp [Opcode.readOperands, family]
  · refine useObject_spec opcode ?_ (keeps_of_family family rfl) (fun _ => rfl) (fun _ => rfl) success
    simp [Opcode.readOperands, family]
  · refine useObject_spec opcode ?_ (keeps_of_family family rfl) (fun _ => rfl) (fun _ => rfl) success
    simp [Opcode.readOperands, family]
  · refine makeTyped_spec opcode ?_ (keeps_of_family family rfl) (fun _ _ => rfl) success
    simp [Opcode.readOperands, family, width_object]
  · exact instanceOf_spec opcode family success
  · refine compute_spec opcode ?_ (keeps_of_family family rfl) (fun _ => rfl) success
    simp [Opcode.readOperands, family, width_object]
  · refine loadItem_spec opcode ?_ (keeps_of_family family rfl) (fun _ => rfl) success
    simp [Opcode.readOperands, family]
  · refine makeTyped_spec opcode ?_ (keeps_of_family family rfl) (fun _ _ => rfl) success
    simp [Opcode.readOperands, family, width_int]
  · exact filledNewArray_spec opcode family success
  · exact fillArrayData_spec opcode family success
  · refine useObject_spec opcode ?_ (keeps_of_family family rfl) (fun _ => rfl) (fun _ => rfl) success
    simp [Opcode.readOperands, family]
  · exact goto_spec opcode family success
  · exact switch_spec opcode family success
  · exact cmp_spec opcode family success
  · exact branch_spec opcode family success
  · exact branchZero_spec opcode family success
  · exact aget_spec opcode family success
  · exact aput_spec opcode family success
  · exact iget_spec opcode family success
  · exact iput_spec opcode family success
  · exact sget_spec opcode family success
  · exact sput_spec opcode family success
  · exact invoke_spec opcode family success
  · refine compute_spec opcode ?_ (keeps_of_family family rfl) (fun _ => rfl) success
    simp [Opcode.readOperands, family, current.width_contract]
  · exact not_spec opcode family success
  · exact convert_spec opcode family success
  · exact binary_spec opcode (.inl family) success
  · exact binary_spec opcode (.inr (.inl family)) success
  · exact binary_spec opcode (.inr (.inr family)) success

/-- What the statements of an instruction say of the final state: they read the values
of what it reads, and define the value of what it writes. -/
structure Stands (context : LoweringContext) (final : LoweringState) (current : Current)
    (statements : List (Statement Slot)) : Prop where
  opcode : current.instruction.opcode = some current.opcode
  reads : ∃ values, List.Forall₂ (ReadsAs context current.addr final)
      (current.instruction.reads context.pool) values ∧
    (current.opcode.family = .filledNewArray ∧ statements = [.nop] ∨
      (statements.flatMap Statement.uses).map Slot.value = values)
  inside : ∀ read ∈ current.instruction.reads context.pool,
    read.1.number + read.2.slots ≤ context.code.registers
  writes : ∀ statement ∈ statements, ∀ slot, statement.written = some slot →
    ∃ site reg, current.Defines site reg ∧ final.values.definedAt? site reg = some slot.value
  single : statements.length ≤ 1

theorem Means.stands {final : LoweringState} (means : Means context current before statements after)
    (opcode : current.instruction.opcode = some current.opcode) (extended : Extends after final) :
    Stands context final current statements where
  opcode := opcode
  reads := by
    obtain ⟨values, performs, uses⟩ := means.reads
    exact ⟨values, performs.found.imp fun _ _ reads => reads.mono extended, uses⟩
  inside := by
    obtain ⟨_, performs, -⟩ := means.reads
    exact performs.inside
  writes := by
    intro statement member slot written
    obtain ⟨site, reg, defines, found⟩ := means.writes statement member slot written
    exact ⟨site, reg, defines, ValueFile.definedAt?_mono extended.values found⟩
  single := means.single

end Lower

namespace Lift

open Lower

variable {context : LoweringContext} {isLive : Addr → Bool} {before after final : LoweringState}

/-- The live instructions of a list are lowered in order, each with the one after it
in sight. -/
inductive LowersEach (context : LoweringContext) (isLive : Addr → Bool) (final : LoweringState) :
    List Instruction → List (Addr × List (Statement Slot)) → Prop where
  | done : LowersEach context isLive final [] []
  | live {instruction : Instruction} {rest : List Instruction} {opcode : Opcode}
      {statements : List (Statement Slot)} {results : List (Addr × List (Statement Slot))}
      (lives : isLive instruction.addr = true)
      (stands : Stands context final ⟨instruction, opcode, rest.head?⟩ statements)
      (others : LowersEach context isLive final rest results) :
      LowersEach context isLive final (instruction :: rest) ((instruction.addr, statements) :: results)
  | dead {instruction : Instruction} {rest : List Instruction}
      {results : List (Addr × List (Statement Slot))} (dies : isLive instruction.addr = false)
      (others : LowersEach context isLive final rest results) :
      LowersEach context isLive final (instruction :: rest) results

/-- The live instructions of a list, each with the one after it in the list. -/
def liveSteps (isLive : Addr → Bool) : List Instruction → List (Instruction × Option Instruction)
  | [] => []
  | instruction :: rest =>
      if isLive instruction.addr then (instruction, rest.head?) :: liveSteps isLive rest
      else liveSteps isLive rest

theorem liveSteps_map_fst (list : List Instruction) :
    (liveSteps isLive list).map Prod.fst = list.filter (isLive ·.addr) := by
  induction list with
  | nil => rfl
  | cons instruction rest ih =>
      rw [liveSteps, List.filter_cons]
      split
      · rw [List.map_cons, ih]
      · exact ih

theorem split_of_mem_liveSteps {list : List Instruction} {step : Instruction × Option Instruction}
    (member : step ∈ liveSteps isLive list) :
    isLive step.1.addr = true ∧
      ∃ earlier later, list = earlier ++ step.1 :: later ∧ step.2 = later.head? := by
  induction list with
  | nil => cases member
  | cons instruction rest ih =>
      have inRest : step ∈ liveSteps isLive rest → isLive step.1.addr = true ∧
          ∃ earlier later, instruction :: rest = earlier ++ step.1 :: later ∧
            step.2 = later.head? := by
        intro member
        obtain ⟨lives, earlier, later, rfl, next⟩ := ih member
        exact ⟨lives, instruction :: earlier, later, rfl, next⟩
      rw [liveSteps] at member
      split at member
      · rename_i lives
        rcases List.mem_cons.mp member with rfl | later
        · exact ⟨lives, [], rest, rfl, rfl⟩
        · exact inRest later
      · exact inRest member

/-- The live instructions are lowered one after the other. -/
theorem lowerEach_eq_mapM (context : LoweringContext) (list : List Instruction) :
    lowerEach context isLive list = (liveSteps isLive list).mapM fun step => do
      let statements ← Lower.instruction context step.1 step.2
      return (step.1.addr, statements) := by
  induction list with
  | nil => rfl
  | cons instruction rest ih =>
      rw [lowerEach, liveSteps]
      split
      · simp only [List.mapM_cons, ih, bind_assoc, pure_bind]
      · exact ih

/-- A pair of values that reach one read of a live instruction. -/
def PairsIn (context : LoweringContext) (isLive : Addr → Bool) (state : LoweringState)
    (list : List Instruction) (pair : Nat × Nat) : Prop :=
  ∃ instruction ∈ list, isLive instruction.addr = true ∧
    ∃ read ∈ instruction.reads context.pool, Pairs context instruction.addr state read pair

theorem instruction_spec {instruction : Instruction} {next : Option Instruction}
    {statements : List (Statement Slot)}
    (success : (Lower.instruction context instruction next).run before = .ok (statements, after)) :
    ∃ opcode, instruction.opcode = some opcode ∧
      Means context ⟨instruction, opcode, next⟩ before statements after := by
  unfold Lower.instruction at success
  split at success
  · rename_i opcode isOpcode
    exact ⟨opcode, isOpcode, rule_spec isOpcode success⟩
  · exact absurd success throw_eq_ok

theorem lowerEach_spec {list : List Instruction} {results : List (Addr × List (Statement Slot))}
    (success : (lowerEach context isLive list).run before = .ok (results, after)) :
    Extends before after ∧
      (∀ pair ∈ after.merges, pair ∈ before.merges ∨ PairsIn context isLive after list pair) ∧
      ∀ final, Extends after final → LowersEach context isLive final list results := by
  induction list generalizing before results with
  | nil =>
      obtain ⟨rfl, rfl⟩ := Prod.mk.inj (Lower.pure_eq_ok.mp success)
      exact ⟨.refl _, fun _ member => .inl member, fun _ _ => .done⟩
  | cons instruction rest ih =>
      rw [lowerEach] at success
      split at success
      · rename_i lives
        simp only [Lower.bind_eq_ok, Lower.pure_eq_ok, Prod.mk.injEq] at success
        obtain ⟨statements, middle, first, others, _, more, rfl, rfl⟩ := success
        obtain ⟨opcode, isOpcode, means⟩ := instruction_spec first
        obtain ⟨extended, pairs, lowers⟩ := ih more
        obtain ⟨values, performs, -⟩ := means.reads
        refine ⟨performs.extended.trans extended, fun pair member => ?_, fun final later =>
          .live lives (means.stands isOpcode (extended.trans later)) (lowers final later)⟩
        rcases pairs pair member with old | ⟨other, inRest, rest⟩
        · rcases performs.added pair old with older | ⟨read, isRead, reaches⟩
          · exact .inl older
          · exact .inr ⟨instruction, List.mem_cons_self, lives, read, isRead, reaches.mono extended⟩
        · exact .inr ⟨other, List.mem_cons_of_mem _ inRest, rest⟩
      · rename_i dies
        obtain ⟨extended, pairs, lowers⟩ := ih success
        refine ⟨extended, fun pair member => ?_, fun final later =>
          .dead (Bool.eq_false_iff.mpr dies) (lowers final later)⟩
        exact (pairs pair member).imp_right fun ⟨other, inRest, rest⟩ =>
          ⟨other, List.mem_cons_of_mem _ inRest, rest⟩

/-- The statements of an instruction, with one to label if it has none, are at its
address. -/
theorem placed_spec {graph : FlowGraph} {current : Current} {statements : List (Statement Slot)}
    (stands : Stands context final current statements) :
    ∃ all, Stands context final current all ∧
      placed graph current.addr statements = all.map (some current.addr, ·) := by
  unfold placed
  split
  · rename_i labelled
    obtain rfl := List.isEmpty_iff.mp (Bool.and_eq_true_iff.mp labelled).1
    refine ⟨[.nop], ⟨stands.opcode, ?_, stands.inside, ?_, Nat.le_refl 1⟩, rfl⟩
    · obtain ⟨values, found, ⟨-, impossible⟩ | uses⟩ := stands.reads
      · cases impossible
      · exact ⟨values, found, .inr uses⟩
    · intro statement member slot written
      rw [List.mem_singleton.mp member] at written
      cases written
  · exact ⟨statements, stands, rfl⟩

theorem filter_placed {graph : FlowGraph} {own addr : Addr} {statements : List (Statement Slot)} :
    (placed graph own statements).filter (·.1 == some addr) =
      if own = addr then placed graph own statements else [] := by
  unfold placed
  generalize (if statements.isEmpty && graph.isTarget own then [Statement.nop] else statements) = all
  dsimp only
  split
  · rename_i here
    rw [List.filter_eq_self]
    simp [here]
  · rename_i elsewhere
    rw [List.filter_eq_nil_iff]
    simp [elsewhere]

/-- Nothing is at the address of no live instruction. -/
theorem LowersEach.none_at {graph : FlowGraph} {list : List Instruction}
    {results : List (Addr × List (Statement Slot))}
    (lowers : LowersEach context isLive final list results)
    {addr : Addr} (absent : ∀ instruction ∈ list, isLive instruction.addr = true →
      instruction.addr ≠ addr) :
    (results.flatMap fun (addr, statements) => placed graph addr statements).filter
      (·.1 == some addr) = [] := by
  induction lowers with
  | done => rfl
  | live lives stands others ih =>
      rw [List.flatMap_cons, List.filter_append, filter_placed,
        if_neg (absent _ List.mem_cons_self lives), List.nil_append]
      exact ih fun other inRest => absent other (List.mem_cons_of_mem _ inRest)
  | dead dies others ih =>
      exact ih fun other inRest => absent other (List.mem_cons_of_mem _ inRest)

/-- A live instruction's statements are all that is at its address. -/
theorem LowersEach.at {graph : FlowGraph} {list : List Instruction}
    {results : List (Addr × List (Statement Slot))}
    (lowers : LowersEach context isLive final list results)
    (distinct : (list.map Instruction.addr).Nodup) {earlier later : List Instruction}
    {instruction : Instruction} (split : list = earlier ++ instruction :: later)
    (lives : isLive instruction.addr = true) :
    ∃ opcode statements, Stands context final ⟨instruction, opcode, later.head?⟩ statements ∧
      (results.flatMap fun (addr, statements) => placed graph addr statements).filter
        (·.1 == some instruction.addr) = statements.map (some instruction.addr, ·) := by
  induction lowers generalizing earlier with
  | done => simp at split
  | @live first rest opcode statements results firstLives stands others ih =>
      rw [List.map_cons, List.nodup_cons] at distinct
      rw [List.flatMap_cons, List.filter_append, filter_placed]
      cases earlier with
      | nil =>
          obtain ⟨rfl, rfl⟩ := List.cons.inj split
          obtain ⟨all, standsAll, same⟩ := @placed_spec context final graph _ _ stands
          refine ⟨opcode, all, standsAll, ?_⟩
          rw [if_pos rfl, others.none_at, List.append_nil]
          · exact same
          · exact fun other inRest _ same => distinct.1 (same ▸ List.mem_map_of_mem inRest)
      | cons head earlier =>
          obtain ⟨rfl, rfl⟩ := List.cons.inj split
          have different : first.addr ≠ instruction.addr := fun same =>
            distinct.1 (same ▸ List.mem_map_of_mem (List.mem_append_right _ List.mem_cons_self))
          rw [if_neg different, List.nil_append]
          exact ih distinct.2 rfl
  | @dead first rest results dies others ih =>
      rw [List.map_cons, List.nodup_cons] at distinct
      cases earlier with
      | nil =>
          obtain ⟨rfl, rfl⟩ := List.cons.inj split
          rw [lives] at dies
          cases dies
      | cons head earlier =>
          obtain ⟨rfl, rfl⟩ := List.cons.inj split
          exact ih distinct.2 rfl

/-- The results have the addresses of the live instructions. -/
theorem LowersEach.addrs {list : List Instruction} {results : List (Addr × List (Statement Slot))}
    (lowers : LowersEach context isLive final list results) :
    results.map Prod.fst = (list.map Instruction.addr).filter isLive := by
  induction lowers with
  | done => rfl
  | live lives _ _ ih => rw [List.map_cons, List.map_cons, List.filter_cons_of_pos lives, ih]
  | dead dies _ ih => rw [List.map_cons, List.filter_cons_of_neg (Bool.eq_false_iff.mp dies), ih]

/-- A live instruction has a result, which stands for it. -/
theorem LowersEach.exists_result {list : List Instruction} {results : List (Addr × List (Statement Slot))}
    (lowers : LowersEach context isLive final list results) {instruction : Instruction}
    (listed : instruction ∈ list) (lives : isLive instruction.addr = true) :
    ∃ opcode next statements, Stands context final ⟨instruction, opcode, next⟩ statements ∧
      (instruction.addr, statements) ∈ results := by
  induction lowers with
  | done => cases listed
  | live _ stands _ ih =>
      rcases List.mem_cons.mp listed with rfl | inRest
      · exact ⟨_, _, _, stands, List.mem_cons_self⟩
      · obtain ⟨opcode, next, statements, others, member⟩ := ih inRest
        exact ⟨opcode, next, statements, others, List.mem_cons_of_mem _ member⟩
  | dead dies _ ih =>
      rcases List.mem_cons.mp listed with rfl | inRest
      · rw [lives] at dies
        cases dies
      · exact ih inRest

/-- The identity statement of an argument defines its value. -/
structure Introduces (final : LoweringState) (argument : Argument) (statement : Statement Slot) :
    Prop where
  identity : ∃ slot, statement = .identity slot argument.source ∧
    final.values.definedAt? .param argument.reg = some slot.value

theorem argument_spec {argument : Argument} {statement : Statement Slot}
    (success : (Lower.argument argument).run before = .ok (statement, after)) :
    Keeps before after ∧ ∀ final, Extends after final → Introduces final argument statement := by
  simp only [Lower.argument, Lower.bind_eq_ok] at success
  obtain ⟨value, _, defines, _, middle, records, success⟩ := success
  obtain ⟨defined, found⟩ := define_spec defines
  obtain ⟨kept, rfl⟩ : Keeps middle after ∧
      statement = .identity ⟨value, .ofKind argument.kind⟩ argument.source := by
    split at success
    · simp only [Lower.bind_eq_ok, Lower.pure_eq_ok, Prod.mk.injEq] at success
      obtain ⟨_, _, declares, rfl, rfl⟩ := success
      exact ⟨declare_spec declares, rfl⟩
    · obtain ⟨rfl, rfl⟩ := Prod.mk.inj (Lower.pure_eq_ok.mp success)
      exact ⟨.refl _, rfl⟩
  have rest := (record_spec records).trans kept
  refine ⟨defined.trans rest, fun final later => ⟨_, rfl, ?_⟩⟩
  exact ValueFile.definedAt?_mono (rest.values.trans later.values) found

theorem arguments_mapM_spec {arguments : List Argument} {statements : List (Statement Slot)}
    (success : (arguments.mapM Lower.argument).run before = .ok (statements, after)) :
    Keeps before after ∧
      ∀ final, Extends after final → List.Forall₂ (Introduces final) arguments statements := by
  induction arguments generalizing before statements with
  | nil =>
      obtain ⟨rfl, rfl⟩ := Prod.mk.inj (Lower.pure_eq_ok.mp success)
      exact ⟨.refl _, fun _ _ => .nil⟩
  | cons argument rest ih =>
      simp only [List.mapM_cons, Lower.bind_eq_ok, Lower.pure_eq_ok, Prod.mk.injEq] at success
      obtain ⟨statement, _, first, others, _, more, rfl, rfl⟩ := success
      obtain ⟨kept, introduces⟩ := argument_spec first
      obtain ⟨keptRest, introducesRest⟩ := ih more
      exact ⟨kept.trans keptRest, fun final later =>
        .cons (introduces final (keptRest.extends.trans later)) (introducesRest final later)⟩

/-- How the statements of a method come about: those of the arguments first, then those
of the live instructions. -/
structure LowersMethod (context : LoweringContext) (isLive : Addr → Bool)
    (statements : List (Option Addr × Statement Slot)) (final : LoweringState) : Prop where
  parts : ∃ arguments identities results,
    Argument.ofCode context.code context.pool = .ok arguments ∧
    List.Forall₂ (Introduces final) arguments identities ∧
    LowersEach context isLive final context.code.instructions results ∧
    statements = identities.map (none, ·) ++
      results.flatMap fun (addr, statements) => placed context.graph addr statements
  pairs : ∀ pair ∈ final.merges, PairsIn context isLive final context.code.instructions pair

theorem lowerMethod_spec {statements : List (Option Addr × Statement Slot)}
    (success : (lowerMethod context isLive).run {} = .ok (statements, final)) :
    LowersMethod context isLive statements final := by
  simp only [lowerMethod, Lower.allArguments, Lower.bind_eq_ok, Lower.lift_eq_ok, liftCode_eq_ok,
    Lower.pure_eq_ok, Prod.mk.injEq] at success
  obtain ⟨identities, middle, ⟨_, _, ⟨arguments, found, rfl, rfl⟩, introduced⟩, results, _, lowered, rfl,
    rfl⟩ := success
  obtain ⟨kept, introduces⟩ := arguments_mapM_spec introduced
  obtain ⟨extended, pairs, lowers⟩ := lowerEach_spec lowered
  refine ⟨⟨arguments, identities, results, found, introduces _ extended, lowers _ (.refl _), rfl⟩,
    fun pair member => ?_⟩
  rcases pairs pair member with old | new
  · rw [← kept.merges] at old
    cases old
  · exact new

end Lift

end Dalvik
