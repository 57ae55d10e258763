import Dalvik.Proofs.Flow.Reachability
import Dalvik.Proofs.Lift.Correspondence
import Dalvik.Proofs.Opcode

/-!
# Assembling bodies

The statements of a lifted body are those that lowering made, place by place, over the
locals of the webs of their values.
-/

namespace Dalvik

namespace Lift

open Lower

variable {code : Code} {pool : Pool} {options : LiftOptions} {body : Body}
  {context : LoweringContext} {isLive : Addr → Bool} {final : LoweringState}

/-! ## What a lifted body is made of -/

theorem contextOf_eq_ok :
    contextOf code pool = .ok context ↔
      context.code = code ∧ context.pool = pool ∧ FlowGraph.build code pool = .ok context.graph ∧
        ∃ arguments, Argument.ofCode code pool = .ok arguments ∧
          solveReaching context.graph
            ⟨code.registers, arguments.map fun argument => (argument.reg, argument.width)⟩ =
              some context.states := by
  simp only [contextOf, RegisterFrame.ofCode, bind_eq_ok, liftCode_eq_ok, pure_eq_ok]
  constructor
  · rintro ⟨graph, built, frame, ⟨arguments, found, rfl⟩, success⟩
    split at success
    · rename_i states solved
      obtain rfl := pure_eq_ok.mp success
      exact ⟨rfl, rfl, built, arguments, found, solved⟩
    · cases success
  · rintro ⟨rfl, rfl, built, arguments, found, solved⟩
    refine ⟨context.graph, built, _, ⟨arguments, found, rfl⟩, ?_⟩
    rw [solved]
    rfl

theorem run_eq_ok :
    run code pool options = .ok body ↔ validate code = .ok () ∧
      ∃ context, contextOf code pool = .ok context ∧ bodyOf context options = .ok body := by
  simp only [run, bind_eq_ok]
  constructor
  · rintro ⟨_, valid, context, isContext, isBody⟩
    exact ⟨valid, context, isContext, isBody⟩
  · rintro ⟨valid, context, isContext, isBody⟩
    exact ⟨(), valid, context, isContext, isBody⟩

/-- Code passes validation exactly if its instructions do. -/
theorem validate_eq_ok {code : Code} : validate code = .ok () ↔
    ∀ instruction ∈ code.instructions, validateInstruction code instruction = .ok () := by
  rw [validate]
  generalize code.instructions = list
  induction list with
  | nil => simp [pure_eq_ok]
  | cons first rest ih =>
      rw [List.forall_mem_cons, ← ih]
      exact bind_eq_ok.trans ⟨fun ⟨_, isFirst, others⟩ => ⟨isFirst, others⟩,
        fun ⟨isFirst, others⟩ => ⟨(), isFirst, others⟩⟩

/-- An instruction that passes validation has the operands of its opcode. -/
theorem shapeFault_of_valid {code : Code} {instruction : Instruction} {opcode : Opcode}
    (valid : validateInstruction code instruction = .ok ()) (isOpcode : instruction.opcode = some opcode) :
    instruction.shapeFault? opcode = none := by
  rw [validateInstruction, isOpcode] at valid
  dsimp only at valid
  split at valid
  · cases valid
  · assumption

/-- A switch of code that passes validation has an offset. -/
theorem hasOffset_of_valid {code : Code} (valid : validate code = .ok ()) {instruction : Instruction}
    (listed : instruction ∈ code.instructions)
    (isSwitch : instruction.opcode.map Opcode.family = some .switch) :
    instruction.offset.isSome = true := by
  obtain ⟨opcode, isOpcode, family⟩ := Option.map_eq_some_iff.mp isSwitch
  have fits := shapeFault_of_valid (validate_eq_ok.mp valid instruction listed) isOpcode
  rw [(Instruction.operands_of_shape fits).2.1, Opcode.format_of_switch family]
  rfl

theorem bodyOf_eq_ok (assembled : bodyOf context options = .ok body) :
    ∃ statements final solution, LowersMethod context (options.keeps context.graph) statements final ∧
      body = assemble context.code ⟨statements, final⟩ solution := by
  simp only [bodyOf, lower, bind_eq_ok, pure_eq_ok] at assembled
  obtain ⟨lowered, ⟨⟨statements, final⟩, lowers, rfl⟩, assembled⟩ := assembled
  split at assembled
  · cases assembled
  · exact ⟨statements, final, _, lowerMethod_spec lowers, (pure_eq_ok.mp assembled).symm⟩

/-- The statements of a body come from lowered ones, place by place. -/
structure Places (context : LoweringContext) (isLive : Addr → Bool) (final : LoweringState)
    (splitting : SplitContext) (after : Splitting) (body : Body) : Prop where
  live : ∀ earlier instruction later,
    context.code.instructions = earlier ++ instruction :: later → isLive instruction.addr = true →
      ∃ opcode statements, Stands context final ⟨instruction, opcode, later.head?⟩ statements ∧
        (statements = [] ∧ body.statementsAt instruction.addr = [] ∨
          ∃ statement first cast, statements = [statement] ∧
            Split.Renders splitting after statement first cast ∧
            body.statementsAt instruction.addr = first :: cast.toList)
  dead : ∀ addr, (∀ instruction ∈ context.code.instructions, isLive instruction.addr = true →
    instruction.addr ≠ addr) → body.statementsAt addr = []
  arguments : ∃ arguments identities output,
    Argument.ofCode context.code context.pool = .ok arguments ∧
    List.Forall₂ (Introduces final) arguments identities ∧
    Split.Rendered splitting after (identities.map (none, ·)) output ∧
    ∀ source, body.localOfArgument source = Body.localOfSource source (output.map Prod.snd)

theorem statementsAt_eq (body : Body) (addr : Addr) :
    body.statementsAt addr = (body.statements.filter (·.1 == some addr)).map Prod.snd :=
  Body.filterMap_place body.statements (some addr)

theorem filter_map_none {statements : List (Statement Slot)} {addr : Addr} :
    (statements.map ((none : Option Addr), ·)).filter (·.1 == some addr) = [] := by
  rw [List.filter_eq_nil_iff]
  simp

theorem filter_placed_none {graph : FlowGraph} {results : List (Addr × List (Statement Slot))} :
    (results.flatMap fun (addr, statements) => placed graph addr statements).filter
      (·.1 == none) = [] := by
  rw [List.filter_eq_nil_iff]
  intro item member
  obtain ⟨⟨addr, statements⟩, -, isPlaced⟩ := List.mem_flatMap.mp member
  obtain ⟨statement, -, rfl⟩ := List.mem_map.mp isPlaced
  simp

theorem places_of_lowersMethod {statements : List (Option Addr × Statement Slot)}
    {splitting : SplitContext} {after : Splitting}
    (lowers : LowersMethod context isLive statements final)
    (distinct : (context.code.instructions.map Instruction.addr).Nodup)
    (rendered : Split.Rendered splitting after statements body.statements) :
    Places context isLive final splitting after body := by
  obtain ⟨arguments, identities, results, found, introduces, each, rfl⟩ := lowers.parts
  have atAddr : ∀ addr, Split.Rendered splitting after
      ((results.flatMap fun (addr, statements) => placed context.graph addr statements).filter
        (·.1 == some addr)) (body.statements.filter (·.1 == some addr)) := by
    intro addr
    have here := rendered.at (some addr)
    rwa [List.filter_append, filter_map_none, List.nil_append] at here
  constructor
  · intro earlier instruction later split lives
    obtain ⟨opcode, all, stands, same⟩ := each.at distinct split lives
    refine ⟨opcode, all, stands, ?_⟩
    have here := atAddr instruction.addr
    rw [same] at here
    rw [statementsAt_eq]
    cases all with
    | nil => exact .inl ⟨rfl, by rw [Split.rendered_nil here, List.map_nil]⟩
    | cons statement rest =>
        obtain rfl : rest = [] := List.eq_nil_of_length_eq_zero
          (Nat.le_zero.mp (Nat.le_of_succ_le_succ stands.single))
        obtain ⟨first, cast, renders, output⟩ := Split.rendered_singleton here
        exact .inr ⟨statement, first, cast, rfl, renders, output⟩
  · intro addr absent
    have here := atAddr addr
    rw [each.none_at absent] at here
    rw [statementsAt_eq, Split.rendered_nil here, List.map_nil]
  · have here := rendered.at none
    have same : (identities.map ((none : Option Addr), ·)).filter (·.1 == none) =
        identities.map (none, ·) := by
      rw [List.filter_eq_self]
      simp
    rw [List.filter_append, filter_placed_none, List.append_nil, same] at here
    refine ⟨arguments, identities, _, found, introduces, here, fun source => ?_⟩
    rw [Body.localOfArgument, Body.filterMap_place]

namespace Places

variable {splitting : SplitContext} {after : Splitting}

/-- What the statements of an instruction leave defined is the local of the value of a
write that the instruction defines. -/
theorem held (places : Places context isLive final splitting after body)
    {earlier later : List Instruction} {instruction : Instruction}
    (split : context.code.instructions = earlier ++ instruction :: later) {var : Local}
    (defines : Statement.lastWritten (body.statementsAt instruction.addr) = some var) :
    ∃ opcode site reg value, instruction.opcode = some opcode ∧
      Current.Defines ⟨instruction, opcode, later.head?⟩ site reg ∧
      final.values.definedAt? site reg = some value ∧
      after.webs.lookup (splitting.webs.label value) = some var := by
  cases lives : isLive instruction.addr with
  | true =>
      obtain ⟨opcode, statements, stands, ⟨-, none⟩ | ⟨statement, first, cast, rfl, renders, output⟩⟩ :=
        places.live earlier instruction later split lives
      · rw [none] at defines
        cases defines
      · rw [output] at defines
        obtain ⟨slot, written, found⟩ := renders.lastWritten defines
        obtain ⟨site, reg, isTarget, defined⟩ :=
          stands.writes statement (List.mem_singleton_self _) slot written
        exact ⟨opcode, site, reg, slot.value, stands.opcode, isTarget, defined, found⟩
  | false =>
      rw [places.dead instruction.addr] at defines
      · cases defines
      · rintro other listed livesToo same
        rw [same, lives] at livesToo
        cases livesToo

/-- A live instruction's statements read the locals of the values of its reads. -/
theorem reads (places : Places context isLive final splitting after body)
    {earlier later : List Instruction} {instruction : Instruction}
    (split : context.code.instructions = earlier ++ instruction :: later)
    (lives : isLive instruction.addr = true) (taken : ¬ body.Drops instruction) :
    List.Forall₂ (fun read var => ∃ value, ReadsAs context instruction.addr final read value ∧
        after.webs.lookup (splitting.webs.label value) = some var)
      (instruction.reads context.pool) (body.usesAt instruction.addr) := by
  obtain ⟨opcode, statements, stands, cases⟩ := places.live earlier instruction later split lives
  obtain ⟨values, found, uses⟩ := stands.reads
  rcases cases with ⟨rfl, output⟩ | ⟨statement, first, cast, rfl, renders, output⟩
  · have none : values = [] := by
      rcases uses with ⟨-, impossible⟩ | uses
      · cases impossible
      · exact uses.symm
    rw [none] at found
    rw [Body.usesAt, output]
    exact List.forall₂_nil_right_iff.mp found ▸ .nil
  · have locals : body.usesAt instruction.addr = first.uses := by
      rw [Body.usesAt, output, List.head?_cons, Option.elim_some]
    rcases uses with ⟨family, filled⟩ | uses
    · obtain rfl := (List.cons.inj filled).1
      have nothing : first.uses = [] := List.forall₂_nil_left_iff.mp renders.uses
      refine absurd ⟨?_, locals.trans nothing⟩ taken
      rw [stands.opcode, Option.map_some, family]
    · rw [List.flatMap_singleton] at uses
      rw [← uses] at found
      rw [locals]
      apply (forall₂_trans (List.forall₂_map_right_iff.mp found) renders.uses).imp
      rintro read var ⟨slot, reads, named⟩
      exact ⟨slot.value, reads, named⟩

end Places

/-- Webs have locals of their own. -/
theorem eq_iff_connected {after : Splitting} {size : Nat} {pairs : List (Nat × Nat)}
    (valid : after.Valid) (inside : ∀ pair ∈ pairs, pair.1 < size ∧ pair.2 < size)
    {first second : Nat} (firstInside : first < size) (secondInside : second < size) {var other : Local}
    (isVar : after.webs.lookup (((Partition.discrete size).unionAll pairs).label first) = some var)
    (isOther :
      after.webs.lookup (((Partition.discrete size).unionAll pairs).label second) = some other) :
    var = other ↔ Relation.EqvGen (fun a b => (a, b) ∈ pairs) first second := by
  rw [← Partition.label_discrete_unionAll_iff inside firstInside secondInside]
  constructor
  · rintro rfl
    exact valid.distinct _ _ var isVar isOther
  · intro same
    rw [same] at isVar
    exact Option.some.inj (isVar.symm.trans isOther)

/-- Lifting makes the locals of a body stand for the values of lowering. -/
theorem correspondence {statements : List (Option Addr × Statement Slot)} {solution : Solution}
    (lowers : LowersMethod context isLive statements final)
    (distinct : (context.code.instructions.map Instruction.addr).Nodup)
    (small : context.code.registers ≤ 65536) :
    ∃ names, Correspondence context isLive final names
      (assemble context.code ⟨statements, final⟩ solution) := by
  let splitting : SplitContext :=
    ⟨solution, (Partition.discrete final.values.values.length).unionAll final.merges⟩
  obtain ⟨serves, rendered⟩ := Split.statements_spec splitting statements Splitting.valid_empty
  have places : Places context isLive final splitting _ (assemble context.code ⟨statements, final⟩
      solution) := places_of_lowersMethod lowers distinct rendered
  refine ⟨fun value => ((Split.statements splitting statements).run {}).2.webs.lookup
    (splitting.webs.label value), ?_⟩
  constructor
  · intro instruction listed lives read isRead
    obtain ⟨earlier, later, split⟩ := List.append_of_mem listed
    obtain ⟨opcode, own, stands, -⟩ := places.live earlier instruction later split lives
    obtain ⟨values, found, -⟩ := stands.reads
    obtain ⟨value, -, reads⟩ := exists_of_forall₂ found isRead
    exact ⟨stands.inside read isRead, value, reads⟩
  · intro instruction listed lives taken
    obtain ⟨earlier, later, split⟩ := List.append_of_mem listed
    exact places.reads split lives taken
  · intro instruction listed dies
    rw [Body.usesAt, places.dead instruction.addr]
    · rfl
    · rintro other - lives same
      rw [same, dies] at lives
      cases lives
  · intro instruction listed reg width var defines holds
    cases holds with
    | own last =>
        obtain ⟨earlier, later, split⟩ := List.append_of_mem listed
        obtain ⟨opcode, site, own, value, isOpcode, target, defined, found⟩ := places.held split last
        cases target with
        | own _ first =>
            obtain rfl := Option.some.inj (first.symm.trans (head_of_definition defines))
            exact ⟨value, defined, found⟩
        | result passesOn _ _ =>
            rw [hasResult_of_definition isOpcode defines] at passesOn
            cases passesOn
    | @producer call _ follows calls _ last =>
        obtain ⟨earlier, later, split⟩ := follows
        have split : context.code.instructions = earlier ++ call :: instruction :: later := by
          rw [← split, List.append_assoc]
          rfl
        obtain ⟨opcode, site, own, value, isOpcode, target, defined, found⟩ := places.held split last
        cases target with
        | own keeps _ =>
            rw [isOpcode, Option.map_some, Option.getD_some] at calls
            rw [calls] at keeps
            cases keeps
        | result _ isNext first =>
            obtain rfl := Option.some.inj isNext
            obtain rfl := Option.some.inj (first.symm.trans (head_of_definition defines))
            exact ⟨value, defined, found⟩
  · intro arguments found argument member
    obtain ⟨arguments', identities, output, found', introduces, identified, locals⟩ := places.arguments
    obtain rfl := Except.ok.inj (found.symm.trans found')
    rw [locals]
    have sources := (Argument.ofCode_spec found small).2.imp Argument.Precedes.sources
    exact Split.localOfSource_spec introduces identified sources member
  · exact lowers.pairs
  · intro first firstInside second secondInside var other isVar isOther
    refine eq_iff_connected serves.valid (fun pair member => ?_) firstInside secondInside isVar isOther
    obtain ⟨_, -, -, _, -, ⟨_, -, isFirst⟩, _, -, isSecond⟩ := lowers.pairs pair member
    exact ⟨ValueFile.lt_of_definedAt? isFirst, ValueFile.lt_of_definedAt? isSecond⟩

end Lift

end Dalvik
