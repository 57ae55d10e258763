import Dalvik.Proofs.Lowering.Method
import Dalvik.Proofs.Lowering.Passing
import Dalvik.Proofs.Lowering.Remembering

/-!
# What lowering a method gathers

All statements of a method are accounted for in the state that lowering leaves, and
each value at a place with a declared type is bound to the kind of this type.  Where an
instruction accesses an array, its declared type is the one that is known there.
-/

namespace Dalvik

/-- The kind of the declared type of what an identity statement introduces. -/
def IdentitySource.declaredKind : IdentitySource → Option Kind
  | .this => some .object
  | .parameter _ type => Kind.ofType type
  | .caughtException => none

namespace Argument

theorem ofParams_declared {reg : Reg} {index : Nat} {types : List Descriptor} :
    ∀ argument ∈ ofParams reg index types,
      argument.source.declaredKind = some argument.kind ∧ argument.kind.width = argument.width := by
  induction types generalizing reg index with
  | nil => exact fun _ member => by cases member
  | cons type types ih =>
      rw [ofParams]
      split
      · rename_i width kind isWidth isKind
        refine List.forall_mem_cons.mpr ⟨⟨isKind, ?_⟩, ih⟩
        exact Option.some.inj ((Lower.width_ofType isKind).symm.trans isWidth)
      · exact ih

/-- An argument has the kind of its declared type, and the width of the kind. -/
theorem declaredKind_of_mem {code : Code} {pool : Pool} {arguments : List Argument}
    (success : ofCode code pool = .ok arguments) {argument : Argument} (member : argument ∈ arguments) :
    argument.source.declaredKind = some argument.kind ∧ argument.kind.width = argument.width := by
  simp only [ofCode, bind_eq_ok, pure_eq_ok] at success
  obtain ⟨method, -, first, -, rfl⟩ := success
  split at member
  · exact ofParams_declared argument member
  · rcases List.mem_cons.mp member with rfl | member
    · exact ⟨rfl, rfl⟩
    · exact ofParams_declared argument member

end Argument

namespace Lift

open Lower

variable {context : LoweringContext} {isLive : Addr → Bool} {final : LoweringState}

/-- A live instruction that is lowered: the state and the array types that are known there,
and the statements that it becomes. -/
structure LoweredStep where
  current : Current
  state : LoweringState
  known : ArrayTypes
  statements : List (Statement Slot)

/-- How the live instructions of a list are lowered, as far as they are. -/
def stepsFrom (context : LoweringContext) (isLive : Addr → Bool) :
    LoweringState → ArrayTypes → List Instruction → List LoweredStep
  | _, _, [] => []
  | state, known, instruction :: rest =>
      if isLive instruction.addr then
        match instruction.opcode, (Lower.instruction context instruction rest.head?).run state with
        | some opcode, .ok (statements, after) =>
            let current : Current := ⟨instruction, opcode, rest.head?⟩
            ⟨current, state, known, statements⟩ ::
              stepsFrom context isLive after (known.after context current) rest
        | _, _ => []
      else stepsFrom context isLive state known rest

/-- How the live instructions of a method are lowered, after its arguments. -/
def loweredSteps (context : LoweringContext) (isLive : Addr → Bool) : List LoweredStep :=
  match Argument.ofCode context.code context.pool, (Lower.allArguments context).run {} with
  | .ok arguments, .ok (_, start) =>
      stepsFrom context isLive start (.ofArguments arguments) context.code.instructions
  | _, _ => []

/-- A value at a place with a declared type, and the kind of this type: arguments, what an
instruction reads or writes, and what fills an array. -/
inductive DeclaredAt (context : LoweringContext) (isLive : Addr → Bool) (final : LoweringState) :
    Nat → Kind → Prop where
  | argument {arguments : List Argument} {argument : Argument} {value : Nat} {kind : Kind}
      (found : Argument.ofCode context.code context.pool = .ok arguments)
      (member : argument ∈ arguments) (declared : argument.source.declaredKind = some kind)
      (defined : final.values.definedAt? .param argument.reg = some value) :
      DeclaredAt context isLive final value kind
  | read {step : LoweredStep} {position : Nat} {slot : Slot} {kind : Kind}
      (member : step ∈ loweredSteps context isLive)
      (isUse : (step.statements.flatMap Statement.uses)[position]? = some slot)
      (declared : (step.current.declaredReads context step.known)[position]? = some (some kind)) :
      DeclaredAt context isLive final slot.value kind
  | written {step : LoweredStep} {statement : Statement Slot} {slot : Slot} {kind : Kind}
      (member : step ∈ loweredSteps context isLive) (isOwn : statement ∈ step.statements)
      (written : statement.written = some slot)
      (declared : step.current.declaredWrite context step.known = some kind) :
      DeclaredAt context isLive final slot.value kind
  | filling {step : LoweredStep} {kind : Kind} {reg : Reg} {d : Def} {value : Nat}
      (member : step ∈ loweredSteps context isLive) (fills : step.current.opcode.family = .filledNewArray)
      (declared : step.current.filledKind context = some kind)
      (isRead : reg ∈ step.current.instruction.regs)
      (reaches : (context.readable step.current.addr reg .narrow).head? = some d)
      (defined : final.values.definedAt? d.site d.reg = some value) :
      DeclaredAt context isLive final value kind

/-! ## Arguments -/

/-- What the identity statement of an argument says of the final state. -/
structure Introduced (context : LoweringContext) (final : LoweringState) (argument : Argument)
    (statement : Statement Slot) : Prop where
  sound : Sound context final statement
  restricts : ∀ value, final.values.definedAt? .param argument.reg = some value →
    Restricts final value (.ofKind argument.kind)

theorem ensures_argument {arguments : List Argument}
    (found : Argument.ofCode context.code context.pool = .ok arguments) {argument : Argument}
    (member : argument ∈ arguments) {pre : Prop} :
    Ensures context final pre (Lower.argument argument) (Introduced context final argument) := by
  have provides : context.Provides .param argument.reg argument.width :=
    ⟨arguments, found, .passed (List.mem_map.mpr ⟨argument, member, rfl⟩)⟩
  have done : ∀ {value : Nat}, final.values.definedAt? .param argument.reg = some value →
      (∃ entry ∈ final.recorded, entry.constraint = .exactly value argument.kind) →
      Introduced context final argument
        (.identity ⟨value, .ofKind argument.kind⟩ argument.source) := by
    rintro value defined ⟨entry, listed, same⟩
    have restricts : Restricts final value (.ofKind argument.kind) :=
      ⟨entry, listed, by rw [same, Constraint.owner], by rw [same, Constraint.kinds]⟩
    refine ⟨⟨List.forall_mem_nil _, fun slot written => ?_, trivial⟩, fun other isOther => ?_⟩
    · obtain rfl := Option.some.inj written
      refine ⟨ValueFile.lt_of_definedAt? defined, .inr restricts, fun several => ?_⟩
      simp at several
    · exact Option.some.inj (defined.symm.trans isOther) ▸ restricts
  unfold Lower.argument
  refine .bind (ensures_define fun generation => .provided rfl provides) fun value => ?_
  refine .bind (ensures_record ?_ fun _ _ _ joins => by cases joins) fun _ => ?_
  · exact fun known => ValueFile.lt_of_definedAt? known.2
  split
  · refine .bind ensures_declare fun _ => .pure ?_
    rintro ⟨⟨⟨_, defined⟩, recorded⟩, _⟩
    exact done defined recorded
  · refine .pure ?_
    rintro ⟨⟨_, defined⟩, recorded⟩
    exact done defined recorded

/-- A traversal ensures of each result what each step does. -/
theorem ensures_forall₂ {α β : Type} {act : α → Lower β} {related : α → β → Prop} {list : List α}
    {pre : Prop} (each : ∀ item ∈ list, ∀ pre, Ensures context final pre (act item) (related item)) :
    Ensures context final pre (list.mapM act) (List.Forall₂ related list) := by
  induction list generalizing pre with
  | nil => exact .pure fun _ => .nil
  | cons item rest ih =>
      obtain ⟨first, others⟩ := List.forall_mem_cons.mp each
      rw [List.mapM_cons]
      refine .bind (first _) fun _ => ?_
      refine .bind (ih others) fun _ => ?_
      exact .pure fun ⟨⟨_, head⟩, tail⟩ => .cons head tail

/-! ## Instructions -/

theorem stepsFrom_dead {instruction : Instruction} {rest : List Instruction} {state : LoweringState}
    {known : ArrayTypes} (dies : isLive instruction.addr = false) :
    stepsFrom context isLive state known (instruction :: rest) =
      stepsFrom context isLive state known rest := by
  rw [stepsFrom, dies]
  rfl

theorem stepsFrom_live {instruction : Instruction} {rest : List Instruction} {opcode : Opcode}
    {state after : LoweringState} {known : ArrayTypes} {statements : List (Statement Slot)}
    (lives : isLive instruction.addr = true) (isOpcode : instruction.opcode = some opcode)
    (lowers : (Lower.instruction context instruction rest.head?).run state = .ok (statements, after)) :
    stepsFrom context isLive state known (instruction :: rest) =
      ⟨⟨instruction, opcode, rest.head?⟩, state, known, statements⟩ ::
        stepsFrom context isLive after (known.after context ⟨instruction, opcode, rest.head?⟩) rest := by
  rw [stepsFrom, if_pos lives, isOpcode, lowers]

/-- The steps give the results of lowering. -/
theorem results_of_lowerEach {list : List Instruction} {before after : LoweringState}
    {known : ArrayTypes} {results : List (Addr × List (Statement Slot))}
    (success : (lowerEach context isLive list).run before = .ok (results, after)) :
    results = (stepsFrom context isLive before known list).map fun step =>
      (step.current.addr, step.statements) := by
  induction list generalizing before known results with
  | nil =>
      obtain ⟨rfl, -⟩ := Prod.mk.inj (Lower.pure_eq_ok.mp success)
      rfl
  | cons instruction rest ih =>
      rw [lowerEach] at success
      split at success
      · rename_i lives
        simp only [Lower.bind_eq_ok, Lower.pure_eq_ok, Prod.mk.injEq] at success
        obtain ⟨statements, middle, first, others, _, more, rfl, rfl⟩ := success
        obtain ⟨opcode, isOpcode, -⟩ := instruction_spec first
        rw [stepsFrom_live lives isOpcode first, List.map_cons, ih more]
        rfl
      · rename_i dies
        rw [stepsFrom_dead (Bool.eq_false_iff.mpr dies)]
        exact ih success

/-! ## What is known at an instruction -/

theorem remembers_stepsFrom {list : List Instruction} {state : LoweringState} {known : ArrayTypes}
    (remembers : Remembers known state) :
    ∀ step ∈ stepsFrom context isLive state known list, Remembers step.known step.state := by
  induction list generalizing state known with
  | nil => exact List.forall_mem_nil _
  | cons instruction rest ih =>
      rw [stepsFrom]
      split
      · split
        · rename_i opcode statements after isOpcode lowers
          refine List.forall_mem_cons.mpr ⟨remembers, ?_⟩
          exact ih (remembers_instruction isOpcode remembers lowers)
        · exact List.forall_mem_nil _
      · exact ih remembers

/-- At each instruction lowering remembers the types of the arrays that arguments and the
instructions before have declared, and no others. -/
theorem remembers_loweredSteps :
    ∀ step ∈ loweredSteps context isLive, Remembers step.known step.state := by
  unfold loweredSteps
  split
  · rename_i arguments identities start found introduced
    simp only [Lower.allArguments, Lower.bind_eq_ok, Lower.lift_eq_ok, liftCode_eq_ok,
      Prod.mk.injEq] at introduced
    obtain ⟨_, _, ⟨own, isOwn, rfl, rfl⟩, introduced⟩ := introduced
    obtain rfl := Except.ok.inj (found.symm.trans isOwn)
    exact remembers_stepsFrom (remembers_arguments remembers_empty introduced)
  · exact List.forall_mem_nil _

/-! ## Instructions -/

/-- What the live instructions of a list leave in the final state. -/
structure Leaves (context : LoweringContext) (final before after : LoweringState)
    (steps : List LoweredStep) : Prop where
  orderly : Orderly context final before → Orderly context final after
  accounts : ∀ step ∈ steps,
    Accounts context final (step.current.declaredReads context step.known)
      (step.current.declaredWrite context step.known) step.statements ∧
    Filled context final step.current

theorem lowerEach_from (sourced : context.Sourced) {list : List Instruction}
    (listed : list <:+ context.code.instructions) {before after : LoweringState} {known : ArrayTypes}
    {results : List (Addr × List (Statement Slot))} (remembers : Remembers known before)
    (success : (lowerEach context isLive list).run before = .ok (results, after)) :
    Grows before after ∧
      (Grows after final → Leaves context final before after (stepsFrom context isLive before known list)) := by
  induction list generalizing before known results with
  | nil =>
      obtain ⟨rfl, rfl⟩ := Prod.mk.inj (Lower.pure_eq_ok.mp success)
      exact ⟨.refl _, fun _ => ⟨id, List.forall_mem_nil _⟩⟩
  | cons instruction rest ih =>
      have suffix : rest <:+ context.code.instructions := (List.suffix_cons _ _).trans listed
      rw [lowerEach] at success
      split at success
      · rename_i lives
        simp only [Lower.bind_eq_ok, Lower.pure_eq_ok, Prod.mk.injEq] at success
        obtain ⟨statements, middle, first, others, _, more, rfl, rfl⟩ := success
        have follows : ∀ other, rest.head? = some other →
            [instruction, other] <:+: context.code.instructions := by
          intro other isNext
          obtain ⟨tail, rfl⟩ := List.head?_eq_some_iff.mp isNext
          exact List.IsInfix.trans ⟨[], tail, rfl⟩ listed.isInfix
        obtain ⟨opcode, isOpcode, own, fits⟩ := @instruction_from context known final sourced
          instruction _ (listed.subset List.mem_cons_self) follows _ _ _ remembers first
        -- the rest starts with the types that are known after the first instruction
        obtain ⟨grows, leaves⟩ := ih suffix (remembers_instruction isOpcode remembers first) more
        refine ⟨own.trans grows, fun toFinal => ?_⟩
        obtain ⟨orderly, accounts, filled⟩ := fits (grows.trans toFinal)
        rw [stepsFrom_live lives isOpcode first]
        refine ⟨(leaves toFinal).orderly ∘ orderly, ?_⟩
        exact List.forall_mem_cons.mpr ⟨⟨accounts, filled⟩, (leaves toFinal).accounts⟩
      · rename_i dies
        rw [stepsFrom_dead (Bool.eq_false_iff.mpr dies)]
        exact ih suffix remembers success

/-- What is known of a lowered method: all of its values, constraints and pairs are in order,
its statements are accounted for, and values at places with a declared type are bound to
the kind of this type. -/
structure Gathers (context : LoweringContext) (isLive : Addr → Bool)
    (statements : List (Option Addr × Statement Slot)) (final : LoweringState) : Prop where
  orderly : Orderly context final final
  sound : ∀ item ∈ statements, Sound context final item.2
  declared : ∀ value kind, DeclaredAt context isLive final value kind →
    value < final.values.values.length ∧ Restricts final value (.ofKind kind)

theorem sound_placed {graph : FlowGraph} {addr : Addr} {statements : List (Statement Slot)}
    (sound : ∀ statement ∈ statements, Sound context final statement) :
    ∀ item ∈ placed graph addr statements, Sound context final item.2 := by
  unfold placed
  split
  · exact List.forall_mem_singleton.mpr (.reads (fun _ member => by cases member) rfl trivial)
  · exact List.forall_mem_map.mpr sound

theorem gathers_of_lowerMethod (sourced : context.Sourced)
    {statements : List (Option Addr × Statement Slot)}
    (success : (lowerMethod context isLive).run {} = .ok (statements, final)) :
    Gathers context isLive statements final := by
  simp only [lowerMethod, Lower.bind_eq_ok, Lower.pure_eq_ok, Prod.mk.injEq] at success
  obtain ⟨identities, start, introduced, results, last, lowered, rfl, rfl⟩ := success
  have again := introduced
  simp only [Lower.allArguments, Lower.bind_eq_ok, Lower.lift_eq_ok, liftCode_eq_ok,
    Prod.mk.injEq] at introduced
  obtain ⟨_, _, ⟨arguments, found, rfl, rfl⟩, introduced⟩ := introduced
  have steps : loweredSteps context isLive =
      stepsFrom context isLive start (.ofArguments arguments) context.code.instructions := by
    rw [loweredSteps, found, again]
  have remembers := remembers_arguments remembers_empty introduced
  obtain ⟨grows, leaves⟩ := lowerEach_from sourced List.suffix_rfl remembers lowered
  obtain ⟨-, fits⟩ := ensures_forall₂ (fun argument member pre => ensures_argument found member)
    _ identities start introduced
  obtain ⟨orderly, introduces⟩ := fits grows trivial
  obtain ⟨staysOrderly, accounts⟩ := leaves (.refl _)
  refine ⟨staysOrderly (orderly orderly_empty), List.forall_mem_append.mpr ⟨?_, ?_⟩, ?_⟩
  · refine List.forall_mem_map.mpr fun statement member => ?_
    obtain ⟨argument, -, known⟩ := exists_of_forall₂ introduces.flip member
    exact known.sound
  · intro item member
    obtain ⟨result, isResult, isPlaced⟩ := List.mem_flatMap.mp member
    rw [results_of_lowerEach lowered] at isResult
    obtain ⟨step, isStep, rfl⟩ := List.mem_map.mp isResult
    exact sound_placed (accounts step isStep).1.sound item isPlaced
  · rw [← ArrayTypes.ofArguments, ← steps] at accounts
    intro value kind declared
    cases declared with
    | argument found' member isKind defined =>
        obtain rfl := Except.ok.inj (found.symm.trans found')
        obtain ⟨statement, -, known⟩ := exists_of_forall₂ introduces member
        obtain rfl := Option.some.inj ((Argument.declaredKind_of_mem found member).1.symm.trans isKind)
        exact ⟨ValueFile.lt_of_definedAt? defined, known.restricts value defined⟩
    | read member isUse declares =>
        obtain ⟨own, -⟩ := accounts _ member
        obtain ⟨statement, isOwn, isRead⟩ := List.mem_flatMap.mp (List.mem_of_getElem? isUse)
        exact ⟨((own.sound statement isOwn).stated isRead).present,
          own.typed.reads _ _ _ isUse declares⟩
    | written member isOwn writes declares =>
        obtain ⟨own, -⟩ := accounts _ member
        exact ⟨((own.sound _ isOwn).written _ writes).present,
          own.typed.written _ isOwn _ _ writes declares⟩
    | filling member fills declares isRead reaches defined =>
        obtain ⟨-, filled⟩ := accounts _ member
        exact ⟨ValueFile.lt_of_definedAt? defined, filled _ fills declares _ isRead _ reaches _ defined⟩

end Lift

end Dalvik
