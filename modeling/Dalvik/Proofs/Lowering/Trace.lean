import Dalvik.Proofs.Lowering.Method
import Dalvik.Proofs.Lowering.Outcome

/-!
# What lowering a method does

The values of a method are those that its arguments and then its live instructions ask for,
one after the other.  A live instruction without statements is a `nop`, or a `move-result`
that the call before it took over.
-/

namespace Dalvik

open ValueFile (Request)

def Argument.request (argument : Argument) : Request :=
  ⟨some .param, argument.reg, argument.width⟩

namespace ValueFile

theorem Has.foldl_ask {file : ValueFile} {requests : List Request} {site : Site} {reg : Reg}
    {width : Width} (has : file.Has site reg width) : (requests.foldl ask file).Has site reg width :=
  has_foldl_ask.mpr (.inl has)

/-- What is asked for is there. -/
theorem exists_has_of_mem {file : ValueFile} {requests : List Request} {site : Site}
    {request : Request} (member : request ∈ requests) (asked : request.site = some site) :
    ∃ width, (requests.foldl ask file).Has site request.reg width := by
  by_cases known : ∃ width, file.Has site request.reg width
  · obtain ⟨width, has⟩ := known
    exact ⟨width, has.foldl_ask⟩
  · obtain ⟨first, found⟩ : ∃ first, requests.find? (·.isFor site request.reg) = some first :=
      Option.isSome_iff_exists.mp (List.find?_isSome.mpr ⟨request, member, by simp [Request.isFor, asked]⟩)
    refine ⟨first.width, has_foldl_ask.mpr (.inr ⟨fun other has => known ⟨other, has⟩, ?_⟩)⟩
    rw [found, Option.map_some]

end ValueFile

namespace Lower

variable {α β : Type}

theorem asks_argument {argument : Argument} :
    Asks True (Lower.argument argument) [argument.request] [] fun statement =>
      ∃ slot, statement = .identity slot argument.source := by
  unfold Lower.argument
  refine .before asks_define fun value _ => ?_
  refine .after asks_record fun _ _ => ?_
  split
  · exact .after (asks_declare trivial) fun _ _ => .pure ⟨_, rfl⟩
  · exact .pure ⟨_, rfl⟩

/-- Steps for the items of a list, which take over nothing. -/
theorem asks_mapM {act : α → Lower β} {requests : α → List Request} {related : α → β → Prop}
    {declares : Prop} {list : List α}
    (each : ∀ item, Asks declares (act item) (requests item) [] (related item)) :
    Asks declares (list.mapM act) (list.flatMap requests) [] (List.Forall₂ related list) := by
  induction list with
  | nil => exact .pure .nil
  | cons item rest ih =>
      rw [List.mapM_cons, List.flatMap_cons]
      refine .bind (each item) fun _ first => ?_
      refine .before ih fun _ others => ?_
      exact .pure (.cons first others)

end Lower

namespace Lift

open Lower

variable {context : LoweringContext} {isLive : Addr → Bool} {before after final : LoweringState}

/-- A live call takes over the `move-result` after it, for a result of some kind. -/
structure HandsOver (context : LoweringContext) (isLive : Addr → Bool) (call next : Instruction)
    (kind : Kind) : Prop where
  follows : [call, next] <:+: context.code.instructions
  lives : isLive call.addr = true
  takes : call.takesOver context (some next) = some (next, kind)

/-- What a live instruction is lowered to. -/
inductive Yields (context : LoweringContext) (isLive : Addr → Bool) (instruction : Instruction)
    (statements : List (Statement Slot)) : Prop where
  | nop (family : instruction.opcode.map Opcode.family = some .nop) (nothing : statements = [])
  | taken {call : Instruction} {kind : Kind} (hands : HandsOver context isLive call instruction kind)
      (nothing : statements = [])
  | makes (made : instruction.Makes statements)

/-- What was taken over was by a live call, and has a value. -/
def Taken (context : LoweringContext) (isLive : Addr → Bool) (state : LoweringState) : Prop :=
  ∀ addr ∈ state.folded, ∃ call next kind, HandsOver context isLive call next kind ∧
    next.addr = addr ∧
      ∀ reg, next.regs[0]? = some reg → ∃ width, state.values.Has (.at addr) reg width

/-- A live instruction of a method, with the one after it in the code. -/
structure Step (context : LoweringContext) (isLive : Addr → Bool)
    (step : Instruction × Option Instruction) : Prop where
  lives : isLive step.1.addr = true
  member : step.1 ∈ context.code.instructions
  follows : ∀ next, step.2 = some next → [step.1, next] <:+: context.code.instructions

theorem step_of_mem {step : Instruction × Option Instruction}
    (member : step ∈ liveSteps isLive context.code.instructions) : Step context isLive step := by
  obtain ⟨lives, earlier, later, split, next⟩ := split_of_mem_liveSteps member
  refine ⟨lives, split ▸ List.mem_append_right _ List.mem_cons_self, fun other isNext => ?_⟩
  rw [next] at isNext
  obtain ⟨rest, rfl⟩ := List.head?_eq_some_iff.mp isNext
  exact ⟨earlier, rest, by rw [split, List.append_assoc]; rfl⟩

/-- Instructions of a method with one address are the same. -/
theorem eq_of_addr_eq (distinct : (context.code.instructions.map Instruction.addr).Nodup)
    {first second : Instruction} (isFirst : first ∈ context.code.instructions)
    (isSecond : second ∈ context.code.instructions) (same : first.addr = second.addr) :
    first = second :=
  List.inj_on_of_nodup_map distinct isFirst isSecond same

theorem HandsOver.member {call next : Instruction} {kind : Kind}
    (hands : HandsOver context isLive call next kind) : next ∈ context.code.instructions :=
  hands.follows.subset (List.mem_cons_of_mem _ List.mem_cons_self)

/-- An item of a list without duplicates comes after one other. -/
theorem eq_of_neighbours {α : Type} {list : List α} (distinct : list.Nodup) {first other second : α}
    (one : [first, second] <:+: list) (two : [other, second] <:+: list) : first = other := by
  induction list with
  | nil => simp at one
  | cons head tail ih =>
      obtain ⟨-, rest⟩ := List.nodup_cons.mp distinct
      have clash : ∀ {before : α}, tail.head? = some second → ¬ [before, second] <:+: tail := by
        intro before isHead pair
        obtain ⟨later, rfl⟩ := List.head?_eq_some_iff.mp isHead
        have absent := (List.nodup_cons.mp rest).1
        rcases neighbours_cons.mp pair with ⟨-, follows⟩ | inside
        · exact absent (List.mem_of_mem_head? follows)
        · exact absent (inside.subset (List.mem_cons_of_mem _ List.mem_cons_self))
      rcases neighbours_cons.mp one with ⟨rfl, isHead⟩ | inside
      · rcases neighbours_cons.mp two with ⟨rfl, -⟩ | inside'
        · rfl
        · exact absurd inside' (clash isHead)
      · rcases neighbours_cons.mp two with ⟨rfl, isHead⟩ | inside'
        · exact absurd inside (clash isHead)
        · exact ih rest inside inside'

/-- Only one call takes an instruction over, and for one kind of result. -/
theorem HandsOver.unique (distinct : (context.code.instructions.map Instruction.addr).Nodup)
    {call other next : Instruction} {kind own : Kind} (hands : HandsOver context isLive call next kind)
    (others : HandsOver context isLive other next own) : call = other ∧ kind = own := by
  obtain rfl := eq_of_neighbours (List.Nodup.of_map _ distinct) hands.follows others.follows
  exact ⟨rfl, (Prod.mk.inj (Option.some.inj (hands.takes.symm.trans others.takes))).2⟩

/-- A `move-result` asks only for its own value. -/
theorem requests_of_moveResult {instruction : Instruction} {opcode : Opcode}
    {next : Option Instruction} (isOpcode : instruction.opcode = some opcode)
    (family : opcode.family = .moveResult) :
    ∃ width, instruction.requests context next = instruction.ownRequests width := by
  obtain ⟨width, defined⟩ : ∃ width, definedWidth opcode = some width := by simp [definedWidth, family]
  have plain : opcode.hasResult = false := by
    rw [Opcode.hasResult, family]
    rfl
  refine ⟨width, (@requests_plain context ⟨instruction, opcode, next⟩ isOpcode plain).trans ?_⟩
  simp [Opcode.readOperands, family, defined]

/-- One step keeps what is known of what was taken over, and asks for what its instruction
asks for. -/
theorem step_spec (distinct : (context.code.instructions.map Instruction.addr).Nodup)
    {step : Instruction × Option Instruction} (isStep : Step context isLive step)
    (known : Taken context isLive before) {statements : List (Statement Slot)}
    (success : (Lower.instruction context step.1 step.2).run before = .ok (statements, after)) :
    Taken context isLive after ∧
      after.values = (step.1.requests context step.2).foldl ValueFile.ask before.values ∧
      Yields context isLive step.1 statements := by
  obtain ⟨opcode, isOpcode, outcome⟩ := instruction_outcome success
  cases outcome with
  | takenOver moves taken nothing same =>
      obtain ⟨call, next, kind, hands, isAddr, has⟩ := known _ taken
      obtain rfl := eq_of_addr_eq distinct hands.member isStep.member isAddr
      subst same
      refine ⟨known, ?_, .taken hands nothing⟩
      -- its own value is there already
      obtain ⟨width, requests⟩ := @requests_of_moveResult context step.1 opcode step.2 isOpcode moves
      rw [requests, Instruction.ownRequests]
      cases first : step.1.regs[0]? with
      | none => rfl
      | some reg =>
          obtain ⟨own, present⟩ := has reg first
          exact (@ValueFile.ask_of_has _ ⟨some (.at step.1.addr), reg, width⟩ _ _ rfl present).symm
  | lowered kept values folded _ made =>
      refine ⟨?_, values, ?_⟩
      · intro addr member
        rw [folded, List.mem_append] at member
        rcases member with new | old
        · obtain ⟨⟨next, kind⟩, takes, rfl⟩ := List.mem_map.mp new
          have takes := Option.mem_toList.mp takes
          obtain ⟨follows, -⟩ := Instruction.takesOver_eq_some.mp takes
          refine ⟨step.1, next, kind, ⟨isStep.follows next follows, isStep.lives, follows ▸ takes⟩, rfl,
            fun reg first => ?_⟩
          have asked : ⟨some (.at next.addr), reg, kind.width⟩ ∈ step.1.requests context step.2 := by
            refine List.mem_append_right _ ?_
            rw [Instruction.resultRequests, takes, Option.elim_some, Instruction.ownRequests, first]
            exact List.mem_cons_self
          rw [values]
          exact ValueFile.exists_has_of_mem asked rfl
        · obtain ⟨call, next, kind, hands, isAddr, has⟩ := known addr old
          refine ⟨call, next, kind, hands, isAddr, fun reg first => ?_⟩
          obtain ⟨width, present⟩ := has reg first
          exact ⟨width, values ▸ present.foldl_ask⟩
      · rcases made with ⟨family, nothing⟩ | made
        · exact .nop (by rw [isOpcode, Option.map_some, family]) nothing
        · exact .makes made

/-- Steps that are taken one after the other ask for what their instructions do. -/
theorem steps_spec (distinct : (context.code.instructions.map Instruction.addr).Nodup)
    {steps : List (Instruction × Option Instruction)} (all : ∀ step ∈ steps, Step context isLive step)
    (known : Taken context isLive before) {results : List (Addr × List (Statement Slot))}
    (success : (steps.mapM fun step => do
      let statements ← Lower.instruction context step.1 step.2
      return (step.1.addr, statements) : Lower _).run before = .ok (results, after)) :
    after.values = (steps.flatMap fun step => step.1.requests context step.2).foldl
        ValueFile.ask before.values ∧
      List.Forall₂ (fun step result => Yields context isLive step.1 result.2 ∧ ∃ before after,
        (Lower.instruction context step.1 step.2).run before = .ok (result.2, after)) steps results := by
  induction steps generalizing before results with
  | nil =>
      obtain ⟨rfl, rfl⟩ := Prod.mk.inj (Lower.pure_eq_ok.mp success)
      exact ⟨rfl, .nil⟩
  | cons step rest ih =>
      simp only [List.mapM_cons, Lower.bind_eq_ok, Lower.pure_eq_ok, Prod.mk.injEq] at success
      obtain ⟨_, middle, ⟨statements, _, first, rfl, rfl⟩, others, _, more, rfl, rfl⟩ := success
      obtain ⟨isStep, later⟩ := List.forall_mem_cons.mp all
      obtain ⟨knownOn, values, yields⟩ := step_spec distinct isStep known first
      obtain ⟨valuesOn, yieldsOn⟩ := ih later knownOn more
      refine ⟨?_, .cons ⟨yields, before, _, first⟩ yieldsOn⟩
      rw [valuesOn, values, List.flatMap_cons, List.foldl_append]

def asked (context : LoweringContext) (isLive : Addr → Bool) (arguments : List Argument) : List Request :=
  arguments.map Argument.request ++ (liveSteps isLive context.code.instructions).flatMap fun step =>
    step.1.requests context step.2

/-- What a live instruction is lowered to, at its address. -/
structure StepResult (context : LoweringContext) (isLive : Addr → Bool) (final : LoweringState)
    (step : Instruction × Option Instruction) (result : Addr × List (Statement Slot)) : Prop where
  addr : result.1 = step.1.addr
  stands : ∃ opcode, Stands context final ⟨step.1, opcode, step.2⟩ result.2
  yields : Yields context isLive step.1 result.2
  runs : ∃ before after,
    (Lower.instruction context step.1 step.2).run before = .ok (result.2, after)

theorem LowersEach.forall₂ {list : List Instruction} {results : List (Addr × List (Statement Slot))}
    (lowers : LowersEach context isLive final list results) :
    List.Forall₂ (fun step result => result.1 = step.1.addr ∧
      ∃ opcode, Stands context final ⟨step.1, opcode, step.2⟩ result.2) (liveSteps isLive list) results := by
  induction lowers with
  | done => exact .nil
  | live lives stands _ ih =>
      rw [liveSteps, if_pos lives]
      exact .cons ⟨rfl, _, stands⟩ ih
  | dead dies _ ih =>
      rw [liveSteps, if_neg (Bool.eq_false_iff.mp dies)]
      exact ih

theorem forall₂_and {α β : Type} {one two : α → β → Prop} {list : List α} {others : List β}
    (first : List.Forall₂ one list others) (second : List.Forall₂ two list others) :
    List.Forall₂ (fun a b => one a b ∧ two a b) list others := by
  induction first with
  | nil => exact .nil
  | cons here _ ih =>
      cases second with
      | cons here' rest => exact .cons ⟨here, here'⟩ (ih rest)

/-- How the values and statements of a method come about. -/
structure Traces (context : LoweringContext) (isLive : Addr → Bool)
    (statements : List (Option Addr × Statement Slot)) (final : LoweringState) : Prop where
  parts : ∃ (arguments : List Argument) (identities : List (Statement Slot))
    (results : List (Addr × List (Statement Slot))),
    Argument.ofCode context.code context.pool = .ok arguments ∧
    final.values = (asked context isLive arguments).foldl ValueFile.ask .empty ∧
    List.Forall₂ (fun argument statement => ∃ slot, statement = .identity slot argument.source)
      arguments identities ∧
    List.Forall₂ (StepResult context isLive final) (liveSteps isLive context.code.instructions) results ∧
    statements = identities.map (none, ·) ++
      results.flatMap fun (addr, statements) => placed context.graph addr statements

/-- Lowering a method goes through its arguments and live instructions. -/
theorem traces_of_lowerMethod (distinct : (context.code.instructions.map Instruction.addr).Nodup)
    {statements : List (Option Addr × Statement Slot)}
    (success : (lowerMethod context isLive).run {} = .ok (statements, final)) :
    Traces context isLive statements final := by
  simp only [lowerMethod, Lower.allArguments, Lower.bind_eq_ok, Lower.lift_eq_ok, liftCode_eq_ok,
    Lower.pure_eq_ok, Prod.mk.injEq] at success
  obtain ⟨identities, middle, ⟨_, _, ⟨arguments, found, rfl, rfl⟩, introduced⟩, results, _, lowered, rfl,
    rfl⟩ := success
  obtain ⟨values, folded, -, identified⟩ := asks_mapM (fun _ => asks_argument) _ _ _ introduced
  have stands := ((lowerEach_spec lowered).2.2 _ (.refl _)).forall₂
  rw [lowerEach_eq_mapM] at lowered
  have nothing : Taken context isLive middle := by
    rw [List.nil_append] at folded
    intro addr member
    rw [folded] at member
    cases member
  obtain ⟨valuesOn, yields⟩ := steps_spec distinct (fun step => step_of_mem) nothing lowered
  have each : (arguments.flatMap fun argument => [argument.request]) = arguments.map Argument.request :=
    List.flatMap_pure_eq_map _ _
  refine ⟨arguments, identities, results, found, ?_, identified, ?_, rfl⟩
  · rw [valuesOn, values, asked, List.foldl_append, each]
  · refine (forall₂_and stands yields).imp ?_
    rintro step result ⟨⟨addr, isStands⟩, isYield, runs⟩
    exact ⟨addr, isStands, isYield, runs⟩

end Lift

end Dalvik
