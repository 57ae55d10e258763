import Dalvik.Proofs.Lift.Consistency
import Dalvik.Proofs.Lift.Segments

/-!
# Definitions in lowering

Lowering opens a value of an instruction for just the register and width that it defines,
unless a call passes a result of another width to the `move-result` that it takes over
and no read asks for this value before.
-/

namespace Dalvik

open ValueFile (Request)

namespace Instruction

theorem definition_eq_some {instruction : Instruction} {reg : Reg} {width : Width} :
    instruction.definition = some (reg, width) ↔
      instruction.regs[0]? = some reg ∧ instruction.opcode.bind definedWidth = some width := by
  rw [definition, ← List.head?_eq_getElem?]
  cases instruction.opcode with
  | none => simp
  | some opcode =>
      cases instruction.regs.head? with
      | none => simp
      | some first => simp [Option.bind_eq_some_iff, and_comm]

variable {context : LoweringContext} {instruction : Instruction} {request : Request} {site : Site}
  {reg : Reg}

theorem mem_ownRequests {width : Width} :
    request ∈ instruction.ownRequests width ↔
      ∃ reg, instruction.regs[0]? = some reg ∧ request = ⟨some (.at instruction.addr), reg, width⟩ := by
  simp [ownRequests, eq_comm]

/-- Reads ask for the values of the definitions that reach them. -/
theorem isFor_read (member : request ∈
      (instruction.reads context.pool).flatMap (context.requests instruction.addr))
    (isFor : request.isFor site reg = true) :
    ∃ read ∈ instruction.reads context.pool, request.width = read.2 ∧
      ∃ d ∈ context.readable instruction.addr read.1 read.2, d.site = site ∧ d.reg = reg := by
  obtain ⟨read, isRead, asked⟩ := List.mem_flatMap.mp member
  exact ⟨read, isRead, LoweringContext.isFor_of_mem_requests asked isFor⟩

/-- A write asks for what the instruction defines. -/
theorem isFor_own
    (member : request ∈ (instruction.opcode.bind definedWidth).elim [] instruction.ownRequests)
    (isFor : request.isFor site reg = true) :
    site = .at instruction.addr ∧ instruction.definition = some (reg, request.width) := by
  cases defined : instruction.opcode.bind definedWidth with
  | none =>
      rw [defined] at member
      cases member
  | some width =>
      rw [defined, Option.elim_some, mem_ownRequests] at member
      obtain ⟨first, isFirst, rfl⟩ := member
      simp only [Request.isFor, Bool.and_eq_true, beq_iff_eq, Option.some.injEq] at isFor
      obtain ⟨rfl, rfl⟩ := isFor
      exact ⟨rfl, definition_eq_some.mpr ⟨isFirst, defined⟩⟩

/-- A call asks for the value of the `move-result` that it takes over. -/
theorem isFor_result {next : Option Instruction}
    (member : request ∈ instruction.resultRequests context next)
    (isFor : request.isFor site reg = true) :
    ∃ taken kind, instruction.takesOver context next = some (taken, kind) ∧ site = .at taken.addr ∧
      taken.regs[0]? = some reg ∧ request.width = kind.width := by
  rw [resultRequests] at member
  cases takes : instruction.takesOver context next with
  | none =>
      rw [takes] at member
      cases member
  | some taken =>
      rw [takes, Option.elim_some, mem_ownRequests] at member
      obtain ⟨first, isFirst, rfl⟩ := member
      simp only [Request.isFor, Bool.and_eq_true, beq_iff_eq, Option.some.injEq] at isFor
      obtain ⟨rfl, rfl⟩ := isFor
      exact ⟨taken.1, taken.2, rfl, rfl, isFirst, rfl⟩

end Instruction

namespace LoweringContext

variable {context : LoweringContext}

theorem Provides.unique (distinct : (context.code.instructions.map Instruction.addr).Nodup)
    (small : context.code.registers ≤ 65536) {site : Site} {reg : Reg} {width other : Width}
    (one : context.Provides site reg width) (two : context.Provides site reg other) :
    width = other := by
  obtain ⟨arguments, found, one⟩ := one
  obtain ⟨arguments', found', two⟩ := two
  obtain rfl := Except.ok.inj (found.symm.trans found')
  exact one.unique distinct (Argument.nodup_regs found small) two

/-- What is provided at the address of an instruction is what it defines. -/
theorem Provides.definition (distinct : (context.code.instructions.map Instruction.addr).Nodup)
    {instruction : Instruction} (listed : instruction ∈ context.code.instructions) {reg : Reg}
    {width : Width} (provides : context.Provides (.at instruction.addr) reg width) :
    instruction.definition = some (reg, width) := by
  obtain ⟨arguments, -, provides⟩ := provides
  generalize isSite : Site.at instruction.addr = site at provides
  cases provides with
  | written listed' defines =>
      obtain rfl := Lift.eq_of_addr_eq distinct listed listed' (Site.at.inj isSite)
      exact defines
  | passed _ => cases isSite

end LoweringContext

namespace Lift

open Lower

variable {context : LoweringContext} {isLive : Addr → Bool} {arguments : List Argument}

/-- An instruction that is lowered, or taken over by a call that is. -/
def Covers (context : LoweringContext) (isLive : Addr → Bool) (instruction : Instruction) : Prop :=
  isLive instruction.addr = true ∨ ∃ call kind, HandsOver context isLive call instruction kind

/-- There is a value of an instruction exactly for the register and width that it defines. -/
def DefinitionsAgree (context : LoweringContext) (isLive : Addr → Bool) (file : ValueFile) : Prop :=
  ∀ instruction ∈ context.code.instructions, Covers context isLive instruction → ∀ reg width,
    file.Has (.at instruction.addr) reg width ↔ instruction.definition = some (reg, width)

/-- A write reaches a read of a live instruction of a list. -/
def ReadIn (context : LoweringContext) (isLive : Addr → Bool) (list : List Instruction) (site : Site)
    (reg : Reg) : Prop :=
  ∃ reader ∈ list, isLive reader.addr = true ∧ ∃ read ∈ reader.reads context.pool,
    ∃ d ∈ context.readable reader.addr read.1 read.2, d.site = site ∧ d.reg = reg

/-- Results that are taken over are as wide as they are moved, unless they are read, in a loop,
by code before. -/
def ResultsAgree (context : LoweringContext) (isLive : Addr → Bool) : Prop :=
  ∀ earlier call next later kind reg width,
    context.code.instructions = earlier ++ call :: next :: later →
      HandsOver context isLive call next kind → next.definition = some (reg, width) →
        kind.width = width ∨ ReadIn context isLive (earlier ++ [call]) (.at next.addr) reg

/-- What a step of lowering asks for is provided, or is the result of its call. -/
theorem provided_of_step (sourced : context.Sourced) {step : Instruction × Option Instruction}
    (isStep : Step context isLive step) {request : Request}
    (member : request ∈ step.1.requests context step.2) {site : Site} {reg : Reg}
    (isFor : request.isFor site reg = true) :
    context.Provides site reg request.width ∨
      ∃ next kind, HandsOver context isLive step.1 next kind ∧ site = .at next.addr ∧
        next.regs[0]? = some reg := by
  obtain ⟨arguments, found⟩ := sourced.passed
  rw [Instruction.requests, List.mem_append, List.mem_append] at member
  rcases member with (read | own) | result
  · obtain ⟨read, -, same, d, reaches, rfl, rfl⟩ := Instruction.isFor_read read isFor
    exact .inl (same ▸ sourced.readable _ _ _ d reaches)
  · obtain ⟨rfl, defines⟩ := Instruction.isFor_own own isFor
    exact .inl ⟨arguments, found, .written isStep.member defines⟩
  · obtain ⟨next, kind, takes, isSite, first, -⟩ := Instruction.isFor_result result isFor
    obtain ⟨follows, -⟩ := Instruction.takesOver_eq_some.mp takes
    exact .inr ⟨next, kind, ⟨isStep.follows _ follows, isStep.lives, follows ▸ takes⟩, isSite, first⟩

/-- What the arguments ask for is provided. -/
theorem provided_of_argument (found : Argument.ofCode context.code context.pool = .ok arguments)
    {request : Request} (member : request ∈ arguments.map Argument.request) {site : Site} {reg : Reg}
    (isFor : request.isFor site reg = true) : context.Provides site reg request.width := by
  obtain ⟨argument, listed, rfl⟩ := List.mem_map.mp member
  simp only [Argument.request, Request.isFor, Bool.and_eq_true, beq_iff_eq, Option.some.injEq] at isFor
  obtain ⟨rfl, rfl⟩ := isFor
  exact ⟨arguments, found, .passed (List.mem_map_of_mem listed)⟩

/-- A value has a width that is provided, or is the result of a call. -/
theorem provided_or_result (sourced : context.Sourced)
    (found : Argument.ofCode context.code context.pool = .ok arguments) {site : Site} {reg : Reg}
    {width : Width} (has : ((asked context isLive arguments).foldl ValueFile.ask .empty).Has site reg width) :
    context.Provides site reg width ∨
      ∃ call next kind, HandsOver context isLive call next kind ∧ site = .at next.addr ∧
        next.regs[0]? = some reg := by
  obtain ⟨request, first, rfl⟩ := Option.map_eq_some_iff.mp (ValueFile.has_asked.mp has)
  have isFor : request.isFor site reg = true :=
    @List.find?_some _ (fun request : Request => request.isFor site reg) _ _ first
  rcases List.mem_append.mp (List.mem_of_find?_eq_some first) with inArguments | inSteps
  · exact .inl (provided_of_argument found inArguments isFor)
  · obtain ⟨step, isStep, member⟩ := List.mem_flatMap.mp inSteps
    rcases provided_of_step sourced (step_of_mem isStep) member isFor with
      provides | ⟨next, kind, hands, isSite, isFirst⟩
    · exact .inl provides
    · exact .inr ⟨step.1, next, kind, hands, isSite, isFirst⟩

/-- The steps before and after a live instruction. -/
theorem liveSteps_split {earlier later : List Instruction} {instruction : Instruction}
    (lives : isLive instruction.addr = true) :
    ∃ before, liveSteps isLive (earlier ++ instruction :: later) =
        before ++ (instruction, later.head?) :: liveSteps isLive later ∧
      before.map Prod.fst = earlier.filter (isLive ·.addr) := by
  induction earlier with
  | nil => exact ⟨[], by rw [List.nil_append, liveSteps, if_pos lives, List.nil_append], rfl⟩
  | cons first rest ih =>
      obtain ⟨before, split, firsts⟩ := ih
      rw [List.cons_append, liveSteps, split, List.filter_cons]
      split
      · exact ⟨_ :: before, rfl, by rw [List.map_cons, firsts]⟩
      · exact ⟨before, rfl, firsts⟩

/-- What is asked for by the arguments and the steps of a method before the result of a call. -/
def askedBefore (context : LoweringContext) (arguments : List Argument)
    (steps : List (Instruction × Option Instruction)) (call : Instruction) : List Request :=
  arguments.map Argument.request ++ (steps.flatMap fun step => step.1.requests context step.2) ++
    ((call.reads context.pool).flatMap (context.requests call.addr) ++
      (call.opcode.bind definedWidth).elim [] call.ownRequests)

/-- A step asks for the value of what a call takes over to read it, unless it is a step of one
of the two. -/
theorem asks_taken_cases (distinct : (context.code.instructions.map Instruction.addr).Nodup)
    {call next : Instruction} {kind : Kind} (hands : HandsOver context isLive call next kind)
    {step : Instruction × Option Instruction} (isStep : Step context isLive step) {request : Request}
    (member : request ∈ step.1.requests context step.2) {reg : Reg}
    (isFor : request.isFor (.at next.addr) reg = true) :
    request ∈ (step.1.reads context.pool).flatMap (context.requests step.1.addr) ∨
      step.1 = next ∨ step.1 = call := by
  rw [Instruction.requests, List.mem_append, List.mem_append] at member
  rcases member with (reads | writes) | result
  · exact .inl reads
  · obtain ⟨isSite, -⟩ := Instruction.isFor_own writes isFor
    exact .inr (.inl (eq_of_addr_eq distinct isStep.member hands.member (Site.at.inj isSite).symm))
  · obtain ⟨other, own, takes, isSite, -⟩ := Instruction.isFor_result result isFor
    obtain ⟨follows, -⟩ := Instruction.takesOver_eq_some.mp takes
    have hands' : HandsOver context isLive step.1 other own :=
      ⟨isStep.follows _ follows, isStep.lives, follows ▸ takes⟩
    obtain rfl := eq_of_addr_eq distinct hands.member hands'.member (Site.at.inj isSite)
    exact .inr (.inr (hands'.unique distinct hands).1)

section

variable (distinct : (context.code.instructions.map Instruction.addr).Nodup)
  {earlier later : List Instruction} {call next : Instruction} {kind : Kind}
  (split : context.code.instructions = earlier ++ call :: next :: later)
  (hands : HandsOver context isLive call next kind)
  {steps : List (Instruction × Option Instruction)}
  (isSteps : liveSteps isLive (earlier ++ call :: next :: later) =
    steps ++ (call, (next :: later).head?) :: liveSteps isLive (next :: later))
  (firsts : steps.map Prod.fst = earlier.filter (isLive ·.addr))
include distinct split hands isSteps firsts

/-- Before the result of a call only reads ask for its value. -/
theorem exists_reader_of_askedBefore {request : Request} {reg : Reg}
    (member : request ∈ askedBefore context arguments steps call)
    (isFor : request.isFor (.at next.addr) reg = true) :
    ∃ reader ∈ earlier ++ [call], isLive reader.addr = true ∧
      request ∈ (reader.reads context.pool).flatMap (context.requests reader.addr) := by
  have nodup := List.Nodup.of_map _ distinct
  rw [split, List.nodup_append] at nodup
  obtain ⟨-, tail, apart⟩ := nodup
  rw [askedBefore, List.mem_append, List.mem_append, List.mem_append] at member
  rcases member with (argument | before) | reads | writes
  · obtain ⟨argument, -, rfl⟩ := List.mem_map.mp argument
    simp [Argument.request, Request.isFor] at isFor
  · obtain ⟨step, inSteps, member⟩ := List.mem_flatMap.mp before
    have image := List.mem_map_of_mem (f := Prod.fst) inSteps
    rw [firsts, List.mem_filter] at image
    obtain ⟨listed, lives⟩ := image
    have isStep : Step context isLive step :=
      step_of_mem (split ▸ isSteps ▸ List.mem_append_left _ inSteps)
    rcases asks_taken_cases distinct hands isStep member isFor with reads | same | same
    · exact ⟨step.1, List.mem_append_left _ listed, lives, reads⟩
    · exact absurd same (apart _ listed _ (by simp))
    · exact absurd same (apart _ listed _ (by simp))
  · exact ⟨call, by simp, hands.lives, reads⟩
  · obtain ⟨isSite, -⟩ := Instruction.isFor_own writes isFor
    have isCall : call ∈ context.code.instructions := by simp [split]
    have same := eq_of_addr_eq distinct hands.member isCall (Site.at.inj isSite)
    simp [same] at tail

/-- The value of a result is asked for before the call passes it exactly where it is read. -/
theorem exists_askedBefore_iff {reg : Reg} :
    (∃ request ∈ askedBefore context arguments steps call,
        request.isFor (.at next.addr) reg = true) ↔
      ReadIn context isLive (earlier ++ [call]) (.at next.addr) reg := by
  constructor
  · rintro ⟨request, member, isFor⟩
    obtain ⟨reader, listed, lives, reads⟩ :=
      exists_reader_of_askedBefore distinct split hands isSteps firsts member isFor
    obtain ⟨read, isRead, -, reaches⟩ := Instruction.isFor_read reads isFor
    exact ⟨reader, listed, lives, read, isRead, reaches⟩
  · rintro ⟨reader, listed, lives, read, isRead, d, reaches, isSite, rfl⟩
    have reads : (⟨some d.site, d.reg, read.2⟩ : Request) ∈
        (reader.reads context.pool).flatMap (context.requests reader.addr) :=
      List.mem_flatMap.mpr ⟨read, isRead, LoweringContext.mem_requests_of_readable reaches⟩
    refine ⟨⟨some d.site, d.reg, read.2⟩, ?_, by simp [Request.isFor, isSite]⟩
    rcases List.mem_append.mp listed with before | isCall
    · have inSteps : reader ∈ steps.map Prod.fst := by
        rw [firsts]
        exact List.mem_filter.mpr ⟨before, lives⟩
      obtain ⟨step, member, rfl⟩ := List.mem_map.mp inSteps
      refine List.mem_append_left _ (List.mem_append_right _ (List.mem_flatMap.mpr ⟨step, member, ?_⟩))
      exact List.mem_append_left _ (List.mem_append_left _ reads)
    · obtain rfl := List.mem_singleton.mp isCall
      exact List.mem_append_right _ (List.mem_append_left _ reads)

end

/-- What is asked for before the result of a call: its value only where it is read. -/
theorem asked_split (sourced : context.Sourced)
    (distinct : (context.code.instructions.map Instruction.addr).Nodup)
    {earlier later : List Instruction} {call next : Instruction} {kind : Kind}
    (split : context.code.instructions = earlier ++ call :: next :: later)
    (hands : HandsOver context isLive call next kind) {reg : Reg} (first : next.regs[0]? = some reg) :
    ∃ before after, asked context isLive arguments =
        before ++ ⟨some (.at next.addr), reg, kind.width⟩ :: after ∧
      (∀ request ∈ before, request.isFor (.at next.addr) reg = true →
        context.Provides (.at next.addr) reg request.width) ∧
      ((∃ request ∈ before, request.isFor (.at next.addr) reg = true) ↔
        ReadIn context isLive (earlier ++ [call]) (.at next.addr) reg) := by
  obtain ⟨steps, isSteps, firsts⟩ := @liveSteps_split isLive earlier (next :: later) call hands.lives
  refine ⟨askedBefore context arguments steps call,
    (liveSteps isLive (next :: later)).flatMap fun step => step.1.requests context step.2, ?_,
    fun request member isFor => ?_, exists_askedBefore_iff distinct split hands isSteps firsts⟩
  · have result : call.resultRequests context (some next) = [⟨some (.at next.addr), reg, kind.width⟩] := by
      rw [Instruction.resultRequests, hands.takes, Option.elim_some, Instruction.ownRequests, first]
      rfl
    rw [asked, split, isSteps, List.flatMap_append, List.flatMap_cons, List.head?_cons,
      Instruction.requests, result]
    simp only [askedBefore, List.append_assoc, List.cons_append, List.nil_append]
  · obtain ⟨reader, -, -, reads⟩ :=
      exists_reader_of_askedBefore distinct split hands isSteps firsts member isFor
    obtain ⟨read, -, same, d, reaches, isSite, rfl⟩ := Instruction.isFor_read reads isFor
    exact same ▸ isSite ▸ sourced.readable _ _ _ d reaches

/-- The value of a `move-result` that a call takes over has the width with which it is moved where
it is read before, and that of the result otherwise. -/
theorem has_result_iff (sourced : context.Sourced)
    (distinct : (context.code.instructions.map Instruction.addr).Nodup)
    {earlier later : List Instruction} {call next : Instruction} {kind : Kind}
    (split : context.code.instructions = earlier ++ call :: next :: later)
    (hands : HandsOver context isLive call next kind) {reg : Reg} {width : Width}
    (defines : next.definition = some (reg, width)) (other : Width) :
    ((asked context isLive arguments).foldl ValueFile.ask .empty).Has (.at next.addr) reg other ↔
      ReadIn context isLive (earlier ++ [call]) (.at next.addr) reg ∧ other = width ∨
        ¬ ReadIn context isLive (earlier ++ [call]) (.at next.addr) reg ∧ other = kind.width := by
  have first := (Instruction.definition_eq_some.mp defines).1
  obtain ⟨before, after, isAsked, provided, reads⟩ :=
    @asked_split context isLive arguments sourced distinct _ _ _ _ _ split hands _ first
  have isFor : Request.isFor ⟨some (.at next.addr), reg, kind.width⟩ (.at next.addr) reg = true := by
    simp [Request.isFor]
  rw [ValueFile.has_asked, isAsked, List.find?_append, List.find?_cons, isFor, ← reads]
  cases found : before.find? (·.isFor (.at next.addr) reg) with
  | some request =>
      have member := List.mem_of_find?_eq_some found
      have asked := @List.find?_some _ (fun request : Request => request.isFor (.at next.addr) reg) _ _ found
      have same := (provided request member asked).definition distinct hands.member
      obtain rfl := (Prod.mk.inj (Option.some.inj (same.symm.trans defines))).2
      have isRead : ∃ request ∈ before, request.isFor (.at next.addr) reg = true :=
        ⟨request, member, asked⟩
      simp only [Option.some_or, Option.map_some, Option.some.injEq, isRead, not_true_eq_false, true_and,
        false_and, or_false]
      exact eq_comm
  | none =>
      have unread : ¬ ∃ request ∈ before, request.isFor (.at next.addr) reg = true := by
        rintro ⟨request, member, asked⟩
        exact List.find?_eq_none.mp found request member asked
      simp only [Option.none_or, Option.map_some, Option.some.injEq, unread, not_false_eq_true, true_and,
        false_and, false_or]
      exact eq_comm

/-- What is taken over defines a value, if it has a register. -/
theorem HandsOver.exists_definition {call next : Instruction} {kind : Kind}
    (hands : HandsOver context isLive call next kind) {reg : Reg} (first : next.regs[0]? = some reg) :
    ∃ width, next.definition = some (reg, width) := by
  obtain ⟨-, -, moves, -⟩ := Instruction.takesOver_eq_some.mp hands.takes
  obtain ⟨opcode, isOpcode, family⟩ := Option.map_eq_some_iff.mp moves
  obtain ⟨width, defined⟩ : ∃ width, definedWidth opcode = some width := by simp [definedWidth, family]
  exact ⟨width, Instruction.definition_eq_some.mpr ⟨first, by rw [isOpcode, Option.bind_some, defined]⟩⟩

theorem mem_asked {earlier later : List Instruction} {instruction : Instruction}
    (split : context.code.instructions = earlier ++ instruction :: later)
    (lives : isLive instruction.addr = true) {request : Request}
    (member : request ∈ instruction.requests context later.head?) :
    request ∈ asked context isLive arguments := by
  obtain ⟨steps, isSteps, -⟩ := @liveSteps_split isLive earlier later instruction lives
  refine List.mem_append_right _ (List.mem_flatMap.mpr ⟨(instruction, later.head?), ?_, member⟩)
  rw [split, isSteps]
  exact List.mem_append_right _ List.mem_cons_self

/-- What an instruction that is lowered, or taken over, defines has a value. -/
theorem exists_has {instruction : Instruction} (listed : instruction ∈ context.code.instructions)
    (covers : Covers context isLive instruction) {reg : Reg} {width : Width}
    (defines : instruction.definition = some (reg, width)) :
    ∃ other, ((asked context isLive arguments).foldl ValueFile.ask .empty).Has (.at instruction.addr) reg
      other := by
  obtain ⟨first, defined⟩ := Instruction.definition_eq_some.mp defines
  rcases covers with lives | ⟨call, kind, hands⟩
  · obtain ⟨earlier, later, split⟩ := List.append_of_mem listed
    have own : ⟨some (.at instruction.addr), reg, width⟩ ∈ instruction.requests context later.head? := by
      refine List.mem_append_left _ (List.mem_append_right _ ?_)
      rw [defined, Option.elim_some]
      exact Instruction.mem_ownRequests.mpr ⟨reg, first, rfl⟩
    exact ValueFile.exists_has_of_mem (mem_asked split lives own) rfl
  · obtain ⟨earlier, later, split⟩ := hands.follows
    rw [List.append_assoc] at split
    have result : ⟨some (.at instruction.addr), reg, kind.width⟩ ∈
        call.requests context (instruction :: later).head? := by
      refine List.mem_append_right _ ?_
      rw [List.head?_cons, Instruction.resultRequests, hands.takes, Option.elim_some]
      exact Instruction.mem_ownRequests.mpr ⟨reg, first, rfl⟩
    exact ValueFile.exists_has_of_mem (mem_asked split.symm hands.lives result) rfl

/-- There is a value for just what an instruction defines exactly if results agree. -/
theorem agree_iff (sourced : context.Sourced)
    (found : Argument.ofCode context.code context.pool = .ok arguments)
    (distinct : (context.code.instructions.map Instruction.addr).Nodup) :
    DefinitionsAgree context isLive ((asked context isLive arguments).foldl ValueFile.ask .empty) ↔
      ResultsAgree context isLive := by
  constructor
  · intro agree earlier call next later kind reg width split hands defines
    by_contra neither
    obtain ⟨differs, unread⟩ := not_or.mp neither
    have has := (@has_result_iff _ _ arguments sourced distinct _ _ _ _ _ split hands _ _ defines
      kind.width).mpr (.inr ⟨unread, rfl⟩)
    have same := (agree next hands.member (.inr ⟨call, kind, hands⟩) reg kind.width).mp has
    exact differs (Prod.mk.inj (Option.some.inj (same.symm.trans defines))).2
  · intro fit instruction listed covers reg width
    have sound : ∀ other, ((asked context isLive arguments).foldl ValueFile.ask .empty).Has
        (.at instruction.addr) reg other → instruction.definition = some (reg, other) := by
      intro other has
      rcases provided_or_result sourced found has with provides | ⟨call, next, kind, hands, isSite, first⟩
      · exact provides.definition distinct listed
      · obtain rfl := eq_of_addr_eq distinct listed hands.member (Site.at.inj isSite)
        obtain ⟨own, defines⟩ := hands.exists_definition first
        obtain ⟨earlier, later, split⟩ := hands.follows
        rw [List.append_assoc] at split
        rcases (has_result_iff sourced distinct split.symm hands defines other).mp has with
          ⟨-, rfl⟩ | ⟨unread, rfl⟩
        · exact defines
        · rcases fit earlier call instruction later kind reg own split.symm hands defines with same | read
          · exact same ▸ defines
          · exact absurd read unread
    refine ⟨sound width, fun defines => ?_⟩
    obtain ⟨other, has⟩ := @exists_has _ _ arguments _ listed covers _ _ defines
    obtain rfl := (Prod.mk.inj (Option.some.inj (defines.symm.trans (sound other has)))).2
    exact has

/-- With the widths of definitions a value has the width with which it is provided. -/
theorem width_of_has (sourced : context.Sourced)
    (found : Argument.ofCode context.code context.pool = .ok arguments)
    (distinct : (context.code.instructions.map Instruction.addr).Nodup)
    (small : context.code.registers ≤ 65536)
    (agree : DefinitionsAgree context isLive ((asked context isLive arguments).foldl ValueFile.ask .empty))
    {site : Site} {reg : Reg} {width other : Width} (provides : context.Provides site reg width)
    (has : ((asked context isLive arguments).foldl ValueFile.ask .empty).Has site reg other) :
    other = width := by
  rcases provided_or_result sourced found has with same | ⟨call, next, kind, hands, rfl, -⟩
  · exact same.unique distinct small provides
  · have defines := (agree next hands.member (.inr ⟨call, kind, hands⟩) reg other).mp has
    have same := defines.symm.trans (provides.definition distinct hands.member)
    exact (Prod.mk.inj (Option.some.inj same)).2

/-- The slots that the statements of an instruction read. -/
def Lowered.usesAt (lowered : Lowered) (addr : Addr) : List Slot :=
  ((lowered.statements.filter (·.1 == some addr)).map Prod.snd).flatMap Statement.uses

/-- The slots of a live instruction refer to values of the widths with which it reads them, if it
does not fill an array that nothing takes. -/
def ReadsAgree (context : LoweringContext) (isLive : Addr → Bool) (lowered : Lowered) : Prop :=
  ∀ instruction ∈ context.code.instructions, isLive instruction.addr = true →
    instruction.opcode.map Opcode.family = some .filledNewArray ∧ lowered.usesAt instruction.addr = [] ∨
      List.Forall₂ (fun (read : Reg × Width) slot => ∃ record,
          lowered.state.values.values[slot.value]? = some record ∧ record.width = read.2)
        (instruction.reads context.pool) (lowered.usesAt instruction.addr)

variable {code : Code} {pool : Pool} {options : LiftOptions} {lowered : Lowered}

/-- Slots have the widths of their reads where definitions agree. -/
theorem readsAgree (isContext : contextOf code pool = .ok context)
    (isLowered : lower context options = .ok lowered)
    (distinct : (context.code.instructions.map Instruction.addr).Nodup)
    (small : context.code.registers ≤ 65536)
    (agree : DefinitionsAgree context (options.keeps context.graph) lowered.state.values) :
    ReadsAgree context (options.keeps context.graph) lowered := by
  have sourced := sourced_of_contextOf isContext
  simp only [lower, bind_eq_ok, pure_eq_ok] at isLowered
  obtain ⟨⟨statements, final⟩, success, rfl⟩ := isLowered
  obtain ⟨arguments, -, -, found, values, -⟩ := (traces_of_lowerMethod distinct success).parts
  rw [values] at agree
  intro instruction listed lives
  obtain ⟨earlier, later, split⟩ := List.append_of_mem listed
  obtain ⟨-, identities, results, -, -, each, same⟩ := (lowerMethod_spec success).parts
  obtain ⟨opcode, own, stands, here⟩ := @LowersEach.at _ _ _ context.graph _ _ each distinct _ _ _ split lives
  have uses : Lowered.usesAt ⟨statements, final⟩ instruction.addr = own.flatMap Statement.uses := by
    rw [Lowered.usesAt, same, List.filter_append, filter_map_none, List.nil_append, here, List.map_map]
    exact congrArg (List.flatMap Statement.uses) (List.map_id own)
  rw [uses]
  obtain ⟨slots, reads, ⟨family, rfl⟩ | rfl⟩ := stands.reads
  · exact .inl ⟨by rw [stands.opcode, Option.map_some, family], rfl⟩
  · refine .inr ((List.forall₂_map_right_iff.mp reads).imp fun read slot holds => ?_)
    generalize isValue : slot.value = value at holds
    cases holds with
    | undefined _ present _ width => exact ⟨_, present, width⟩
    | @defined reg width _ d others reaching own _ =>
        obtain ⟨record, present, isSite, isReg⟩ := ValueFile.definedAt?_eq_some own
        refine ⟨record, present, ?_⟩
        have provides := sourced.readable instruction.addr reg width d (reaching ▸ List.mem_cons_self)
        have has : final.values.Has d.site d.reg record.width :=
          ⟨record, List.mem_of_getElem? present, isSite, isReg, rfl⟩
        exact width_of_has sourced found distinct small agree provides (values ▸ has)

/-- There is a value of each instruction for just the register and width that it defines, exactly
if results agree, as they do where they are moved with the width of what calls pass.  Then each
slot refers to a value of the width with which it is read. -/
theorem definitions_agree_iff (isContext : contextOf code pool = .ok context)
    (isLowered : lower context options = .ok lowered)
    (distinct : (code.instructions.map Instruction.addr).Nodup) (small : code.registers ≤ 65536) :
    (DefinitionsAgree context (options.keeps context.graph) lowered.state.values ↔
        ResultsAgree context (options.keeps context.graph)) ∧
      (code.ResultsFit pool →
        DefinitionsAgree context (options.keeps context.graph) lowered.state.values) ∧
      (DefinitionsAgree context (options.keeps context.graph) lowered.state.values →
        ReadsAgree context (options.keeps context.graph) lowered) := by
  have sourced := sourced_of_contextOf isContext
  obtain ⟨rfl, rfl, -⟩ := contextOf_eq_ok.mp isContext
  obtain ⟨arguments, -, -, found, values, -⟩ := (traces_of_lower isLowered distinct).parts
  have iff : DefinitionsAgree context (options.keeps context.graph) lowered.state.values ↔
      ResultsAgree context (options.keeps context.graph) := by
    rw [values]
    exact agree_iff sourced found distinct
  refine ⟨iff, fun fit => iff.mpr ?_, readsAgree isContext isLowered distinct small⟩
  intro earlier call next later kind reg width _ hands defines
  obtain ⟨-, passes, moves, -⟩ := Instruction.takesOver_eq_some.mp hands.takes
  exact .inl (fit call next kind reg width hands.follows moves passes defines)

/-- A float that is moved as a narrow value has a narrow value, which is read as such. -/
theorem definitionsAgree_testsResult_float : ∃ context lowered,
    contextOf .testsResult (.returning .float) = .ok context ∧ lower context {} = .ok lowered ∧
      DefinitionsAgree context (LiftOptions.keeps {} context.graph) lowered.state.values ∧
      ReadsAgree context (LiftOptions.keeps {} context.graph) lowered := by
  have fit : Code.testsResult.ResultsFit (.returning .float) := by decide
  have lowers : LowersTo .testsResult (.returning .float) ⟨4, [(.ofNat 2, .narrow), (.ofNat 3, .narrow)]⟩
      3 {} fun _ _ => True := by
    decide +kernel
  obtain ⟨body, context, lowered, -, lifts, -⟩ := @LowersTo.exists_lifts .testsResult
    (.returning .float) Argument.objectAndInt 3 {} _ _ (by decide) (by decide) rfl lowers
  obtain ⟨-, agree, reads⟩ := definitions_agree_iff lifts.ofCode lifts.lowers (by decide) (by decide)
  exact ⟨context, lowered, lifts.ofCode, lifts.lowers, agree fit, reads (agree fit)⟩

/-- A long that is moved as a narrow value has a wide one. -/
theorem not_definitionsAgree_testsResult_long : ∃ context lowered,
    contextOf .testsResult (.returning .long) = .ok context ∧
      lower context ⟨false, false⟩ = .ok lowered ∧
      ¬ DefinitionsAgree context (LiftOptions.keeps ⟨false, false⟩ context.graph)
        lowered.state.values := by
  have lowers : LowersTo .testsResult (.returning .long) ⟨4, [(.ofNat 2, .narrow), (.ofNat 3, .narrow)]⟩
      3 ⟨false, false⟩ fun _ lowered => ⟨.ofNat 0, 0, some (.at 3), .wide⟩ ∈ lowered.state.values.values := by
    decide +kernel
  obtain ⟨body, context, lowered, -, lifts, opened⟩ := @LowersTo.exists_lifts .testsResult
    (.returning .long) Argument.objectAndInt 3 ⟨false, false⟩ _ _ (by decide) (by decide) rfl lowers
  refine ⟨context, lowered, lifts.ofCode, lifts.lowers, fun agree => ?_⟩
  obtain ⟨isCode, -⟩ := contextOf_eq_ok.mp lifts.ofCode
  let moves : Instruction := .ofOpcode 3 .moveResult [.ofNat 0] none none
  have listed : moves ∈ context.code.instructions := isCode ▸ by decide
  have defines := (agree moves listed (.inl rfl) (.ofNat 0) .wide).mp ⟨_, opened, rfl, rfl, rfl⟩
  exact absurd defines (by decide)

end Lift

end Dalvik
