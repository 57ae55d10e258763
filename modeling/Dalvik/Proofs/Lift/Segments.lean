import Dalvik.Proofs.Lift.Kinds
import Dalvik.Proofs.Lowering.Trace

/-!
# Bodies, instruction by instruction

The statements of a body are the identities of the arguments and then those of each live
instruction, in the order of the code.
-/

namespace Dalvik

/-- Items of one place, with this place put to them again. -/
theorem map_place {α : Type} {place : Option Addr} {list : List (Option Addr × α)}
    (here : ∀ item ∈ list, item.1 = place) : (list.map Prod.snd).map (place, ·) = list := by
  rw [List.map_map]
  refine (List.map_congr_left fun item member => ?_).trans (List.map_id list)
  exact Prod.ext (here item member).symm rfl

/-- What is placed at some of several addresses is found at each of them. -/
theorem filter_flatten_places {α : Type} {addrs : List Addr} {outputs : List (List (Option Addr × α))}
    (matched : List.Forall₂ (fun addr output => ∀ item ∈ output, item.1 = some addr) addrs outputs)
    (distinct : addrs.Nodup) {before : List (Option Addr × α)}
    (absent : ∀ item ∈ before, ∀ addr ∈ addrs, item.1 ≠ some addr) :
    List.Forall₂ (fun addr output =>
      (before ++ outputs.flatten).filter (·.1 == some addr) = output) addrs outputs := by
  induction matched generalizing before with
  | nil => exact .nil
  | @cons addr output addrs outputs here others ih =>
      obtain ⟨differs, rest⟩ := List.nodup_cons.mp distinct
      have later : ∀ item ∈ outputs.flatten, item.1 ≠ some addr := by
        intro item member same
        obtain ⟨other, isOutput, inside⟩ := List.mem_flatten.mp member
        obtain ⟨own, isAddr, places⟩ := exists_of_forall₂ others.flip isOutput
        exact differs (Option.some.inj (same.symm.trans (places item inside)) ▸ isAddr)
      refine .cons ?_ ?_
      · have first : before.filter (·.1 == some addr) = [] := by
          rw [List.filter_eq_nil_iff]
          exact fun item member => by simpa using absent item member addr List.mem_cons_self
        have own : output.filter (·.1 == some addr) = output := by
          rw [List.filter_eq_self]
          exact fun item member => by simp [here item member]
        have last : outputs.flatten.filter (·.1 == some addr) = [] := by
          rw [List.filter_eq_nil_iff]
          exact fun item member => by simpa using later item member
        rw [List.flatten_cons, List.filter_append, List.filter_append, first, own, last,
          List.nil_append, List.append_nil]
      · rw [List.flatten_cons, ← List.append_assoc]
        refine ih rest fun item member own isAddr => ?_
        rcases List.mem_append.mp member with inBefore | inOutput
        · exact absent item inBefore own (List.mem_cons_of_mem _ isAddr)
        · rw [here item inOutput]
          exact fun same => differs (Option.some.inj same ▸ isAddr)

def Body.placedAt (body : Body) (addr : Addr) : List (Option Addr × Statement Local) :=
  (body.statementsAt addr).map (some addr, ·)

theorem Body.placedAt_eq_filter (body : Body) (addr : Addr) :
    body.placedAt addr = body.statements.filter (·.1 == some addr) := by
  rw [placedAt, Lift.statementsAt_eq]
  exact map_place fun item member => eq_of_beq (List.mem_filter.mp member).2

theorem Body.mem_placedAt {body : Body} {addr : Addr} {item : Option Addr × Statement Local} :
    item ∈ body.placedAt addr ↔ item ∈ body.statements ∧ item.1 = some addr := by
  rw [placedAt_eq_filter, List.mem_filter, beq_iff_eq]

theorem Body.statementsAt_of_placedAt {body : Body} {addr : Addr} {list : List (Statement Local)}
    (same : body.placedAt addr = list.map (some addr, ·)) : body.statementsAt addr = list :=
  List.map_injective_iff.mpr (fun _ _ pairs => (Prod.mk.inj pairs).2) same

namespace Lift

open Lower

/-- What a live instruction becomes in a body: what is shown of its statements, at its
address. -/
structure Segment (context : LoweringContext) (isLive : Addr → Bool) (lowered : Lowered)
    (step : Instruction × Option Instruction) (segment : List (Option Addr × Statement Local)) : Prop where
  shown : ∃ statements, StepResult context isLive lowered.state step (step.1.addr, statements) ∧
    Split.AllShown lowered.splitContext lowered.nameOf lowered.splitting
      (placed context.graph step.1.addr statements) segment

variable {isLive : Addr → Bool} {code : Code} {pool : Pool} {options : LiftOptions} {body : Body}
  {context : LoweringContext} {lowered : Lowered}

/-- What is lowered goes through the arguments and live instructions of a method. -/
theorem traces_of_lower (isLowered : lower context options = .ok lowered)
    (distinct : (context.code.instructions.map Instruction.addr).Nodup) :
    Traces context (options.keeps context.graph) lowered.statements lowered.state := by
  simp only [lower, bind_eq_ok, pure_eq_ok] at isLowered
  obtain ⟨⟨statements, final⟩, success, rfl⟩ := isLowered
  exact traces_of_lowerMethod distinct success

/-- What is shown of statements at an address is at this address. -/
theorem places_of_shown {context : SplitContext} {names : Nat → Local} {after : Splitting}
    {graph : FlowGraph} {addr : Addr} {statements : List (Statement Slot)}
    {output : List (Option Addr × Statement Local)}
    (shown : Split.AllShown context names after (placed graph addr statements) output) :
    ∀ item ∈ output, item.1 = some addr := by
  intro item member
  obtain ⟨source, isSource, same⟩ := shown.places.1 item member
  obtain ⟨_, -, rfl⟩ := List.mem_map.mp isSource
  exact same.symm

theorem Segment.places {step : Instruction × Option Instruction}
    {segment : List (Option Addr × Statement Local)}
    (isSegment : Segment context isLive lowered step segment) :
    ∀ item ∈ segment, item.1 = some step.1.addr := by
  obtain ⟨statements, -, shown⟩ := isSegment.shown
  exact places_of_shown shown

/-- Live instructions have addresses of their own. -/
theorem nodup_liveSteps {list : List Instruction} (distinct : (list.map Instruction.addr).Nodup) :
    ((liveSteps isLive list).map (·.1.addr)).Nodup := by
  have firsts : (liveSteps isLive list).map (·.1.addr) =
      (list.filter (isLive ·.addr)).map Instruction.addr := by
    rw [← liveSteps_map_fst, List.map_map]
    rfl
  rw [firsts]
  exact distinct.sublist (List.filter_sublist.map _)

namespace Lifts

variable (lifts : Lifts code pool options body context lowered)
include lifts

/-- What is shown of the identities of arguments starts a body, and what is shown of the other
results follows, one after the other. -/
theorem exists_parts {arguments : List Argument} {identities : List (Statement Slot)}
    {results : List (Addr × List (Statement Slot))}
    (identified : List.Forall₂ (fun argument statement => ∃ slot, statement = .identity slot argument.source)
      arguments identities)
    (same : lowered.statements = identities.map (none, ·) ++
      results.flatMap fun (addr, statements) => placed context.graph addr statements) :
    ∃ (head : List (Option Addr × Statement Local)) (outputs : List (List (Option Addr × Statement Local))),
      (∀ argument ∈ arguments, ∃ var, (none, .identity var argument.source) ∈ head) ∧
      (∀ item ∈ head, item.1 = none ∧ item.2.targets = []) ∧
      body.statements = head ++ outputs.flatten ∧
      List.Forall₂ (fun result => Split.AllShown lowered.splitContext lowered.nameOf lowered.splitting
        (placed context.graph result.1 result.2)) results outputs := by
  have shown := lifts.shown
  rw [same] at shown
  obtain ⟨head, tail, split, isHead, isTail⟩ := shown.append
  obtain ⟨outputs, rfl, showsEach⟩ := isTail.flatMap
  refine ⟨head, outputs, fun argument listed => ?_, fun item inHead => ⟨?_, ?_⟩, split, showsEach⟩
  · obtain ⟨statement, isIdentity, slot, rfl⟩ := exists_of_forall₂ identified listed
    obtain ⟨first, cast, shows, isFirst⟩ := isHead.exists_first (List.mem_map_of_mem isIdentity)
    obtain ⟨var, rfl, -⟩ := shows.exists_defined
    exact ⟨var, isFirst⟩
  · obtain ⟨source, isSource, samePlace⟩ := isHead.places.1 item inHead
    obtain ⟨_, -, rfl⟩ := List.mem_map.mp isSource
    exact samePlace.symm
  · have jumps : head.flatMap (·.2.targets) = [] := by
      rw [isHead.targets, List.flatMap_eq_nil_iff]
      intro source isSource
      obtain ⟨identity, isIdentity, rfl⟩ := List.mem_map.mp isSource
      obtain ⟨argument, -, slot, rfl⟩ := exists_of_forall₂ identified.flip isIdentity
      rfl
    exact List.flatMap_eq_nil_iff.mp jumps item inHead

/-- A body starts with the identities of its arguments, which are followed by what each live
instruction becomes. -/
theorem exists_outputs (distinct : (code.instructions.map Instruction.addr).Nodup) :
    ∃ (arguments : List Argument) (head : List (Option Addr × Statement Local))
      (outputs : List (List (Option Addr × Statement Local))),
      Argument.ofCode code pool = .ok arguments ∧
      (∀ argument ∈ arguments, ∃ var, (none, .identity var argument.source) ∈ head) ∧
      (∀ item ∈ head, item.1 = none ∧ item.2.targets = []) ∧
      body.statements = head ++ outputs.flatten ∧
      List.Forall₂ (Segment context (options.keeps context.graph) lowered)
        (liveSteps (options.keeps context.graph) code.instructions) outputs := by
  obtain ⟨rfl, rfl, -⟩ := contextOf_eq_ok.mp lifts.ofCode
  obtain ⟨arguments, identities, results, found, -, identified, each, same⟩ :=
    (traces_of_lower lifts.lowers distinct).parts
  obtain ⟨head, outputs, introduces, isHead, split, showsEach⟩ := lifts.exists_parts identified same
  refine ⟨arguments, head, outputs, found, introduces, isHead, split, (forall₂_trans each showsEach).imp ?_⟩
  rintro step output ⟨⟨addr, own⟩, isResult, isOutput⟩
  obtain rfl : addr = step.1.addr := isResult.addr
  exact ⟨own, isResult, isOutput⟩

/-- The statements of a body are the identities of its arguments, then those placed at each live
instruction, which are what it becomes. -/
theorem segments (distinct : (code.instructions.map Instruction.addr).Nodup) :
    ∃ (arguments : List Argument) (head : List (Option Addr × Statement Local)),
      Argument.ofCode code pool = .ok arguments ∧
      (∀ argument ∈ arguments, ∃ var, (none, .identity var argument.source) ∈ head) ∧
      (∀ item ∈ head, item.1 = none ∧ item.2.targets = []) ∧
      (body.statements = head ++ (code.instructions.filter
        (options.keeps context.graph ·.addr)).flatMap (body.placedAt ·.addr)) ∧
      ∀ step ∈ liveSteps (options.keeps context.graph) code.instructions,
        Segment context (options.keeps context.graph) lowered step (body.placedAt step.1.addr) := by
  obtain ⟨arguments, head, outputs, found, identified, isHead, same, isEach⟩ := lifts.exists_outputs distinct
  have placed : (liveSteps (options.keeps context.graph) code.instructions).map
      (body.placedAt ·.1.addr) = outputs := by
    have places : List.Forall₂ (fun addr (output : List (Option Addr × Statement Local)) =>
        ∀ item ∈ output, item.1 = some addr)
        ((liveSteps (options.keeps context.graph) code.instructions).map (·.1.addr)) outputs :=
      List.forall₂_map_left_iff.mpr (isEach.imp fun step output isSegment => isSegment.places)
    have filters := filter_flatten_places places (nodup_liveSteps distinct)
      (fun item member addr _ => by rw [(isHead item member).1]; exact nofun)
    rw [← same, List.forall₂_map_left_iff] at filters
    refine List.forall₂_eq_eq_eq.le _ _ (List.forall₂_map_left_iff.mpr (filters.imp ?_))
    exact fun step output own => (body.placedAt_eq_filter _).trans own
  refine ⟨arguments, head, found, identified, isHead, ?_, fun step inSteps => ?_⟩
  · rw [same, ← placed, ← liveSteps_map_fst, List.flatMap_map]
    rfl
  · rw [← placed, List.forall₂_map_right_iff, List.forall₂_same] at isEach
    exact isEach step inSteps

/-- A live instruction becomes what is placed at its address. -/
theorem exists_segment (distinct : (code.instructions.map Instruction.addr).Nodup)
    {instruction : Instruction} (listed : instruction ∈ code.instructions)
    (lives : options.keeps context.graph instruction.addr = true) :
    ∃ next, Segment context (options.keeps context.graph) lowered (instruction, next)
      (body.placedAt instruction.addr) := by
  obtain ⟨-, -, -, -, -, -, segments⟩ := lifts.segments distinct
  obtain ⟨⟨_, next⟩, inSteps, rfl⟩ : ∃ step ∈ liveSteps (options.keeps context.graph) code.instructions,
      step.1 = instruction := by
    rw [← List.mem_map, liveSteps_map_fst, List.mem_filter]
    exact ⟨listed, lives⟩
  exact ⟨next, segments _ inSteps⟩

/-- Each statement of a body is of an argument or of a live instruction. -/
theorem place_cases (distinct : (code.instructions.map Instruction.addr).Nodup)
    {item : Option Addr × Statement Local} (member : item ∈ body.statements) :
    item.1 = none ∧ item.2.targets = [] ∨ ∃ instruction ∈ code.instructions,
      options.keeps context.graph instruction.addr = true ∧ item ∈ body.placedAt instruction.addr := by
  obtain ⟨-, head, -, -, isHead, same, -⟩ := lifts.segments distinct
  rw [same, List.mem_append] at member
  rcases member with inHead | isPlaced
  · exact .inl (isHead item inHead)
  · obtain ⟨instruction, isLive, inSegment⟩ := List.mem_flatMap.mp isPlaced
    obtain ⟨listed, lives⟩ := List.mem_filter.mp isLive
    exact .inr ⟨instruction, listed, lives, inSegment⟩

/-- Statements are placed at live instructions. -/
theorem lives_of_placedAt (distinct : (code.instructions.map Instruction.addr).Nodup) {addr : Addr}
    (some : body.placedAt addr ≠ []) : options.keeps context.graph addr = true := by
  obtain ⟨item, isPlaced⟩ := List.exists_mem_of_ne_nil _ some
  obtain ⟨member, isAddr⟩ := Body.mem_placedAt.mp isPlaced
  rcases lifts.place_cases distinct member with ⟨none, -⟩ | ⟨instruction, -, lives, inSegment⟩
  · rw [none] at isAddr
    cases isAddr
  · rw [Option.some.inj (isAddr.symm.trans (Body.mem_placedAt.mp inSegment).2)]
    exact lives

end Lifts

theorem targets_placed {graph : FlowGraph} {addr : Addr} {statements : List (Statement Slot)} :
    (placed graph addr statements).flatMap (·.2.targets) = statements.flatMap Statement.targets := by
  unfold placed
  split
  · rename_i labelled
    rw [List.isEmpty_iff.mp (Bool.and_eq_true_iff.mp labelled).1]
    rfl
  · rw [List.flatMap_map]

theorem placed_eq_nil {graph : FlowGraph} {addr : Addr} {statements : List (Statement Slot)} :
    placed graph addr statements = [] ↔ statements = [] ∧ graph.isTarget addr = false := by
  rw [placed, List.map_eq_nil_iff]
  cases statements with
  | nil => cases graph.isTarget addr <;> simp
  | cons _ _ => simp

namespace Segment

variable {step : Instruction × Option Instruction} {segment : List (Option Addr × Statement Local)}

/-- What a live instruction becomes jumps where it does. -/
theorem targets (isSegment : Segment context isLive lowered step segment) :
    segment.flatMap (·.2.targets) = step.1.jumps := by
  obtain ⟨statements, result, shown⟩ := isSegment.shown
  rw [shown.targets, targets_placed]
  cases result.yields with
  | nop family nothing =>
      obtain rfl : statements = [] := nothing
      rw [Instruction.jumps, family, List.flatMap_nil]
  | taken hands nothing =>
      obtain ⟨-, -, moves, -⟩ := Instruction.takesOver_eq_some.mp hands.takes
      obtain rfl : statements = [] := nothing
      rw [Instruction.jumps, moves, List.flatMap_nil]
  | makes made => exact made.jumps

/-- A live instruction that becomes nothing does nothing, or is taken over, and control gets to
it only from the instruction before. -/
theorem silent (isSegment : Segment context isLive lowered step segment) (nothing : segment = []) :
    (step.1.opcode.map Opcode.family = some .nop ∨
        ∃ call kind, HandsOver context isLive call step.1 kind) ∧
      context.graph.isTarget step.1.addr = false := by
  obtain ⟨statements, result, shown⟩ := isSegment.shown
  obtain ⟨isEmpty, plain⟩ := placed_eq_nil.mp (shown.places.2.mp nothing)
  refine ⟨?_, plain⟩
  cases result.yields with
  | nop family _ => exact .inl family
  | taken hands _ => exact .inr ⟨_, _, hands⟩
  | makes made => exact absurd isEmpty made.nonempty

end Segment

end Lift

end Dalvik
