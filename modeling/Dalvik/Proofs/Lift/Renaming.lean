import Dalvik.Proofs.Lift.Assembly
import Dalvik.Proofs.Reaching.Paths

/-!
# Renaming registers to locals

Along every path, a read is of the local that holds what was last written to its
register exactly if reads connect the two, as they do where the states are a solution
and code is cut after the flow ends.
-/

namespace Dalvik

/-- Registers are renamed right along every path: each read of its last instruction is of
a local, which holds the value of the instruction that last wrote over a part of the
register, if this wrote just what is read, or the argument that was passed in it, if none
did. -/
def Body.Faithful (body : Body) (code : Code) (pool : Pool) : Prop :=
  ∀ done instruction, code.Path done instruction → ¬ body.Drops instruction →
    ∀ (position : Nat) (read : Reg × Width), (instruction.reads pool)[position]? = some read →
      ∃ var, (body.usesAt instruction.addr)[position]? = some var ∧
        (∀ last, done.find? (·.touches read.1 read.2) = some last → last.definition = some read →
          ∀ held, body.HeldIn code last held → var = held) ∧
        (done.find? (·.touches read.1 read.2) = none →
          ∀ arguments, Argument.ofCode code pool = .ok arguments → ∀ argument ∈ arguments,
            (argument.reg, argument.width) = read →
              body.localOfArgument argument.source = some var)

namespace Lift

/-- Along every path, each read of its last instruction is of live code, and reads connect
it with the write its value comes from. -/
def PathsLinked (context : LoweringContext) (isLive : Addr → Bool) (body : Body) : Prop :=
  ∀ done instruction, context.code.Path done instruction → ¬ body.Drops instruction →
    ∀ read ∈ instruction.reads context.pool, isLive instruction.addr = true ∧
      (∀ last, done.find? (·.touches read.1 read.2) = some last → last.definition = some read →
        ∀ held, body.HeldIn context.code last held →
          Linked context isLive instruction.addr read (.at last.addr, read.1)) ∧
      (done.find? (·.touches read.1 read.2) = none →
        ∀ arguments, Argument.ofCode context.code context.pool = .ok arguments →
          ∀ argument ∈ arguments, (argument.reg, argument.width) = read →
            Linked context isLive instruction.addr read (.param, read.1))

variable {context : LoweringContext} {isLive : Addr → Bool} {final : LoweringState}
  {names : Nat → Option Local} {body : Body}

theorem mem_of_find? {code : Code} {done : List Instruction} {instruction last : Instruction}
    {test : Instruction → Bool} (path : code.Path done instruction)
    (found : done.find? test = some last) :
    last ∈ code.instructions := by
  have member := List.mem_of_find?_eq_some found
  clear found
  induction path with
  | entry _ _ => cases member
  | onward path _ _ ih =>
      rcases List.mem_cons.mp member with rfl | inDone
      · exact path.listed
      · exact ih inDone
  | caught _ _ _ ih => exact ih member

/-- Renaming is right along every path exactly if every path is linked. -/
theorem Correspondence.faithful_iff
    (corresponds : Correspondence context isLive final names body) :
    body.Faithful context.code context.pool ↔ PathsLinked context isLive body := by
  constructor
  · intro faithful done instruction path taken read isRead
    obtain ⟨position, found⟩ := List.getElem?_of_mem isRead
    obtain ⟨var, uses, written, passed⟩ := faithful done instruction path taken position read found
    cases lives : isLive instruction.addr with
    | false =>
        rw [corresponds.dead instruction path.listed lives] at uses
        cases uses
    | true =>
        obtain ⟨other, uses', value, reads, isVar⟩ :=
          getElem?_of_forall₂ (corresponds.reads instruction path.listed lives taken) found
        obtain rfl := Option.some.inj (uses.symm.trans uses')
        refine ⟨rfl, fun last isLast defines held holds => ?_, fun untouched arguments isArguments
          argument member same => ?_⟩
        · obtain ⟨own, defined, isHeld⟩ :=
            corresponds.held last (mem_of_find? path isLast) read.1 read.2 held defines holds
          exact (corresponds.eq_iff_linked (.at last.addr, read.1) reads isVar defined isHeld).mp
            (written last isLast defines held holds)
        · obtain ⟨own, held, defined, isHeld, isLocal⟩ :=
            corresponds.arguments arguments isArguments argument member
          have isSame := passed untouched arguments isArguments argument member same
          subst same
          exact (corresponds.eq_iff_linked (.param, argument.reg) reads isVar defined isHeld).mp
            (Option.some.inj (isSame.symm.trans isLocal))
  · intro linked done instruction path taken position read found
    obtain ⟨lives, written, passed⟩ :=
      linked done instruction path taken read (List.mem_of_getElem? found)
    obtain ⟨var, uses, value, reads, isVar⟩ :=
      getElem?_of_forall₂ (corresponds.reads instruction path.listed lives taken) found
    refine ⟨var, uses, fun last isLast defines held holds => ?_, fun untouched arguments isArguments
      argument member same => ?_⟩
    · obtain ⟨own, defined, isHeld⟩ :=
        corresponds.held last (mem_of_find? path isLast) read.1 read.2 held defines holds
      exact (corresponds.eq_iff_linked (.at last.addr, read.1) reads isVar defined isHeld).mpr
        (written last isLast defines held holds)
    · obtain ⟨own, held, defined, isHeld, isLocal⟩ :=
        corresponds.arguments arguments isArguments argument member
      have isLinked := passed untouched arguments isArguments argument member same
      subst same
      rw [isLocal, (corresponds.eq_iff_linked (.param, argument.reg) reads isVar defined isHeld).mpr
        isLinked]

/-- Where the states are a solution and code is cut after the flow ends, what a path
brings to a read is found there. -/
theorem pathsLinked_of_solves {frame : RegisterFrame} {arguments : List Argument}
    (corresponds : Correspondence context isLive final names body)
    (success : FlowGraph.build context.code context.pool = .ok context.graph)
    (found : Argument.ofCode context.code context.pool = .ok arguments)
    (isFrame : frame = ⟨context.code.registers,
      arguments.map fun argument => (argument.reg, argument.width)⟩)
    (solved : solveReaching context.graph frame = some context.states)
    (lives : ∀ addr, context.code.Reached addr → isLive addr = true) (apart : context.code.Apart)
    (small : context.code.registers ≤ 65536) (cut : context.code.CutAfterFlow)
    (solves : context.states.Solves context.graph frame) : PathsLinked context isLive body := by
  intro done instruction path taken read isRead
  have here := lives instruction.addr path.reached
  obtain ⟨inside, -⟩ := corresponds.performed instruction path.listed here read isRead
  obtain ⟨entry, enters, -⟩ := Dataflow.exists_entryAt success apart.distinct solved path.listed
  have below := Dataflow.alongPath_le success apart cut solved solves path enters
  have links : ∀ site, (Reaching.alongPath frame done).HoldsAll site read.1 read.2 →
      Linked context isLive instruction.addr read (site, read.1) := by
    intro site holds
    obtain ⟨d, readable, rfl, same⟩ := (holds.mono below).readable
    refine ⟨d, ?_, ?_⟩
    · rw [LoweringContext.readable, enters]
      exact readable
    · rw [← same]
      exact .refl _
  subst isFrame
  refine ⟨here, fun last isLast defines held _ => ?_, fun untouched arguments' isArguments argument
    member same => ?_⟩
  · exact links _ (Reaching.holdsAll_of_last inside isLast defines)
  · obtain rfl := Except.ok.inj (found.symm.trans isArguments)
    subst same
    obtain ⟨-, ordered⟩ := Argument.ofCode_spec found small
    refine links _ (Reaching.holdsAll_of_untouched (Reaching.holdsAll_init ?_ ?_ inside) untouched)
    · exact List.pairwise_map.mpr (ordered.imp Argument.Precedes.regs)
    · exact List.mem_map.mpr ⟨argument, member, rfl⟩

/-- Registers are renamed right along every path exactly if every path is linked, and they
are if instructions do not overlap, code is cut after the flow ends, and no block passes on
a definition to itself that it does not start with. -/
theorem renaming_faithful_iff {code : Code} {pool : Pool} {options : LiftOptions}
    (lifted : run code pool options = .ok body)
    (distinct : (code.instructions.map Instruction.addr).Nodup) (small : code.registers ≤ 65536) :
    ∃ context, contextOf code pool = .ok context ∧
      (body.Faithful code pool ↔ PathsLinked context (options.keeps context.graph) body) ∧
      (code.Apart → code.CutAfterFlow → context.states.SelfContained context.graph →
        body.Faithful code pool) := by
  obtain ⟨-, context, isContext, assembled⟩ := run_eq_ok.mp lifted
  obtain ⟨rfl, rfl, success, arguments, found, solved⟩ := contextOf_eq_ok.mp isContext
  obtain ⟨statements, final, solution, lowers, rfl⟩ := bodyOf_eq_ok assembled
  obtain ⟨names, corresponds⟩ := @correspondence _ _ _ _ solution lowers distinct small
  have exactly := corresponds.faithful_iff
  refine ⟨context, isContext, exactly, fun apart cut contained => exactly.mpr ?_⟩
  refine pathsLinked_of_solves corresponds success found rfl solved (fun addr reached => ?_) apart small
    cut (Dataflow.solves_of_selfContained success distinct solved contained)
  have computed := (FlowGraph.build_eq_ok success).mem_reachable_of_reached apart cut reached
  rw [LiftOptions.keeps, SortedSet.contains_iff_mem.mpr computed, Bool.or_true]

end Lift

/-- The pool of a class with one method, which takes and returns nothing. -/
def Pool.oneMethod : Pool where
  methods := { items := [⟨.object "a/B", "f", ⟨[], .void⟩⟩] }

/-- A loop of two blocks, the first of which negates a register. -/
def Code.negatingLoop : Code where
  method := 0
  flags := ⟨8⟩
  registers := 1
  instructions := [.setZero 0, .negate 1, .ofOpcode 2 .goto [] (some 1) none,
    .ofOpcode 3 .goto [] (some (-2)) none]
  tries := []

namespace Lift

/-- Lifting by a number of the solver's steps after which its queue is empty. -/
theorem run_of_steps {code : Code} {pool : Pool} {options : LiftOptions} {graph : FlowGraph}
    {count : Nat} (valid : validate code = .ok ())
    (found : Argument.ofCode code pool = .ok []) (success : FlowGraph.build code pool = .ok graph)
    (empty : ((Solving.step graph ⟨code.registers, []⟩)^[count] (.start graph)).queue = [])
    (assembled : bodyOf ⟨pool, code, graph, Dataflow.ofSolving graph
      ((Solving.step graph ⟨code.registers, []⟩)^[count] (.start graph))⟩ options = .ok body) :
    run code pool options = .ok body :=
  run_eq_ok.mpr ⟨valid, _, contextOf_eq_ok.mpr
    ⟨rfl, rfl, success, [], found, Solving.solveReaching_of_empty empty⟩, assembled⟩

/-- The two blocks of the loop are queued for each other, so the negation reads the local
that it writes. -/
theorem faithful_negatingLoop : ∃ body, run .negatingLoop .oneMethod {} = .ok body ∧
    body.Faithful .negatingLoop .oneMethod := by
  obtain ⟨graph, success, leaves, empty, known⟩ : ∃ graph,
      FlowGraph.build .negatingLoop .oneMethod = .ok graph ∧
        (∀ edge ∈ graph.edges, edge.source ≠ edge.target) ∧
        ((Solving.step graph ⟨1, []⟩)^[5] (.start graph)).queue = [] ∧
        (bodyOf ⟨.oneMethod, .negatingLoop, graph, Dataflow.ofSolving graph
          ((Solving.step graph ⟨1, []⟩)^[5] (.start graph))⟩ {}).toOption.map
            (fun _ => decide True) = some true := exists_ok_of_decide (by decide +kernel)
  obtain ⟨body, assembled, -⟩ := exists_ok_of_decide known
  have lifted := run_of_steps (by decide) (by decide) success empty assembled
  refine ⟨body, lifted, ?_⟩
  obtain ⟨context, isContext, -, faithful⟩ := renaming_faithful_iff lifted (by decide) (by decide)
  obtain ⟨-, -, success', -⟩ := contextOf_eq_ok.mp isContext
  obtain rfl := Except.ok.inj (success.symm.trans success')
  refine faithful (by decide) ?_ fun edge listed self => absurd self (leaves edge listed)
  intro earlier later pair reached ends
  simp only [Code.negatingLoop, neighbours_cons, List.head?_cons, List.head?_nil,
    Option.some.injEq, reduceCtorEq, and_false, List.infix_nil, List.cons_ne_nil, or_false] at pair
  rcases pair with ⟨rfl, rfl⟩ | ⟨rfl, rfl⟩ | ⟨rfl, rfl⟩
  · exact absurd ends (by decide)
  · exact absurd ends (by decide)
  · refine .inl ⟨_, List.mem_cons_of_mem _ (List.mem_cons_of_mem _ List.mem_cons_self), ?_⟩
    exact @Instruction.CutsAt.target _ 1 _ (by decide) (by decide)

/-- A block that jumps to itself is not queued again, so the negation reads the local of
the zero and writes another one: the second time around it reads a stale value. -/
theorem not_faithful_selfLoop_negate : ∃ body,
    run (.selfLoop (.negate 1)) .oneMethod {} = .ok body ∧
      ¬ body.Faithful (.selfLoop (.negate 1)) .oneMethod := by
  obtain ⟨graph, success, empty, known⟩ : ∃ graph,
      FlowGraph.build (.selfLoop (.negate 1)) .oneMethod = .ok graph ∧
        ((Solving.step graph ⟨1, []⟩)^[2] (.start graph)).queue = [] ∧
        (bodyOf ⟨.oneMethod, .selfLoop (.negate 1), graph, Dataflow.ofSolving graph
          ((Solving.step graph ⟨1, []⟩)^[2] (.start graph))⟩ {}).toOption.map
            (fun body => decide (body.usesAt 1 = [⟨.int, 0⟩] ∧
              Statement.lastWritten (body.statementsAt 1) = some ⟨.int, 1⟩)) = some true :=
    exists_ok_of_decide (by decide +kernel)
  obtain ⟨body, assembled, uses, written⟩ := exists_ok_of_decide known
  refine ⟨body, run_of_steps (by decide) (by decide) success empty assembled, fun faithful => ?_⟩
  let jump : Instruction := .ofOpcode 2 .goto [] (some (-1)) none
  have once : (Code.selfLoop (.negate 1)).Path [.setZero 0] (.negate 1) :=
    .onward (.entry List.mem_cons_self rfl) (.next (by decide)) (by simp [Code.selfLoop])
  have twice : (Code.selfLoop (.negate 1)).Path [jump, .negate 1, .setZero 0] (.negate 1) :=
    .onward (.onward once (.next (by decide)) (by simp [Code.selfLoop, jump]))
      (@Instruction.Continues.jump jump (-1) _ (by decide) (by decide)) (by simp [Code.selfLoop])
  obtain ⟨var, isVar, same, -⟩ := faithful _ _ twice (fun drops => absurd drops.1 (by decide)) 0
    (.ofNat 0, .narrow) (by decide)
  change (body.usesAt 1)[0]? = some var at isVar
  rw [uses] at isVar
  obtain rfl := Option.some.inj isVar
  exact absurd (same (.negate 1) (by decide) (by decide) ⟨.int, 1⟩ (.own written)) (by decide)

end Lift

end Dalvik
