import Dalvik.Proofs.Flow.Twins
import Dalvik.Proofs.Lift.Kinds
import Dalvik.Proofs.Lowering.Agreement
import Dalvik.Proofs.Reaching.Paired

/-!
# What a body does not depend on

A pruned body does not depend on code that is not found from the start, as long as
this code keeps to itself.
-/

namespace Dalvik

/-- Items of two lists with the same images are related if items with one image are. -/
theorem forall₂_of_map_eq {α β γ : Type} {image : α → γ} {image' : β → γ}
    {related : α → β → Prop} {list : List α} {others : List β}
    (same : list.map image = others.map image')
    (each : ∀ item ∈ list, ∀ other ∈ others, image item = image' other → related item other) :
    List.Forall₂ related list others := by
  induction list generalizing others with
  | nil =>
      obtain rfl := List.map_eq_nil_iff.mp same.symm
      exact .nil
  | cons item rest ih =>
      cases others with
      | nil => cases same
      | cons other others =>
          obtain ⟨here, later⟩ := List.cons.inj same
          exact .cons (each item List.mem_cons_self other List.mem_cons_self here)
            (ih later fun item member other member' =>
              each item (List.mem_cons_of_mem _ member) other (List.mem_cons_of_mem _ member'))

/-- Traversals of two lists are the same if they do the same for matched items. -/
theorem mapM_congr_forall₂ {m : Type → Type} [Monad m] [LawfulMonad m] {α β γ : Type}
    {act : α → m γ} {act' : β → m γ} {list : List α} {others : List β}
    (matched : List.Forall₂ (fun item other => act item = act' other) list others) :
    list.mapM act = others.mapM act' := by
  induction matched with
  | nil => rfl
  | cons here _ ih => rw [List.mapM_cons, List.mapM_cons, here, ih]

namespace Lift

variable {isLive : Addr → Bool}

theorem LowersEach.isLive_addr {context : LoweringContext} {final : LoweringState}
    {list : List Instruction} {results : List (Addr × List (Statement Slot))}
    (lowers : LowersEach context isLive final list results) :
    ∀ result ∈ results, isLive result.1 = true := by
  induction lowers with
  | done => simp
  | live lives _ _ ih => exact List.forall_mem_cons.mpr ⟨lives, ih⟩
  | dead _ _ ih => exact ih

open FlowGraph

variable {pool : Pool} {first second : Code} {graph graph' : FlowGraph}

/-- What follows an instruction that is found and falls through is the same in both
methods. -/
theorem next_eq (twins : Twins pool first second graph graph')
    {step twin : Instruction × Option Instruction}
    (member : step ∈ liveSteps graph.reachable.contains first.instructions)
    (member' : twin ∈ liveSteps graph'.reachable.contains second.instructions)
    (same : step.1 = twin.1) (falls : step.1.endsFlow = false) :
    step.2 = twin.2 ∧ ∀ next ∈ step.2, next.addr ∈ graph.reachable := by
  obtain ⟨lives, earlier, later, split, next⟩ := split_of_mem_liveSteps member
  obtain ⟨-, earlier', later', split', next'⟩ := split_of_mem_liveSteps member'
  have listed : step.1 ∈ first.instructions := split ▸ by simp
  have reached := SortedSet.contains_iff_mem.mp lives
  obtain ⟨after, inFirst, follows⟩ :=
    Code.hasInstruction_iff.mp (twins.built.falls step.1 listed falls)
  have afterReached : after.addr ∈ graph.reachable :=
    follows ▸ twins.built.next_reached twins.apart listed reached falls
  have head := twins.apart.head_eq_next split inFirst follows
  have head' := twins.apart'.head_eq_next split' (twins.listed inFirst afterReached)
    (same ▸ follows)
  rw [next, next', head, head']
  refine ⟨rfl, fun other isNext => ?_⟩
  obtain rfl := Option.some.inj isNext
  exact afterReached

/-- The instructions found are lowered to the same statements. -/
theorem lowerEach_eq {states states' : Dataflow} (twins : Twins pool first second graph graph')
    (agrees : ∀ addr ∈ graph.reachable, LoweringContext.AgreesAt ⟨pool, first, graph, states⟩
      ⟨pool, second, graph', states'⟩ addr) :
    lowerEach ⟨pool, first, graph, states⟩ graph.reachable.contains first.instructions =
      lowerEach ⟨pool, second, graph', states'⟩ graph'.reachable.contains second.instructions := by
  rw [lowerEach_eq_mapM, lowerEach_eq_mapM]
  refine mapM_congr_forall₂ (@forall₂_of_map_eq _ _ _ Prod.fst Prod.fst _ _ _ ?_ ?_)
  · rw [liveSteps_map_fst, liveSteps_map_fst]
    exact twins.instructions
  · rintro ⟨instruction, next⟩ member ⟨_, next'⟩ member' rfl
    have reached := SortedSet.contains_iff_mem.mp (split_of_mem_liveSteps member).1
    have same : Lower.instruction ⟨pool, first, graph, states⟩ instruction next =
        Lower.instruction ⟨pool, second, graph', states'⟩ instruction next' := by
      refine Lower.instruction_congr (agrees _ reached) fun falls => ?_
      obtain ⟨equal, nextReached⟩ := next_eq twins member member' rfl falls
      exact ⟨equal, fun after isNext => twins.isTarget (nextReached after isNext)⟩
    simp only [same]

/-- The statements of what is found are placed alike. -/
theorem placed_eq (twins : Twins pool first second graph graph') {addr : Addr}
    (reached : addr ∈ graph.reachable) : placed graph addr = placed graph' addr := by
  funext statements
  rw [placed, twins.isTarget reached, placed]

end Lift

/-- Two methods that are declared alike and have the same try table and the same
instructions found from the start of their graphs. -/
structure SameFound (first second : Code) (graph graph' : FlowGraph) : Prop where
  method : first.method = second.method
  flags : first.flags = second.flags
  registers : first.registers = second.registers
  tries : first.tries = second.tries
  found : graph.reachable = graph'.reachable
  instructions : first.instructions.filter (graph.reachable.contains ·.addr) =
    second.instructions.filter (graph'.reachable.contains ·.addr)

namespace SameFound

variable {pool : Pool} {first second : Code} {graph graph' : FlowGraph}

theorem arguments (same : SameFound first second graph graph') (pool : Pool) :
    Argument.ofCode first pool = Argument.ofCode second pool := by
  obtain ⟨method, flags, registers, instructions, tries⟩ := first
  obtain ⟨rfl, rfl, rfl, -, -, -⟩ := same
  rfl

theorem frame (same : SameFound first second graph graph') (pool : Pool) :
    RegisterFrame.ofCode first pool = RegisterFrame.ofCode second pool := by
  rw [RegisterFrame.ofCode, same.arguments, same.registers, RegisterFrame.ofCode]

end SameFound

namespace Lift

open FlowGraph

variable {pool : Pool} {first second : Code} {graph graph' : FlowGraph} {states states' : Dataflow}

theorem lowerMethod_eq (same : SameFound first second graph graph')
    (twins : Twins pool first second graph graph')
    (agrees : ∀ addr ∈ graph.reachable, LoweringContext.AgreesAt ⟨pool, first, graph, states⟩
      ⟨pool, second, graph', states'⟩ addr) :
    lowerMethod ⟨pool, first, graph, states⟩ graph.reachable.contains =
      lowerMethod ⟨pool, second, graph', states'⟩ graph'.reachable.contains := by
  have arguments : Lower.allArguments ⟨pool, first, graph, states⟩ =
      Lower.allArguments ⟨pool, second, graph', states'⟩ := by
    simp only [Lower.allArguments, same.arguments]
  simp only [lowerMethod, arguments, ← lowerEach_eq twins agrees]
  refine bind_congr fun identities => StateT.ext fun before => ?_
  simp only [StateT.run_bind]
  cases lowered : (lowerEach ⟨pool, first, graph, states⟩ graph.reachable.contains
      first.instructions).run before with
  | error error => rfl
  | ok outcome =>
      obtain ⟨results, after⟩ := outcome
      have lives := ((lowerEach_spec lowered).2.2 after (.refl _)).isLive_addr
      have flat : (results.flatMap fun result => placed graph result.1 result.2) =
          results.flatMap fun result => placed graph' result.1 result.2 := by
        refine List.flatMap_congr fun result member => ?_
        exact congrFun (placed_eq twins (SortedSet.contains_iff_mem.mp (lives _ member))) result.2
      exact congrArg (fun statements => Except.ok (identities.map (none, ·) ++ statements, after)) flat

/-- Contexts with the same states where instructions are found give the same body. -/
theorem bodyOf_eq (same : SameFound first second graph graph')
    (twins : Twins pool first second graph graph')
    (agrees : ∀ addr ∈ graph.reachable, LoweringContext.AgreesAt ⟨pool, first, graph, states⟩
      ⟨pool, second, graph', states'⟩ addr) {options : LiftOptions} (prune : options.prune = true) :
    bodyOf ⟨pool, first, graph, states⟩ options = bodyOf ⟨pool, second, graph', states'⟩ options := by
  have lowered : lower ⟨pool, first, graph, states⟩ options =
      lower ⟨pool, second, graph', states'⟩ options := by
    simp only [lower, prune, Bool.not_true, Bool.false_or, lowerMethod_eq same twins agrees]
  have assembled : assemble first = assemble second := by
    funext lowered solution
    simp only [assemble, same.method, same.tries]
  simp only [bodyOf, lowered, assembled]

/-- Where an instruction is found, the results for both methods have the same state. -/
theorem agreesAt (same : SameFound first second graph graph')
    (twins : Twins pool first second graph graph') {frame : RegisterFrame}
    (solved : solveReaching graph frame = some states)
    (solved' : solveReaching graph' frame = some states') {addr : Addr}
    (reached : addr ∈ graph.reachable) : LoweringContext.AgreesAt ⟨pool, first, graph, states⟩
      ⟨pool, second, graph', states'⟩ addr where
  pool := rfl
  method := same.method
  registers := same.registers
  entry := by
    have built := twins.built
    obtain ⟨number, block, path, place, instruction, inBlock, rfl⟩ :=
      (mem_reachable built.closed).mp reached
    obtain ⟨other, pair⟩ := twins.exists_sameBlock
      (finds_iff.mpr ((mem_reachableBlocks built.closed).mpr path))
    exact Dataflow.entryAt_paired built twins.symm.built twins.apart.distinct twins.apart'.distinct
      twins.paired (built.secluded twins.apart.distinct twins.secluded)
      (twins.symm.built.secluded twins.apart'.distinct twins.secluded') solved solved' pair place
      inBlock

/-- The code that is not found from the start does not influence a pruned body, unless
it leads to code that is found: two methods with the same instructions found are
lifted to the same body or fail with the same error, if solving ends for both. -/
theorem run_eq_of_secluded {pool : Pool} {first second : Code} {graph graph' : FlowGraph}
    (builds : build first pool = .ok graph) (builds' : build second pool = .ok graph')
    (valid : validate first = .ok ()) (valid' : validate second = .ok ())
    (apart : first.Apart) (apart' : second.Apart) (same : SameFound first second graph graph')
    (secluded : first.Secluded graph) (secluded' : second.Secluded graph')
    {options : LiftOptions} (prune : options.prune = true) :
    run first pool options = .error .unsettled ∨ run second pool options = .error .unsettled ∨
      run first pool options = run second pool options := by
  have twins : Twins pool first second graph graph' := ⟨builds, builds', apart, apart', secluded,
    secluded', same.tries, same.found, same.instructions⟩
  simp only [run, contextOf, valid, valid', builds, builds', same.frame]
  cases liftCode (RegisterFrame.ofCode second pool) with
  | error error => exact .inr (.inr rfl)
  | ok frame =>
      cases solved : solveReaching graph frame with
      | none => exact .inl (by simp only [bind, Except.bind, solved]; rfl)
      | some states =>
          cases solved' : solveReaching graph' frame with
          | none => exact .inr (.inl (by simp only [bind, Except.bind, solved']; rfl))
          | some states' =>
              have bodies := bodyOf_eq same twins
                (fun addr reached => agreesAt same twins solved solved' reached) prune
              exact .inr (.inr (by simp only [bind, Except.bind, solved, solved']; exact bodies))

end Lift

instance {first second : Code} {graph graph' : FlowGraph} :
    Decidable (SameFound first second graph graph') :=
  decidable_of_iff (first.method = second.method ∧ first.flags = second.flags ∧
      first.registers = second.registers ∧ first.tries = second.tries ∧
      graph.reachable = graph'.reachable ∧
      first.instructions.filter (graph.reachable.contains ·.addr) =
        second.instructions.filter (graph'.reachable.contains ·.addr))
    ⟨fun ⟨method, flags, registers, tries, found, instructions⟩ =>
        ⟨method, flags, registers, tries, found, instructions⟩,
      fun same => ⟨same.method, same.flags, same.registers, same.tries, same.found,
        same.instructions⟩⟩

/-- The pool of a class with one method, which takes an object and returns an int. -/
def Pool.objectToInt : Pool where
  methods := { items := [⟨.object "a/B", "f", ⟨[.object "java/lang/Object"], .int⟩⟩] }

/-- A method that puts one into the register of its argument and returns it, with some
code behind. -/
def Code.returnsOne (behind : List Instruction) : Code where
  method := 0
  flags := ⟨8⟩
  registers := 1
  instructions := { Instruction.ofOpcode 0 .const4 [.ofNat 0] none none with literal := some 1 } ::
    .ofOpcode 1 .returnNarrow [.ofNat 0] none none :: behind
  tries := []

def Code.nopBehind : List Instruction :=
  [.ofOpcode 2 .nop [] none none, .ofOpcode 3 .returnVoid [] none none]

def Code.jumpBehind : List Instruction :=
  [.ofOpcode 2 .goto [] (some (-1)) none]

def Argument.ofReturnsOne : Argument :=
  ⟨.ofNat 0, .narrow, .object, .parameter 0 (.object "java/lang/Object")⟩

namespace Lift

open FlowGraph

/-- The method has the same body with nothing behind and with code that keeps to itself. -/
theorem run_returnsOne_nopBehind : ∃ body, run (.returnsOne []) .objectToInt {} = .ok body ∧
    run (.returnsOne Code.nopBehind) .objectToInt {} = .ok body := by
  obtain ⟨graph, builds, found, known⟩ : ∃ graph,
      build (.returnsOne []) .objectToInt = .ok graph ∧ graph.reachable.elements = [0, 1] ∧
        (build (.returnsOne Code.nopBehind) .objectToInt).toOption.map (fun graph' =>
          decide (SameFound (.returnsOne []) (.returnsOne Code.nopBehind) graph graph')) =
            some true := exists_ok_of_decide (by decide +kernel)
  obtain ⟨graph', builds', same⟩ := exists_ok_of_decide known
  have reached : ∀ addr, addr ∈ graph.reachable ↔ addr ∈ [0, 1] := by
    intro addr
    rw [← found]
    rfl
  have secluded : (Code.returnsOne []).Secluded graph := by
    intro instruction listed lost
    rw [reached] at lost
    simp only [Code.returnsOne, List.mem_cons, List.mem_nil_iff, or_false] at listed
    rcases listed with rfl | rfl
    · exact absurd (by decide) lost
    · exact absurd (by decide) lost
  have secluded' : (Code.returnsOne Code.nopBehind).Secluded graph' := by
    intro instruction listed lost caught addr steps
    rw [← same.found, reached] at lost ⊢
    cases steps with
    | caught catches => exact absurd catches.2 (by simp [Code.returnsOne])
    | onward continues =>
        simp only [Code.returnsOne, Code.nopBehind, List.mem_cons, List.mem_nil_iff, or_false] at listed
        cases continues with
        | next falls =>
          rcases listed with rfl | rfl | rfl | rfl
          · exact absurd (by decide) lost
          · exact absurd (by decide) lost
          · decide
          · exact absurd falls (by decide)
        | @jump offset _ isOffset leads =>
          have none : instruction.jumpOffsets = [] := by
            rcases listed with rfl | rfl | rfl | rfl <;> rfl
          simp [none] at isOffset
  have lowers : LowersTo (.returnsOne []) .objectToInt ⟨1, [(.ofNat 0, .narrow)]⟩ 1 {}
      fun _ _ => True := by decide +kernel
  have lowers' : LowersTo (.returnsOne Code.nopBehind) .objectToInt ⟨1, [(.ofNat 0, .narrow)]⟩ 2 {}
      fun _ _ => True := by decide +kernel
  obtain ⟨body, _, _, lifted, -⟩ := @LowersTo.exists_lifts (.returnsOne []) .objectToInt
    [.ofReturnsOne] 1 {} _ _ (by decide) (by decide) rfl lowers
  obtain ⟨body', _, _, lifted', -⟩ := @LowersTo.exists_lifts (.returnsOne Code.nopBehind) .objectToInt
    [.ofReturnsOne] 2 {} _ _ (by decide) (by decide) rfl lowers'
  have runs := @run_eq_of_secluded .objectToInt (.returnsOne []) (.returnsOne Code.nopBehind) graph graph'
    builds builds' (by decide) (by decide) (by decide) (by decide) same secluded secluded' {} rfl
  rw [lifted, lifted'] at runs
  simp only [reduceCtorEq, false_or] at runs
  exact ⟨body, lifted, lifted'.trans runs.symm⟩

/-- With a jump back behind it the argument also reaches the return, and conflicts with
the int there. -/
theorem run_returnsOne_jumpBehind : ∃ graph graph' body body',
    build (.returnsOne Code.nopBehind) .objectToInt = .ok graph ∧
      build (.returnsOne Code.jumpBehind) .objectToInt = .ok graph' ∧
      SameFound (.returnsOne Code.nopBehind) (.returnsOne Code.jumpBehind) graph graph' ∧
      run (.returnsOne Code.nopBehind) .objectToInt {} = .ok body ∧
      run (.returnsOne Code.jumpBehind) .objectToInt {} = .ok body' ∧
      body.diagnostics = [] ∧ body'.diagnostics ≠ [] := by
  obtain ⟨graph, builds, known⟩ : ∃ graph, build (.returnsOne Code.nopBehind) .objectToInt = .ok graph ∧
      (build (.returnsOne Code.jumpBehind) .objectToInt).toOption.map (fun graph' =>
        decide (SameFound (.returnsOne Code.nopBehind) (.returnsOne Code.jumpBehind) graph graph')) =
          some true := exists_ok_of_decide (by decide +kernel)
  obtain ⟨graph', builds', same⟩ := exists_ok_of_decide known
  have lowers : LowersTo (.returnsOne Code.nopBehind) .objectToInt ⟨1, [(.ofNat 0, .narrow)]⟩ 2 {}
      fun _ lowered => lowered.solution.diagnostics = [] := by decide +kernel
  have lowers' : LowersTo (.returnsOne Code.jumpBehind) .objectToInt ⟨1, [(.ofNat 0, .narrow)]⟩ 4 {}
      fun _ lowered => lowered.solution.diagnostics ≠ [] := by decide +kernel
  obtain ⟨body, _, _, lifted, lifts, calm⟩ := @LowersTo.exists_lifts (.returnsOne Code.nopBehind)
    .objectToInt [.ofReturnsOne] 2 {} _ _ (by decide) (by decide) rfl lowers
  obtain ⟨body', _, _, lifted', lifts', reports⟩ := @LowersTo.exists_lifts
    (.returnsOne Code.jumpBehind) .objectToInt [.ofReturnsOne] 4 {} _ _ (by decide) (by decide) rfl
    lowers'
  rw [← lifts.diagnostics] at calm
  rw [← lifts'.diagnostics] at reports
  exact ⟨graph, graph', body, body', builds, builds', same, lifted, lifted', calm, reports⟩

end Lift

end Dalvik
