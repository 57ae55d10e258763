import Dalvik.Proofs.Lift.Assembly
import Dalvik.Proofs.Lowering.Gathering
import Dalvik.Proofs.Typing.Rendering
import Dalvik.Proofs.Typing.Solution

/-!
# Kinds of locals

The local of a value has the kind of its class, so each value at a place with a declared
type is in a local of this type's kind unless its class is reported as conflicting.
-/

namespace Dalvik

namespace Lift

open Lower

namespace Lowered

def solution (lowered : Lowered) : Solution :=
  .solve lowered.state.values.values lowered.state.recorded

def splitContext (lowered : Lowered) : SplitContext :=
  ⟨lowered.solution, (Partition.discrete lowered.state.values.values.length).unionAll lowered.state.merges⟩

def splitting (lowered : Lowered) : Splitting :=
  ((Split.statements lowered.splitContext lowered.statements).run {}).2

def localOf (lowered : Lowered) (value : Nat) : Option Local :=
  lowered.splitting.webs.lookup (lowered.splitContext.webs.label value)

def nameOf (lowered : Lowered) : Nat → Local :=
  Split.namesAt lowered.splitContext lowered.splitting

theorem splitting_valid (lowered : Lowered) : lowered.splitting.Valid :=
  (Split.statements_spec lowered.splitContext lowered.statements Splitting.valid_empty).1.valid

end Lowered

/-- How a body comes about: what its method is lowered to, and the solution of that. -/
structure Lifts (code : Code) (pool : Pool) (options : LiftOptions) (body : Body)
    (context : LoweringContext) (lowered : Lowered) : Prop where
  ofCode : contextOf code pool = .ok context
  lowers : lower context options = .ok lowered
  assembled : body = assemble code lowered lowered.solution

variable {code : Code} {pool : Pool} {options : LiftOptions} {body : Body}
  {context : LoweringContext} {lowered : Lowered}

theorem exists_lifts (lifted : run code pool options = .ok body) :
    ∃ context lowered, Lifts code pool options body context lowered := by
  obtain ⟨-, context, isContext, assembled⟩ := run_eq_ok.mp lifted
  obtain ⟨rfl, -⟩ := contextOf_eq_ok.mp isContext
  simp only [bodyOf, bind_eq_ok] at assembled
  obtain ⟨lowered, isLowered, assembled⟩ := assembled
  refine ⟨context, lowered, isContext, isLowered, ?_⟩
  split at assembled
  · cases assembled
  · exact (pure_eq_ok.mp assembled).symm

theorem sourced_of_contextOf (isContext : contextOf code pool = .ok context) : context.Sourced := by
  obtain ⟨rfl, rfl, success, arguments, found, solved⟩ := contextOf_eq_ok.mp isContext
  refine ⟨⟨arguments, found⟩, fun addr reg width d reads => ?_⟩
  rw [LoweringContext.readable] at reads
  cases enters : context.states.entryAt addr with
  | none =>
      rw [enters] at reads
      cases reads
  | some state =>
      rw [enters] at reads
      have sourced := Dataflow.sourced_entryAt (FlowGraph.build_eq_ok success) solved enters
      exact ⟨arguments, found, sourced.readable reads⟩

namespace Lifts

variable (lifts : Lifts code pool options body context lowered)
include lifts

theorem run_lowerMethod : (lowerMethod context (options.keeps context.graph)).run {} =
    .ok (lowered.statements, lowered.state) := by
  have isLowered := lifts.lowers
  simp only [lower, bind_eq_ok, pure_eq_ok] at isLowered
  obtain ⟨⟨statements, final⟩, lowers, rfl⟩ := isLowered
  exact lowers

theorem gathers : Gathers context (options.keeps context.graph) lowered.statements lowered.state :=
  gathers_of_lowerMethod (sourced_of_contextOf lifts.ofCode) lifts.run_lowerMethod

theorem lowersMethod :
    LowersMethod context (options.keeps context.graph) lowered.statements lowered.state :=
  lowerMethod_spec lifts.run_lowerMethod

theorem diagnostics : body.diagnostics = lowered.solution.diagnostics := by
  rw [lifts.assembled]
  rfl

theorem locals : body.locals = lowered.splitting.declared := by
  rw [lifts.assembled]
  rfl

/-- The statements of the body are the lowered ones over the locals of their values. -/
theorem shown : Split.AllShown lowered.splitContext lowered.nameOf lowered.splitting
    lowered.statements body.statements := by
  rw [lifts.assembled]
  exact (Split.statements_shown lowered.statements Splitting.valid_empty).2 _
    (Split.follows_namesAt lowered.splitting)

theorem rendered : Split.Rendered lowered.splitContext lowered.splitting
    lowered.statements body.statements := by
  rw [lifts.assembled]
  exact (Split.statements_spec lowered.splitContext lowered.statements Splitting.valid_empty).2

/-! ## Webs and classes -/

theorem inside : Solution.Inside lowered.state.values.values lowered.state.recorded := by
  intro entry listed value other same
  obtain ⟨width, first, second⟩ := lifts.gathers.orderly.linked entry listed value other same
  exact ⟨first.lt, second.lt⟩

/-- Pairs are of values that there are. -/
theorem merges_inside : ∀ pair ∈ lowered.state.merges,
    pair.1 < lowered.state.values.values.length ∧ pair.2 < lowered.state.values.values.length := by
  intro pair member
  obtain ⟨_, -, -, _, -, ⟨_, -, isFirst⟩, _, -, isSecond⟩ := lifts.lowersMethod.pairs pair member
  exact ⟨ValueFile.lt_of_definedAt? isFirst, ValueFile.lt_of_definedAt? isSecond⟩

/-- Values of one web are in one class. -/
theorem class_of_web {first second : Nat} (firstInside : first < lowered.state.values.values.length)
    (same : lowered.splitContext.webs.label first = lowered.splitContext.webs.label second) :
    second < lowered.state.values.values.length ∧
      (Solution.partition lowered.state.values.values lowered.state.recorded).label first =
        (Solution.partition lowered.state.values.values lowered.state.recorded).label second := by
  have canonical : lowered.splitContext.webs.Canonical :=
    (Partition.canonical_discrete lowered.state.values.values.length).unionAll
      (by rw [Partition.length_discrete]; exact lifts.merges_inside)
  have size : lowered.splitContext.webs.labels.length = lowered.state.values.values.length :=
    (Partition.length_unionAll _ _).trans (Partition.length_discrete _)
  have secondInside : second < lowered.state.values.values.length := by
    by_contra outside
    have own : lowered.splitContext.webs.label second = second := by
      rw [Partition.label, List.getD_eq_default]
      rw [size]
      exact Nat.not_lt.mp outside
    have below := canonical.inside first (by rwa [size])
    rw [size, same, own] at below
    exact outside below
  refine ⟨secondInside, (lifts.inside.label_eq_iff firstInside secondInside).mpr ?_⟩
  refine ((Partition.label_discrete_unionAll_iff lifts.merges_inside firstInside secondInside).mp
    same).mono ?_
  exact fun a b member => lifts.gathers.orderly.paired (a, b) member

/-- The local of a value has the kind of its class. -/
theorem kind_localOf {value : Nat} (present : value < lowered.state.values.values.length) {var : Local}
    (isLocal : lowered.localOf value = some var) : var.kind = lowered.solution.kindOf value := by
  obtain ⟨⟨_, advances, -⟩, -⟩ := @Split.statements_shown lowered.splitContext lowered.statements {}
    Splitting.valid_empty
  obtain ⟨other, sameWeb, kind⟩ := advances.kinded (fun _ _ found => by cases found) _ var isLocal
  obtain ⟨otherPresent, sameClass⟩ := lifts.class_of_web present sameWeb.symm
  rw [kind, Solution.kindOf, Solution.kindOf, Lowered.splitContext, Lowered.solution]
  dsimp only
  rw [Solution.class?_congr present otherPresent sameClass]

/-- A value with a declared type is in a local of this type's kind, or its class is reported
as conflicting. -/
theorem kind_or_conflict {value : Nat} {kind : Kind}
    (restricts : Restricts lowered.state value (.ofKind kind))
    (present : value < lowered.state.values.values.length) :
    (∀ var, lowered.localOf value = some var → var.kind = kind) ∨
      lowered.solution.isConflicting value = true ∧ ∃ number report,
        lowered.solution.diagnosticOf value = some number ∧
          body.diagnostics[number]? = some report ∧ report.isConflict = true := by
  cases conflict : lowered.solution.isConflicting value with
  | true =>
      rw [lifts.diagnostics]
      exact .inr ⟨rfl, Solution.exists_report lifts.inside present conflict⟩
  | false =>
      obtain ⟨entry, listed, rfl, allowed⟩ := restricts
      have contains := Solution.contains_kindOf lifts.inside listed allowed present conflict
      refine .inl fun var isLocal => (lifts.kind_localOf present isLocal).trans ?_
      exact (KindSet.contains_ofKind.mp contains).symm

/-- Each slot of a lowered statement is accounted for, and its local has the kind of its
class. -/
theorem named {item : Option Addr × Statement Slot} (member : item ∈ lowered.statements) {slot : Slot}
    (isSlot : slot ∈ item.2.slots) :
    Stated context lowered.state slot ∧
      lowered.localOf slot.value = some (lowered.nameOf slot.value) ∧
      (lowered.nameOf slot.value).kind = lowered.solution.kindOf slot.value := by
  have sound := lifts.gathers.sound item member
  have stated : Stated context lowered.state slot := by
    rcases Statement.mem_slots.mp isSlot with isUse | written
    · exact sound.stated isUse
    · exact sound.written slot written
  obtain ⟨var, isLocal⟩ := lifts.rendered.exists_local member isSlot
  have isName : lowered.nameOf slot.value = var :=
    Split.follows_namesAt lowered.splitting slot.value var isLocal
  exact ⟨stated, isName ▸ isLocal, isName ▸ lifts.kind_localOf stated.present isLocal⟩

/-- Values with one local are in one class. -/
theorem class_of_local {first second : Nat} (present : first < lowered.state.values.values.length)
    {var : Local} (isFirst : lowered.localOf first = some var)
    (isSecond : lowered.localOf second = some var) :
    lowered.solution.class? first = lowered.solution.class? second := by
  have sameWeb := lowered.splitting_valid.distinct _ _ var isFirst isSecond
  obtain ⟨inside, sameClass⟩ := lifts.class_of_web present sameWeb
  exact Solution.class?_congr present inside sameClass

end Lifts

/-- Each value at a place with a declared type is in a local of the kind of this type, unless
its class is conflicting and reported so. -/
theorem declared_kind_or_conflict (lifted : run code pool options = .ok body) :
    ∃ context lowered, Lifts code pool options body context lowered ∧
      Split.Rendered lowered.splitContext lowered.splitting lowered.statements body.statements ∧
      ∀ value kind, DeclaredAt context (options.keeps context.graph) lowered.state value kind →
        (∀ var, lowered.localOf value = some var → var.kind = kind) ∨
          lowered.solution.isConflicting value = true ∧ ∃ number report,
            lowered.solution.diagnosticOf value = some number ∧
              body.diagnostics[number]? = some report ∧ report.isConflict = true := by
  obtain ⟨context, lowered, lifts⟩ := exists_lifts lifted
  refine ⟨context, lowered, lifts, lifts.rendered, fun value kind declared => ?_⟩
  obtain ⟨present, restricts⟩ := lifts.gathers.declared value kind declared
  exact lifts.kind_or_conflict restricts present

/-- Without `strict` there is a body for everything that can be lowered. -/
theorem bodyOf_of_lower {context : LoweringContext} {options : LiftOptions} {lowered : Lowered}
    (isLowered : lower context options = .ok lowered) (lenient : options.strict = false) :
    bodyOf context options = .ok (assemble context.code lowered lowered.solution) := by
  rw [bodyOf, isLowered]
  dsimp only [bind, Except.bind]
  rw [lenient]
  rfl

/-- What a method is lowered to passes a test, with the states after a number of the solver's
steps. -/
def LowersTo (code : Code) (pool : Pool) (frame : RegisterFrame) (count : Nat) (options : LiftOptions)
    (property : LoweringContext → Lowered → Prop)
    [∀ context, DecidablePred (property context)] : Prop :=
  (FlowGraph.build code pool).toOption.map (fun graph =>
    let solving := (Solving.step graph frame)^[count] (.start graph)
    let context : LoweringContext := ⟨pool, code, graph, .ofSolving graph solving⟩
    decide (solving.queue = [] ∧ (lower context options).toOption.map (fun lowered =>
      decide (property context lowered)) = some true)) = some true

instance {code : Code} {pool : Pool} {frame : RegisterFrame} {count : Nat} {options : LiftOptions}
    {property : LoweringContext → Lowered → Prop} [∀ context, DecidablePred (property context)] :
    Decidable (LowersTo code pool frame count options property) :=
  inferInstanceAs (Decidable (_ = _))

/-- A method has a body that comes from what it is lowered to. -/
theorem LowersTo.exists_lifts {code : Code} {pool : Pool} {arguments : List Argument} {count : Nat}
    {options : LiftOptions} {property : LoweringContext → Lowered → Prop}
    [∀ context, DecidablePred (property context)]
    (valid : validate code = .ok ()) (found : Argument.ofCode code pool = .ok arguments)
    (lenient : options.strict = false)
    (lowers : LowersTo code pool ⟨code.registers, arguments.map fun argument =>
      (argument.reg, argument.width)⟩ count options property) :
    ∃ body context lowered, run code pool options = .ok body ∧
      Lifts code pool options body context lowered ∧ property context lowered := by
  obtain ⟨graph, success, empty, known⟩ := exists_ok_of_decide lowers
  obtain ⟨lowered, isLowered, holds⟩ := exists_ok_of_decide known
  have isContext : contextOf code pool = .ok ⟨pool, code, graph, _⟩ :=
    contextOf_eq_ok.mpr ⟨rfl, rfl, success, arguments, found, Solving.solveReaching_of_empty empty⟩
  have isBody := bodyOf_of_lower isLowered lenient
  exact ⟨_, _, lowered, run_eq_ok.mpr ⟨valid, _, isContext, isBody⟩, ⟨isContext, isLowered, rfl⟩, holds⟩

end Lift

/-- The pool of a class with one method, which takes an array of floats and an index. -/
def Pool.takesFloats : Pool where
  methods := { items := [⟨.object "a/B", "f", ⟨[.array 1 .float, .int], .int⟩⟩] }

/-- A method that moves its array, loads an element of it from each register, and returns the
second as an int. -/
def Code.loadsTwice : Code where
  method := 0
  flags := ⟨8⟩
  registers := 4
  instructions := [.ofOpcode 0 .moveObject [.ofNat 0, .ofNat 2] none none,
    .ofOpcode 1 .aget [.ofNat 1, .ofNat 0, .ofNat 3] none none,
    .ofOpcode 3 .aget [.ofNat 0, .ofNat 2, .ofNat 3] none none,
    .ofOpcode 5 .returnNarrow [.ofNat 0] none none]
  tries := []

namespace Lift

/-- The element that is loaded through the moved array is in a float local; the one that is
returned as an int is reported. -/
theorem kind_loadsTwice : ∃ body, run .loadsTwice .takesFloats {} = .ok body ∧
    ∃ context lowered, Lifts .loadsTwice .takesFloats {} body context lowered ∧
      DeclaredAt context (LiftOptions.keeps {} context.graph) lowered.state 3 .float ∧
      (∃ var, lowered.localOf 3 = some var ∧ var.kind = .float) ∧
      DeclaredAt context (LiftOptions.keeps {} context.graph) lowered.state 4 .float ∧
      DeclaredAt context (LiftOptions.keeps {} context.graph) lowered.state 4 .int ∧
      ∃ number report, lowered.solution.diagnosticOf 4 = some number ∧
        body.diagnostics[number]? = some report ∧ report.isConflict = true := by
  have lowers : LowersTo .loadsTwice .takesFloats ⟨4, [(.ofNat 2, .narrow), (.ofNat 3, .narrow)]⟩ 4 {}
      fun context lowered =>
        (∃ step ∈ loweredSteps context (LiftOptions.keeps {} context.graph),
          step.current.declaredWrite context step.known = some .float ∧
            ∃ statement ∈ step.statements, statement.written = some ⟨3, .ofKind .float⟩) ∧
        (∃ step ∈ loweredSteps context (LiftOptions.keeps {} context.graph),
          step.current.declaredWrite context step.known = some .float ∧
            ∃ statement ∈ step.statements, statement.written = some ⟨4, .ofKind .float⟩) ∧
        (∃ step ∈ loweredSteps context (LiftOptions.keeps {} context.graph),
          (step.current.declaredReads context step.known)[0]? = some (some .int) ∧
            (step.statements.flatMap Statement.uses)[0]? = some ⟨4, .ofKind .int⟩) ∧
        lowered.solution.isConflicting 3 = false ∧ (lowered.localOf 3).isSome = true ∧
        (lowered.localOf 4).map Local.kind = some .int := by
    decide +kernel
  obtain ⟨body, context, lowered, lifted, lifts, ⟨aget, isAget, declared, _, isLoad, writes⟩,
    ⟨aget', isAget', declared', _, isLoad', writes'⟩, ⟨exit, isExit, returns, reads⟩, free, named, kind⟩ :=
    @LowersTo.exists_lifts .loadsTwice .takesFloats [⟨.ofNat 2, .narrow, .object,
      .parameter 0 (.array 1 .float)⟩, ⟨.ofNat 3, .narrow, .int, .parameter 1 .int⟩] 4 {} _ _
      (by decide) (by decide) rfl lowers
  have isFloat : DeclaredAt context (LiftOptions.keeps {} context.graph) lowered.state 3 .float :=
    .written isAget isLoad writes declared
  have alsoFloat : DeclaredAt context (LiftOptions.keeps {} context.graph) lowered.state 4 .float :=
    .written isAget' isLoad' writes' declared'
  have isInt : DeclaredAt context (LiftOptions.keeps {} context.graph) lowered.state 4 .int :=
    .read isExit reads returns
  obtain ⟨context', lowered', lifts', -, honoured⟩ := declared_kind_or_conflict lifted
  obtain rfl := Except.ok.inj (lifts.ofCode.symm.trans lifts'.ofCode)
  obtain rfl := Except.ok.inj (lifts.lowers.symm.trans lifts'.lowers)
  refine ⟨body, lifted, context, lowered, lifts, isFloat, ?_, alsoFloat, isInt, ?_⟩
  · obtain ⟨var, isVar⟩ := Option.isSome_iff_exists.mp named
    refine ⟨var, isVar, ?_⟩
    rcases honoured 3 .float isFloat with kinds | ⟨conflict, -⟩
    · exact kinds var isVar
    · rw [free] at conflict
      cases conflict
  · obtain ⟨var, isVar, isOther⟩ := Option.map_eq_some_iff.mp kind
    rcases honoured 4 .float alsoFloat with kinds | ⟨-, reported⟩
    · rw [kinds var isVar] at isOther
      cases isOther
    · exact reported

end Lift

end Dalvik
