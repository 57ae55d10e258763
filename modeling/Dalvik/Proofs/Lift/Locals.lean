import Dalvik.Proofs.Argument
import Dalvik.Proofs.Lowering.Method
import Dalvik.Proofs.Typing.Split

/-!
# The locals of a body

What the statements of a lifted body read and define, instruction by instruction, and
the values these locals stand for.
-/

namespace Dalvik

def LiftOptions.keeps (options : LiftOptions) (graph : FlowGraph) (addr : Addr) : Bool :=
  !options.prune || graph.reachable.contains addr

namespace Body

/-- The locals that the instruction at an address reads, in the order of its reads.  The
statements after its first one only move a temporary. -/
def usesAt (body : Body) (addr : Addr) : List Local :=
  (body.statementsAt addr).head?.elim [] Statement.uses

/-- The local that has what an instruction writes: the last one that its statements
define, or those of the call whose result it moves. -/
inductive HeldIn (body : Body) (code : Code) (instruction : Instruction) : Local → Prop where
  | own {var : Local}
      (defines : Statement.lastWritten (body.statementsAt instruction.addr) = some var) :
      HeldIn body code instruction var
  | producer {call : Instruction} {var : Local} (follows : [call, instruction] <:+: code.instructions)
      (calls : (call.opcode.map Opcode.hasResult).getD false = true)
      (moves : instruction.opcode.map Opcode.family = some .moveResult)
      (defines : Statement.lastWritten (body.statementsAt call.addr) = some var) :
      HeldIn body code instruction var

/-- The local of an argument in the statements before the first instruction: the one its
identity defines, or the one a cast after that defines. -/
def localOfSource (source : IdentitySource) : List (Statement Local) → Option Local
  | [] => none
  | .identity dest own :: rest =>
      if own = source then
        match rest.head? with
        | some (.assign (.var var) _) => some var
        | _ => some dest
      else localOfSource source rest
  | _ :: rest => localOfSource source rest

def localOfArgument (body : Body) (source : IdentitySource) : Option Local :=
  localOfSource source <| body.statements.filterMap fun item =>
    if item.1 = none then some item.2 else none

/-- Whether the instruction at an address fills an array that nothing takes, so that no
statement reads its elements. -/
def Drops (body : Body) (instruction : Instruction) : Prop :=
  instruction.opcode.map Opcode.family = some .filledNewArray ∧
    body.usesAt instruction.addr = []

theorem filterMap_place {α : Type} (list : List (Option Addr × α)) (place : Option Addr) :
    (list.filterMap fun item => if item.1 = place then some item.2 else none) =
      (list.filter (·.1 == place)).map Prod.snd := by
  induction list with
  | nil => rfl
  | cons item rest ih =>
      by_cases here : item.1 = place
      · rw [List.filterMap_cons, List.filter_cons_of_pos (by simpa using here), if_pos here, ih,
          List.map_cons]
      · rw [List.filterMap_cons, List.filter_cons_of_neg (by simpa using here), if_neg here, ih]

end Body

namespace Split

variable {context : SplitContext} {after : Splitting}

theorem rendered_nil {output : List (Option Addr × Statement Local)}
    (rendered : Rendered context after [] output) : output = [] := by
  cases rendered
  rfl

theorem rendered_singleton {place : Option Addr} {statement : Statement Slot}
    {output : List (Option Addr × Statement Local)}
    (rendered : Rendered context after [(place, statement)] output) :
    ∃ first cast, Renders context after statement first cast ∧
      output.map Prod.snd = first :: cast.toList := by
  cases rendered with
  | @cons _ _ first cast _ rest one others =>
      obtain rfl := rendered_nil others
      exact ⟨first, cast, one, by simp [Function.comp_def]⟩

/-- What a rendered statement leaves defined is the local of the web of what it defines. -/
theorem Renders.lastWritten {statement : Statement Slot} {first : Statement Local}
    {cast : Option (Statement Local)} (renders : Renders context after statement first cast)
    {var : Local} (defines : Statement.lastWritten (first :: cast.toList) = some var) :
    ∃ slot, statement.written = some slot ∧
      after.webs.lookup (context.webs.label slot.value) = some var := by
  have puts := renders.puts
  generalize written : statement.written = slot at puts ⊢
  generalize isFirst : first.written = temporary at puts
  cases puts with
  | nothing => simp [Statement.lastWritten, isFirst] at defines
  | @directly slot held found =>
      rw [Statement.lastWritten, Option.toList_none, List.filterMap_cons_some isFirst] at defines
      exact ⟨slot, rfl, Option.some.inj defines ▸ found⟩
  | @throughCast slot held temporary value found =>
      rw [Statement.lastWritten, Option.toList_some, List.filterMap_cons_some isFirst] at defines
      exact ⟨slot, rfl, Option.some.inj defines ▸ found⟩

/-- What starts the statements of arguments is an identity. -/
theorem head_identities {final : LoweringState} {arguments : List Argument}
    {identities : List (Statement Slot)} {output : List (Option Addr × Statement Local)}
    (introduces : List.Forall₂ (Lift.Introduces final) arguments identities)
    (rendered : Rendered context after (identities.map (none, ·)) output)
    {statement : Statement Local} (isHead : (output.map Prod.snd).head? = some statement) :
    ∃ var source, statement = .identity var source := by
  cases introduces with
  | nil =>
      obtain rfl := rendered_nil rendered
      cases isHead
  | cons introduced _ =>
      obtain ⟨slot, rfl, -⟩ := introduced.identity
      cases rendered with
      | cons one _ =>
          obtain ⟨var, rfl⟩ := one.source _ _ rfl
          exact ⟨var, _, (Option.some.inj isHead).symm⟩

/-- The local of an argument is that of the web of its value. -/
theorem localOfSource_spec {final : LoweringState} {arguments : List Argument}
    {identities : List (Statement Slot)} {output : List (Option Addr × Statement Local)}
    (introduces : List.Forall₂ (Lift.Introduces final) arguments identities)
    (rendered : Rendered context after (identities.map (none, ·)) output)
    (distinct : arguments.Pairwise fun first second => first.source ≠ second.source)
    {argument : Argument} (member : argument ∈ arguments) :
    ∃ value var, final.values.definedAt? .param argument.reg = some value ∧
      after.webs.lookup (context.webs.label value) = some var ∧
      Body.localOfSource argument.source (output.map Prod.snd) = some var := by
  induction introduces generalizing output with
  | nil => cases member
  | @cons first identity arguments identities introduced others ih =>
      obtain ⟨slot, rfl, defined⟩ := introduced.identity
      obtain ⟨differs, distinctRest⟩ := List.pairwise_cons.mp distinct
      cases rendered with
      | @cons _ _ statement cast _ output one rest =>
          obtain ⟨var, rfl⟩ := one.source _ _ rfl
          have puts := one.puts
          rcases List.mem_cons.mp member with rfl | inRest
          · generalize written : Statement.written (Statement.identity slot argument.source) = value
              at puts
            cases puts with
            | @directly _ _ found =>
                obtain rfl := Option.some.inj written
                refine ⟨slot.value, var, defined, found, ?_⟩
                simp only [Option.toList_none, List.map_nil, List.singleton_append, List.map_cons,
                  Body.localOfSource, if_true]
                split
                · rename_i isHead
                  obtain ⟨_, _, impossible⟩ := head_identities others rest isHead
                  cases impossible
                · rfl
            | @throughCast _ held _ value found =>
                obtain rfl := Option.some.inj written
                exact ⟨slot.value, held, defined, found, by simp [Body.localOfSource]⟩
          · obtain ⟨value, held, isValue, found, isLocal⟩ := ih rest distinctRest inRest
            refine ⟨value, held, isValue, found, ?_⟩
            have skips : first.source ≠ argument.source := differs argument inRest
            cases cast with
            | none => simp [Body.localOfSource, skips, isLocal]
            | some cast =>
                generalize Statement.written (Statement.identity slot first.source) = written at puts
                generalize Statement.written (Statement.identity var first.source) = first' at puts
                cases puts with
                | throughCast _ => simp [Body.localOfSource, skips, isLocal]

end Split

end Dalvik
