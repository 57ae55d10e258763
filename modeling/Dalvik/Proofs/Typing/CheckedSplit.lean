import Dalvik.Proofs.Body.Operands
import Dalvik.Proofs.Typing.Checked
import Dalvik.Typing.Split

/-!
# Splitting with lookups that can fail

Splitting finds the webs and classes of values by their numbers.  Here it fails where there is no
web or class of a number.  It never does if statements mention only values that have both.
-/

namespace Dalvik

/-! ## What statements mention -/

section

variable {α : Type}

/-- What an operand refers to, the peer of a literal included. -/
def Operand.mentions : Operand α → List α
  | .var value | .literal _ _ value | .cast value _ _ _ => [value]
  | .constant _ => []

/-- What a statement refers to: its operands and what it defines. -/
def Statement.mentions (statement : Statement α) : List α :=
  statement.operands.flatMap Operand.mentions ++ statement.written.toList

end

theorem Solution.kindOf_of_class {solution : Solution} {value : Nat} {own : ValueClass}
    (found : solution.class? value = some own) : solution.kindOf value = own.kind := by
  rw [kindOf, found, Option.elim_some]

abbrev CheckedSplit (α : Type) := StateT Splitting Option α

namespace Split

variable (context : SplitContext)

/-- What has no lookups cannot fail. -/
def total {α : Type} (act : Split α) : CheckedSplit α :=
  fun state => some (act.run state)

def localOf? (value : Nat) : CheckedSplit Local := do
  let web ← context.webs.labels[value]?
  let state ← get
  match state.webs.lookup web with
  | some var => return var
  | none => do
      let own ← context.solution.class? value
      let var ← total (fresh own.kind)
      modify fun state => { state with webs := (web, var) :: state.webs }
      return var

def castMode? (source target : Kind) (value : Nat) : Option CastMode := do
  if source.bitCompatible target then return .reinterpret
  else
    let own ← context.solution.class? value
    return .coerce own.diagnostic

def useSlot? (slot : Slot) : CheckedSplit (Operand Local) := do
  let var ← localOf? context slot.value
  if slot.contract.contains var.kind then return .var var
  match slot.contract.preferred with
  | some target => do
      return .cast var var.kind target (← castMode? context var.kind target slot.value)
  | none => return .var var

def define? (slot : Slot) : CheckedSplit (Local × Option (Statement Local)) := do
  let var ← localOf? context slot.value
  if slot.contract.contains var.kind then return (var, none)
  match slot.contract.preferred with
  | some produced => do
      let temporary ← total (fresh produced)
      let mode ← castMode? context produced var.kind slot.value
      return (temporary, some (.assign (.var var) (.use (.cast temporary produced var.kind mode))))
  | none => return (var, none)

def operand? : Operand Slot → CheckedSplit (Operand Local)
  | .var slot => useSlot? context slot
  | .constant constant => return .constant constant
  | .literal bits _ peer => do
      let own ← context.solution.class? peer.value
      return .constant (.ofBits own.kind bits)
  | .cast slot source target mode => do
      return .cast (← localOf? context slot.value) source target mode

def optionalOperand? : Option (Operand Slot) → CheckedSplit (Option (Operand Local))
  | some value => return some (← operand? context value)
  | none => return none

def expression? : Expression Slot → CheckedSplit (Expression Local)
  | .use value => return .use (← operand? context value)
  | .binary op left right => return .binary op (← operand? context left) (← operand? context right)
  | .negate value => return .negate (← operand? context value)
  | .convert value target => return .convert (← operand? context value) target
  | .checkCast value type => return .checkCast (← operand? context value) type
  | .instanceOf value type => return .instanceOf (← operand? context value) type
  | .length array => return .length (← operand? context array)
  | .newInstance type => return .newInstance type
  | .newArray type size => return .newArray type (← operand? context size)
  | .newFilledArray type elements => return .newFilledArray type (← elements.mapM (operand? context))
  | .element array index => return .element (← operand? context array) (← operand? context index)
  | .instanceField object field => return .instanceField (← operand? context object) field
  | .staticField field => return .staticField field
  | .invoke kind method receiver arguments =>
      return .invoke kind method (← optionalOperand? context receiver)
        (← arguments.mapM (operand? context))

def destination? :
    Destination Slot → CheckedSplit (Destination Local × Option (Statement Local))
  | .var slot => do
      let (var, cast) ← define? context slot
      return (.var var, cast)
  | .element array index =>
      return (.element (← operand? context array) (← operand? context index), none)
  | .instanceField object field => return (.instanceField (← operand? context object) field, none)
  | .staticField field => return (.staticField field, none)

def statement? : Statement Slot → CheckedSplit (Statement Local × Option (Statement Local))
  | .nop => return (.nop, none)
  | .identity dest source => do
      let (var, cast) ← define? context dest
      return (.identity var source, cast)
  | .assign dest value => do
      let value ← expression? context value
      let (dest, cast) ← destination? context dest
      return (.assign dest value, cast)
  | .invoke call => return (.invoke (← expression? context call), none)
  | .branch op left right target =>
      return (.branch op (← operand? context left) (← operand? context right) target, none)
  | .goto target => return (.goto target, none)
  | .switch key cases default => return (.switch (← operand? context key) cases default, none)
  | .exit value => return (.exit (← optionalOperand? context value), none)
  | .throw value => return (.throw (← operand? context value), none)
  | .enterMonitor object => return (.enterMonitor (← operand? context object), none)
  | .exitMonitor object => return (.exitMonitor (← operand? context object), none)
  | .fillArray array width elements =>
      return (.fillArray (← operand? context array) width elements, none)

def statements? :
    List (Option Addr × Statement Slot) → CheckedSplit (List (Option Addr × Statement Local))
  | [] => return []
  | (addr, slots) :: rest => do
      let (first, cast) ← statement? context slots
      let others ← statements? rest
      return (addr, first) :: cast.toList.map (addr, ·) ++ others

/-! ## Nothing is missing -/

section Steps

variable {α β : Type}

/-- A step whose lookups do not fail. -/
def Checks (act : Split α) (act? : CheckedSplit α) : Prop :=
  ∀ before, act?.run before = some (act.run before)

namespace Checks

theorem pure (value : α) : Checks (pure value) (pure value) :=
  fun _ => rfl

theorem total (act : Split α) : Checks act (total act) :=
  fun _ => rfl

theorem bind {act : Split α} {act? : CheckedSplit α} {next : α → Split β} {next? : α → CheckedSplit β}
    (first : Checks act act?) (others : ∀ value, Checks (next value) (next? value)) :
    Checks (act >>= next) (act? >>= next?) := by
  intro before
  rw [StateT.run_bind, first before]
  exact others _ _

/-- A lookup that finds something. -/
theorem lookup {found : Option α} {value : α} (isFound : found = some value) {act : Split β}
    {next? : α → CheckedSplit β} (next : Checks act (next? value)) :
    Checks act ((liftM found : CheckedSplit α) >>= next?) := by
  subst isFound
  exact next

theorem mapM {act : α → Split β} {act? : α → CheckedSplit β} {list : List α}
    (each : ∀ item ∈ list, Checks (act item) (act? item)) : Checks (list.mapM act) (list.mapM act?) := by
  induction list with
  | nil => exact .pure []
  | cons item rest ih =>
      obtain ⟨first, others⟩ := List.forall_mem_cons.mp each
      rw [List.mapM_cons, List.mapM_cons]
      exact first.bind fun _ => (ih others).bind fun _ => .pure _

end Checks

end Steps

/-- There are the web and the class of a value. -/
structure Known (context : SplitContext) (value : Nat) : Prop where
  web : value < context.webs.labels.length
  solved : ∃ own, context.solution.class? value = some own

/-- There are the webs and the classes of all that some operands mention. -/
def AllKnown (context : SplitContext) (operands : List (Operand Slot)) : Prop :=
  ∀ operand ∈ operands, ∀ slot ∈ operand.mentions, Known context slot.value

variable {context}

theorem checks_localOf {value : Nat} (known : Known context value) :
    Checks (localOf context value) (localOf? context value) := by
  obtain ⟨own, isOwn⟩ := known.solved
  refine .lookup (Partition.getElem?_labels known.web) (.bind (fun _ => rfl) fun state => ?_)
  cases state.webs.lookup (context.webs.label value) with
  | some var => exact .pure var
  | none =>
      dsimp only
      rw [Solution.kindOf_of_class isOwn]
      refine .lookup isOwn (.bind (.total _) fun var => ?_)
      exact .bind (fun _ => rfl) fun _ => .pure var

theorem castMode?_eq_some {value : Nat} (known : Known context value) (source target : Kind) :
    castMode? context source target value = some (castMode context source target value) := by
  obtain ⟨own, isOwn⟩ := known.solved
  rw [castMode?, castMode, Solution.diagnosticOf, isOwn]
  split <;> rfl

theorem checks_useSlot {slot : Slot} (known : Known context slot.value) :
    Checks (useSlot context slot) (useSlot? context slot) := by
  refine (checks_localOf known).bind fun var => ?_
  split
  · exact .pure _
  · cases slot.contract.preferred with
    | some target => exact .lookup (castMode?_eq_some known _ _) (.pure _)
    | none => exact .pure _

theorem checks_define {slot : Slot} (known : Known context slot.value) :
    Checks (define context slot) (define? context slot) := by
  refine (checks_localOf known).bind fun var => ?_
  split
  · exact .pure _
  · cases slot.contract.preferred with
    | some produced =>
        exact (Checks.total _).bind fun _ => .lookup (castMode?_eq_some known _ _) (.pure _)
    | none => exact .pure _

/-! ### Operands -/

theorem checks_operand {operand : Operand Slot}
    (known : ∀ slot ∈ operand.mentions, Known context slot.value) :
    Checks (Split.operand context operand) (operand? context operand) := by
  cases operand with
  | var slot => exact checks_useSlot (known slot (List.mem_singleton_self _))
  | constant constant => exact .pure _
  | literal bits wide peer =>
      obtain ⟨own, isOwn⟩ := (known peer (List.mem_singleton_self _)).solved
      rw [Split.operand, Solution.kindOf_of_class isOwn]
      exact .lookup isOwn (.pure _)
  | cast slot source target mode =>
      exact (checks_localOf (known slot (List.mem_singleton_self _))).bind fun _ => .pure _

section Made

variable {β : Type}

/-- What is made of one operand. -/
theorem checks_one {operand : Operand Slot} (known : AllKnown context [operand])
    (make : Operand Local → β) : Checks (do return make (← Split.operand context operand))
      (do return make (← operand? context operand)) :=
  (checks_operand (known operand List.mem_cons_self)).bind fun _ => .pure _

/-- What is made of two operands. -/
theorem checks_two {left right : Operand Slot} (known : AllKnown context [left, right])
    (make : Operand Local → Operand Local → β) :
    Checks (do return make (← Split.operand context left) (← Split.operand context right))
      (do return make (← operand? context left) (← operand? context right)) := by
  obtain ⟨first, second⟩ := List.forall_mem_cons.mp known
  exact (checks_operand first).bind fun value => checks_one second (make value)

theorem checks_operands {list : List (Operand Slot)} (known : AllKnown context list) :
    Checks (operands context list) (list.mapM (operand? context)) :=
  .mapM fun operand listed => checks_operand (known operand listed)

theorem checks_optionalOperand {value : Option (Operand Slot)} (known : AllKnown context value.toList) :
    Checks (optionalOperand context value) (optionalOperand? context value) := by
  cases value with
  | none => exact .pure _
  | some operand => exact checks_one known some

end Made

/-! ### Statements -/

theorem checks_expression {value : Expression Slot} (known : AllKnown context value.operands) :
    Checks (expression context value) (expression? context value) := by
  cases value with
  | use _ | negate _ | convert _ _ | checkCast _ _ | instanceOf _ _ | length _ | newArray _ _
  | instanceField _ _ => exact checks_one known _
  | binary _ _ _ | element _ _ => exact checks_two known _
  | newInstance _ | staticField _ => exact .pure _
  | newFilledArray _ elements => exact (checks_operands known).bind fun _ => .pure _
  | invoke _ _ receiver arguments =>
      obtain ⟨isReceiver, others⟩ := List.forall_mem_append.mp known
      exact (checks_optionalOperand isReceiver).bind fun _ => (checks_operands others).bind fun _ => .pure _

theorem checks_destination {dest : Destination Slot} (known : AllKnown context dest.operands)
    (written : ∀ slot, dest.written = some slot → Known context slot.value) :
    Checks (destination context dest) (destination? context dest) := by
  cases dest with
  | var slot => exact (checks_define (written slot rfl)).bind fun _ => .pure _
  | element _ _ => exact checks_two known _
  | instanceField _ _ => exact checks_one known _
  | staticField _ => exact .pure _

theorem checks_statement {statement : Statement Slot}
    (known : ∀ slot ∈ statement.mentions, Known context slot.value) :
    Checks (Split.statement context statement) (statement? context statement) := by
  obtain ⟨isOperand, isWritten⟩ := List.forall_mem_append.mp known
  have operands : AllKnown context statement.operands := fun operand listed slot mentioned =>
    isOperand slot (List.mem_flatMap.mpr ⟨operand, listed, mentioned⟩)
  have written : ∀ slot, statement.written = some slot → Known context slot.value :=
    fun slot isSlot => isWritten slot (Option.mem_toList.mpr isSlot)
  cases statement with
  | nop | goto _ => exact .pure _
  | identity dest _ => exact (checks_define (written dest rfl)).bind fun _ => .pure _
  | assign dest value =>
      obtain ⟨values, dests⟩ := List.forall_mem_append.mp operands
      exact (checks_expression values).bind fun _ =>
        (checks_destination dests written).bind fun _ => .pure _
  | invoke call => exact (checks_expression operands).bind fun _ => .pure _
  | branch _ _ _ _ => exact checks_two operands _
  | switch _ _ _ | throw _ | enterMonitor _ | exitMonitor _ | fillArray _ _ _ =>
      exact checks_one operands _
  | exit value => exact (checks_optionalOperand operands).bind fun _ => .pure _

theorem checks_statements {list : List (Option Addr × Statement Slot)}
    (known : ∀ item ∈ list, ∀ slot ∈ item.2.mentions, Known context slot.value) :
    Checks (statements context list) (statements? context list) := by
  induction list with
  | nil => exact .pure _
  | cons item rest ih =>
      obtain ⟨first, others⟩ := List.forall_mem_cons.mp known
      exact (checks_statement first).bind fun _ => (ih others).bind fun _ => .pure _

end Split

def split? (list : List (Option Addr × Statement Slot)) (values : List ProvisionalValue)
    (merges : List (Nat × Nat)) (solution : Solution) :
    Option (List Local × List (Option Addr × Statement Local)) := do
  let webs ← (Partition.discrete values.length).unionAll? merges
  let (result, state) ← (Split.statements? ⟨solution, webs⟩ list).run {}
  return (state.declared, result)

/-- Nothing that splitting looks up is missing, if pairs and statements are about values that
there are and the numbers in the solution are in range. -/
theorem split?_eq_some {list : List (Option Addr × Statement Slot)} {values : List ProvisionalValue}
    {merges : List (Nat × Nat)} {solution : Solution} (inRange : solution.InRange values.length)
    (merged : ∀ pair ∈ merges, pair.1 < values.length ∧ pair.2 < values.length)
    (mentioned : ∀ item ∈ list, ∀ slot ∈ item.2.mentions, slot.value < values.length) :
    split? list values merges solution = some (split list values merges solution) := by
  have webs : (Partition.discrete values.length).unionAll? merges =
      some ((Partition.discrete values.length).unionAll merges) :=
    Partition.unionAll?_eq_some (by rw [Partition.length_discrete]; exact merged)
  have checks := @Split.checks_statements
    ⟨solution, (Partition.discrete values.length).unionAll merges⟩ list fun item listed slot isSlot =>
      have present := mentioned item listed slot isSlot
      ⟨by rwa [Partition.length_unionAll, Partition.length_discrete], inRange.exists_class present⟩
  simp only [split?, webs, Option.bind_eq_bind, Option.bind_some]
  rw [checks {}]
  rfl

end Dalvik
