import Dalvik.Proofs.Body.Operands
import Dalvik.Typing.Split
import Mathlib.Data.List.Nodup

/-!
# Webs and their locals

Splitting gives each web one local of its own: what a statement reads becomes
the local of its web, and what it defines is in the local of its web once the
cast after it, if there is one, is done.
-/

namespace Dalvik

namespace Local

/-- The locals of each kind are numbered from zero, in order. -/
def Numbered (locals : List Local) : Prop :=
  ∀ kind, (locals.filter (·.kind == kind)).map index = List.range (locals.countP (·.kind == kind))

theorem numbered_nil : Numbered [] :=
  fun _ => rfl

variable {locals : List Local}

theorem Numbered.index_lt (numbered : Numbered locals) {var : Local} (member : var ∈ locals) :
    var.index < locals.countP (·.kind == var.kind) := by
  have own : var ∈ locals.filter (·.kind == var.kind) :=
    List.mem_filter.mpr ⟨member, beq_self_eq_true _⟩
  have listed := List.mem_map_of_mem (f := index) own
  rwa [numbered, List.mem_range] at listed

/-- The next local of a kind. -/
theorem Numbered.append_next (numbered : Numbered locals) (kind : Kind) :
    Numbered (locals ++ [⟨kind, locals.countP (·.kind == kind)⟩]) := by
  intro other
  rw [List.filter_append, List.map_append, numbered, List.countP_append]
  by_cases same : kind = other
  · subst same
    simp [List.range_succ]
  · simp [same]

theorem Numbered.nodup (numbered : Numbered locals) : locals.Nodup := by
  refine List.nodup_iff_count_le_one.mpr fun var => ?_
  have own : ((locals.filter (·.kind == var.kind)).map index).Nodup := by
    rw [numbered]
    exact List.nodup_range
  rw [← List.count_filter (p := fun other : Local => other.kind == var.kind)
    (beq_self_eq_true var.kind)]
  exact List.nodup_iff_count_le_one.mp own.of_map var

end Local

namespace Splitting

/-- What holds of the locals at every point: those of webs are declared, the locals of each
kind are numbered from zero, and webs have different locals. -/
structure Valid (splitting : Splitting) : Prop where
  declared : ∀ web var, splitting.webs.lookup web = some var → var ∈ splitting.declared
  numbered : Local.Numbered splitting.declared
  distinct : ∀ first second var, splitting.webs.lookup first = some var →
    splitting.webs.lookup second = some var → first = second

def Extends (before after : Splitting) : Prop :=
  ∀ web var, before.webs.lookup web = some var → after.webs.lookup web = some var

theorem Extends.refl (splitting : Splitting) : splitting.Extends splitting :=
  fun _ _ found => found

theorem Extends.trans {first second third : Splitting} (one : first.Extends second)
    (two : second.Extends third) : first.Extends third :=
  fun web var found => two web var (one web var found)

theorem valid_empty : Valid {} where
  declared _ _ found := by cases found
  numbered := Local.numbered_nil
  distinct _ _ _ found := by cases found

end Splitting

namespace Split

variable {context : SplitContext}

def Names (context : SplitContext) (splitting : Splitting) (slots : List Slot)
    (locals : List Local) : Prop :=
  List.Forall₂ (fun slot var =>
    splitting.webs.lookup (context.webs.label slot.value) = some var) slots locals

theorem Names.mono {before after : Splitting} {slots : List Slot} {locals : List Local}
    (names : Names context before slots locals) (extended : before.Extends after) :
    Names context after slots locals :=
  names.imp fun _ _ found => extended _ _ found

/-- A stretch of splitting that gives locals to no webs but those of some slots. -/
structure Serves (context : SplitContext) (before after : Splitting) (slots : List Slot) : Prop where
  valid : after.Valid
  extended : before.Extends after
  only : ∀ web var, after.webs.lookup web = some var →
    before.webs.lookup web = some var ∨ ∃ slot ∈ slots, context.webs.label slot.value = web

theorem Serves.nil {before : Splitting} (valid : before.Valid) : Serves context before before [] :=
  ⟨valid, .refl before, fun _ _ found => .inl found⟩

theorem Serves.append {first second third : Splitting} {slots others : List Slot}
    (one : Serves context first second slots) (two : Serves context second third others) :
    Serves context first third (slots ++ others) where
  valid := two.valid
  extended := one.extended.trans two.extended
  only web var found := by
    rcases two.only web var found with inSecond | ⟨slot, member, isWeb⟩
    · rcases one.only web var inSecond with inFirst | ⟨slot, member, isWeb⟩
      · exact .inl inFirst
      · exact .inr ⟨slot, List.mem_append_left _ member, isWeb⟩
    · exact .inr ⟨slot, List.mem_append_right _ member, isWeb⟩

/-- A stretch of splitting that turns slots into the locals of their webs. -/
structure Renames (context : SplitContext) (before after : Splitting) (slots : List Slot)
    (locals : List Local) : Prop extends Serves context before after slots where
  names : Names context after slots locals

theorem Renames.nil {before : Splitting} (valid : before.Valid) :
    Renames context before before [] [] :=
  ⟨.nil valid, .nil⟩

theorem Renames.append {first second third : Splitting} {slots others : List Slot}
    {locals more : List Local} (one : Renames context first second slots locals)
    (two : Renames context second third others more) :
    Renames context first third (slots ++ others) (locals ++ more) :=
  ⟨one.toServes.append two.toServes, List.rel_append (one.names.mono two.extended) two.names⟩

theorem Renames.lookup {before after : Splitting} {slot : Slot} {var : Local}
    (renames : Renames context before after [slot] [var]) :
    after.webs.lookup (context.webs.label slot.value) = some var :=
  (List.forall₂_cons.mp renames.names).1

/-- A definition is in the local of its web: what is written is this local, or a
temporary that a cast after it moves there. -/
inductive Puts (context : SplitContext) (after : Splitting) :
    Option Slot → Option Local → Option (Statement Local) → Prop where
  | nothing : Puts context after none none none
  | directly {slot : Slot} {held : Local}
      (found : after.webs.lookup (context.webs.label slot.value) = some held) :
      Puts context after (some slot) (some held) none
  | throughCast {slot : Slot} {held temporary : Local} {value : Expression Local}
      (found : after.webs.lookup (context.webs.label slot.value) = some held) :
      Puts context after (some slot) (some temporary) (some (.assign (.var held) value))

theorem Puts.mono {before after : Splitting} {slot : Option Slot} {var : Option Local}
    {cast : Option (Statement Local)} (puts : Puts context before slot var cast)
    (extended : before.Extends after) : Puts context after slot var cast := by
  cases puts with
  | nothing => exact .nothing
  | directly found => exact .directly (extended _ _ found)
  | throughCast found => exact .throughCast (extended _ _ found)

/-- A statement over locals, with the cast after it, says of the locals of webs what
the statement over slots says of their values. -/
structure Renders (context : SplitContext) (after : Splitting) (statement : Statement Slot)
    (first : Statement Local) (cast : Option (Statement Local)) : Prop where
  uses : Names context after statement.uses first.uses
  puts : Puts context after statement.written first.written cast
  source : ∀ dest source, statement = .identity dest source → ∃ var, first = .identity var source

theorem Renders.mono {before after : Splitting} {statement : Statement Slot}
    {first : Statement Local} {cast : Option (Statement Local)}
    (renders : Renders context before statement first cast) (extended : before.Extends after) :
    Renders context after statement first cast :=
  ⟨renders.uses.mono extended, renders.puts.mono extended, renders.source⟩

/-- A statement that only reads. -/
theorem Renders.ofNames {after : Splitting} {statement : Statement Slot} {first : Statement Local}
    (uses : Names context after statement.uses first.uses) (reads : statement.written = none)
    (readsStill : first.written = none) : Renders context after statement first none where
  uses := uses
  puts := by
    rw [reads, readsStill]
    exact .nothing
  source := by
    rintro dest source rfl
    cases reads

/-- Each statement is replaced by one over locals and the cast after it, in place. -/
inductive Rendered (context : SplitContext) (after : Splitting) :
    List (Option Addr × Statement Slot) → List (Option Addr × Statement Local) → Prop where
  | nil : Rendered context after [] []
  | cons {place : Option Addr} {statement : Statement Slot} {first : Statement Local}
      {cast : Option (Statement Local)} {list : List (Option Addr × Statement Slot)}
      {output : List (Option Addr × Statement Local)}
      (one : Renders context after statement first cast) (rest : Rendered context after list output) :
      Rendered context after ((place, statement) :: list)
        ((place, first) :: cast.toList.map (place, ·) ++ output)

/-- The statements at one place are those made from the statements at this place. -/
theorem Rendered.at {after : Splitting} {list : List (Option Addr × Statement Slot)}
    {output : List (Option Addr × Statement Local)} (rendered : Rendered context after list output)
    (place : Option Addr) :
    Rendered context after (list.filter (·.1 == place)) (output.filter (·.1 == place)) := by
  induction rendered with
  | nil => exact .nil
  | @cons own statement first cast list output one rest ih =>
      have together : ∀ item ∈ (own, first) :: cast.toList.map (own, ·), item.1 = own := by
        simp
      by_cases here : own = place
      · subst here
        have inputs : ((own, statement) :: list).filter (·.1 == own) =
            (own, statement) :: list.filter (·.1 == own) :=
          List.filter_cons_of_pos (beq_self_eq_true own)
        have outputs : ((own, first) :: cast.toList.map (own, ·)).filter (·.1 == own) =
            (own, first) :: cast.toList.map (own, ·) :=
          List.filter_eq_self.mpr fun item member => by simp [together item member]
        rw [inputs, List.filter_append, outputs]
        exact .cons one ih
      · have inputs : ((own, statement) :: list).filter (·.1 == place) =
            list.filter (·.1 == place) :=
          List.filter_cons_of_neg (by simpa using here)
        have outputs : ((own, first) :: cast.toList.map (own, ·)).filter (·.1 == place) = [] :=
          List.filter_eq_nil_iff.mpr fun item member => by
            rw [together item member]
            simpa using here
        rw [inputs, List.filter_append, outputs]
        exact ih

/-! ## Splitting step by step -/

theorem fresh_run (kind : Kind) (before : Splitting) :
    (fresh kind).run before = (⟨kind, before.declared.countP (·.kind == kind)⟩,
      { before with declared := before.declared ++ [⟨kind, before.declared.countP (·.kind == kind)⟩] }) :=
  rfl

/-- A new local is declared, and was not before. -/
theorem fresh_spec (kind : Kind) {before after : Splitting} {var : Local} (valid : before.Valid)
    (made : (fresh kind).run before = (var, after)) :
    after.webs = before.webs ∧ var ∉ before.declared ∧ var ∈ after.declared ∧ after.Valid := by
  rw [fresh_run] at made
  obtain ⟨rfl, rfl⟩ := Prod.mk.inj made
  refine ⟨rfl, fun member => ?_, List.mem_append_right _ (List.mem_singleton_self _), ?_⟩
  · exact Nat.lt_irrefl _ (valid.numbered.index_lt member)
  · constructor
    · exact fun web var found => List.mem_append_left _ (valid.declared web var found)
    · exact valid.numbered.append_next kind
    · exact valid.distinct

variable (context)

/-- The value of a slot gets the local of its web. -/
theorem localOf_spec (slot : Slot) {before after : Splitting} {var : Local} (valid : before.Valid)
    (made : (localOf context slot.value).run before = (var, after)) :
    Renames context before after [slot] [var] := by
  cases known : before.webs.lookup (context.webs.label slot.value) with
  | some found =>
      have same : (localOf context slot.value).run before = (found, before) := by
        simp only [localOf, StateT.run_bind, StateT.run_get, pure_bind, known, StateT.run_pure]
        rfl
      obtain ⟨rfl, rfl⟩ := Prod.mk.inj (same.symm.trans made)
      exact ⟨⟨valid, .refl before, fun _ _ inWebs => .inl inWebs⟩, .cons known .nil⟩
  | none =>
      cases first : (fresh (context.solution.kindOf slot.value)).run before with
      | mk new middle =>
          obtain ⟨webs, isNew, declared, still⟩ := fresh_spec _ valid first
          have same : (localOf context slot.value).run before =
              (new, { middle with webs := (context.webs.label slot.value, new) :: middle.webs }) := by
            simp only [localOf, StateT.run_bind, StateT.run_get, pure_bind, known, first]
            rfl
          obtain ⟨rfl, rfl⟩ := Prod.mk.inj (same.symm.trans made)
          have other : ∀ web found, middle.webs.lookup web = some found → found ≠ new := by
            rintro web found inWebs rfl
            exact isNew (valid.declared web found (webs ▸ inWebs))
          refine ⟨⟨⟨?_, still.numbered, ?_⟩, ?_, ?_⟩, .cons List.lookup_cons_self .nil⟩
          · intro web found inWebs
            rw [List.lookup_cons] at inWebs
            split at inWebs
            · exact Option.some.inj inWebs ▸ declared
            · exact still.declared web found inWebs
          · intro one two found inOne inTwo
            rw [List.lookup_cons] at inOne inTwo
            split at inOne <;> split at inTwo
            · rename_i _ isOne _ isTwo
              exact (eq_of_beq isOne).trans (eq_of_beq isTwo).symm
            · exact absurd (Option.some.inj inOne).symm (other two found inTwo)
            · exact absurd (Option.some.inj inTwo).symm (other one found inOne)
            · exact still.distinct one two found inOne inTwo
          · intro web found inWebs
            rw [webs, List.lookup_cons]
            split
            · rename_i isWeb
              rw [eq_of_beq isWeb, known] at inWebs
              cases inWebs
            · exact inWebs
          · intro web found inWebs
            rw [webs, List.lookup_cons] at inWebs
            split at inWebs
            · rename_i isWeb
              exact .inr ⟨slot, List.mem_singleton_self _, (eq_of_beq isWeb).symm⟩
            · exact .inl inWebs

theorem useSlot_spec (slot : Slot) {before : Splitting} (valid : before.Valid) :
    Renames context before ((useSlot context slot).run before).2 [slot]
      ((useSlot context slot).run before).1.uses := by
  cases first : (localOf context slot.value).run before with
  | mk var after =>
      have named := localOf_spec context slot valid first
      rw [useSlot, StateT.run_bind, first]
      dsimp only [bind]
      split
      · exact named
      · split
        · exact named
        · exact named

theorem operand_spec (operand : Operand Slot) {before : Splitting} (valid : before.Valid) :
    Renames context before ((Split.operand context operand).run before).2 operand.uses
      ((Split.operand context operand).run before).1.uses := by
  cases operand with
  | var slot => exact useSlot_spec context slot valid
  | constant constant => exact .nil valid
  | literal bits wide peer => exact .nil valid
  | cast slot source target mode => exact localOf_spec context slot valid rfl

theorem operands_spec (list : List (Operand Slot)) {before : Splitting} (valid : before.Valid) :
    Renames context before ((operands context list).run before).2 (list.flatMap Operand.uses)
      (((operands context list).run before).1.flatMap Operand.uses) := by
  induction list generalizing before with
  | nil => exact .nil valid
  | cons operand rest ih =>
      have first := operand_spec context operand valid
      rw [operands, List.mapM_cons]
      exact first.append (ih first.valid)

theorem optionalOperand_spec (operand : Option (Operand Slot)) {before : Splitting}
    (valid : before.Valid) :
    Renames context before ((optionalOperand context operand).run before).2
      (operand.elim [] Operand.uses)
      (((optionalOperand context operand).run before).1.elim [] Operand.uses) := by
  cases operand with
  | none => exact .nil valid
  | some operand => exact operand_spec context operand valid

theorem expression_spec (value : Expression Slot) {before : Splitting} (valid : before.Valid) :
    Renames context before ((expression context value).run before).2 value.uses
      ((expression context value).run before).1.uses := by
  cases value with
  | use operand | negate operand | convert operand _ | checkCast operand _ | instanceOf operand _
  | length operand | newArray _ operand | instanceField operand _ =>
      exact operand_spec context operand valid
  | newInstance _ | staticField _ => exact .nil valid
  | binary _ left right | element left right =>
      have first := operand_spec context left valid
      exact first.append (operand_spec context right first.valid)
  | newFilledArray _ elements => exact operands_spec context elements valid
  | invoke _ _ receiver arguments =>
      have first := optionalOperand_spec context receiver valid
      exact first.append (operands_spec context arguments first.valid)

theorem define_spec (slot : Slot) {before after : Splitting} {var : Local}
    {cast : Option (Statement Local)} (valid : before.Valid)
    (made : (define context slot).run before = ((var, cast), after)) :
    Serves context before after [slot] ∧ Puts context after (some slot) (some var) cast := by
  cases first : (localOf context slot.value).run before with
  | mk held middle =>
      have named := localOf_spec context slot valid first
      rw [define, StateT.run_bind, first] at made
      dsimp only [bind] at made
      split at made
      · obtain ⟨same, rfl⟩ := Prod.mk.inj made
        obtain ⟨rfl, rfl⟩ := Prod.mk.inj same
        exact ⟨named.toServes, .directly named.lookup⟩
      · split at made
        · rename_i produced _
          obtain ⟨webs, -, -, validAfter⟩ := fresh_spec produced named.valid rfl
          obtain ⟨same, rfl⟩ := Prod.mk.inj made
          obtain ⟨rfl, rfl⟩ := Prod.mk.inj same
          have kept : middle.Extends ((fresh produced).run middle).2 :=
            fun _ _ inWebs => webs ▸ inWebs
          exact ⟨⟨validAfter, named.extended.trans kept, named.only⟩,
            .throughCast (kept _ _ named.lookup)⟩
        · obtain ⟨same, rfl⟩ := Prod.mk.inj made
          obtain ⟨rfl, rfl⟩ := Prod.mk.inj same
          exact ⟨named.toServes, .directly named.lookup⟩

theorem destination_spec (dest : Destination Slot) {before : Splitting} (valid : before.Valid) :
    Serves context before ((destination context dest).run before).2
        (dest.uses ++ dest.written.toList) ∧
      Names context ((destination context dest).run before).2 dest.uses
        ((destination context dest).run before).1.1.uses ∧
      Puts context ((destination context dest).run before).2 dest.written
        ((destination context dest).run before).1.1.written
        ((destination context dest).run before).1.2 := by
  cases dest with
  | var slot =>
      obtain ⟨serves, puts⟩ := define_spec context slot valid rfl
      exact ⟨serves, .nil, puts⟩
  | element array index =>
      have first := operand_spec context array valid
      have both := first.append (operand_spec context index first.valid)
      exact ⟨both.toServes.append (.nil both.valid), both.names, .nothing⟩
  | instanceField object _ =>
      have first := operand_spec context object valid
      exact ⟨first.toServes.append (.nil first.valid), first.names, .nothing⟩
  | staticField _ => exact ⟨.nil valid, .nil, .nothing⟩

theorem statement_spec (statement : Statement Slot) {before : Splitting} (valid : before.Valid) :
    Serves context before ((Split.statement context statement).run before).2 statement.slots ∧
      Renders context ((Split.statement context statement).run before).2 statement
        ((Split.statement context statement).run before).1.1
        ((Split.statement context statement).run before).1.2 := by
  have only : ∀ {slots : List Slot} {after : Splitting} {first : Statement Local},
      Renames context before after slots first.uses → statement.uses = slots →
      statement.written = none → first.written = none →
      Serves context before after statement.slots ∧ Renders context after statement first none := by
    rintro slots after first named rfl reads readsStill
    refine ⟨?_, .ofNames named.names reads readsStill⟩
    rw [Statement.slots, reads]
    exact named.toServes.append (.nil named.valid)
  cases statement with
  | nop | goto _ => exact only (.nil valid) rfl rfl rfl
  | identity dest source =>
      obtain ⟨serves, puts⟩ := define_spec context dest valid rfl
      refine ⟨serves, .nil, puts, ?_⟩
      rintro dest source same
      cases same
      exact ⟨_, rfl⟩
  | assign dest value =>
      have first := expression_spec context value valid
      obtain ⟨second, named, puts⟩ := destination_spec context dest first.valid
      refine ⟨?_, List.rel_append (first.names.mono second.extended) named, puts,
        fun _ _ same => by cases same⟩
      have both := first.toServes.append second
      rwa [← List.append_assoc] at both
  | invoke call => exact only (expression_spec context call valid) rfl rfl rfl
  | branch _ left right _ =>
      have first := operand_spec context left valid
      exact only (first.append (operand_spec context right first.valid)) rfl rfl rfl
  | switch operand _ _ | throw operand | enterMonitor operand | exitMonitor operand
  | fillArray operand _ _ => exact only (operand_spec context operand valid) rfl rfl rfl
  | exit value => exact only (optionalOperand_spec context value valid) rfl rfl rfl

theorem statements_spec (list : List (Option Addr × Statement Slot)) {before : Splitting}
    (valid : before.Valid) :
    Serves context before ((statements context list).run before).2 (list.flatMap (·.2.slots)) ∧
      Rendered context ((statements context list).run before).2 list
        ((statements context list).run before).1 := by
  induction list generalizing before with
  | nil => exact ⟨.nil valid, .nil⟩
  | cons item rest ih =>
      obtain ⟨place, statement⟩ := item
      obtain ⟨first, renders⟩ := statement_spec context statement valid
      obtain ⟨second, others⟩ := ih first.valid
      exact ⟨first.append second, .cons (renders.mono second.extended) others⟩

end Split

end Dalvik
