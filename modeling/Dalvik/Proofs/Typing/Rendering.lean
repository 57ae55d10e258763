import Dalvik.Proofs.Body.Operands
import Dalvik.Proofs.Success
import Dalvik.Proofs.Typing.Split

/-!
# Rendering over locals

Splitting replaces operands by a function of the locals that values get: a slot becomes
the local of its value, cast where the slot does not allow its kind, and a literal takes
the kind of its peer.  All locals are those of webs but for the temporaries of casts
after definitions.
-/

namespace Dalvik

namespace Splitting

/-- Locals are only added, and webs that get a local get a new one. -/
structure Adds (before after : Splitting) : Prop where
  declared : before.declared ⊆ after.declared
  fresh : ∀ web var, after.webs.lookup web = some var → var ∈ before.declared →
    before.webs.lookup web = some var

theorem Adds.refl (splitting : Splitting) : splitting.Adds splitting :=
  ⟨fun _ member => member, fun _ _ found _ => found⟩

theorem Adds.trans {first second third : Splitting} (one : first.Adds second)
    (two : second.Adds third) : first.Adds third where
  declared _ member := two.declared (one.declared member)
  fresh web var found member := one.fresh web var (two.fresh web var found (one.declared member)) member

def IsTemporary (splitting : Splitting) (var : Local) : Prop :=
  var ∈ splitting.declared ∧ ∀ web, splitting.webs.lookup web ≠ some var

theorem IsTemporary.mono {before after : Splitting} {var : Local} (temporary : before.IsTemporary var)
    (adds : before.Adds after) : after.IsTemporary var :=
  ⟨adds.declared temporary.1, fun web found => temporary.2 web (adds.fresh web var found temporary.1)⟩

theorem IsTemporary.anti {before after : Splitting} {var : Local} (temporary : after.IsTemporary var)
    (extended : before.Extends after) (member : var ∈ before.declared) : before.IsTemporary var :=
  ⟨member, fun web found => temporary.2 web (extended web var found)⟩

/-- The local of a web has the kind of a value of the web. -/
def Kinded (context : SplitContext) (splitting : Splitting) : Prop :=
  ∀ web var, splitting.webs.lookup web = some var →
    ∃ value, context.webs.label value = web ∧ var.kind = context.solution.kindOf value

/-- What a stretch of splitting does to the locals; `made` are the temporaries it makes. -/
structure Advances (context : SplitContext) (made : List Local) (before after : Splitting) :
    Prop where
  valid : after.Valid
  extended : before.Extends after
  adds : before.Adds after
  kinded : before.Kinded context → after.Kinded context
  temporaries : ∀ var, after.IsTemporary var → before.IsTemporary var ∨ var ∈ made
  fresh : ∀ var ∈ made, var ∉ before.declared ∧ after.IsTemporary var

variable {context : SplitContext} {made more : List Local}

theorem Advances.refl {splitting : Splitting} (valid : splitting.Valid) :
    Advances context [] splitting splitting :=
  ⟨valid, .refl _, .refl _, id, fun _ temporary => .inl temporary, fun _ none => by cases none⟩

theorem Advances.trans {first second third : Splitting} (one : Advances context made first second)
    (two : Advances context more second third) : Advances context (made ++ more) first third where
  valid := two.valid
  extended := one.extended.trans two.extended
  adds := one.adds.trans two.adds
  kinded := two.kinded ∘ one.kinded
  temporaries var temporary := by
    rcases two.temporaries var temporary with inSecond | isNew
    · exact (one.temporaries var inSecond).imp_right (List.mem_append_left _)
    · exact .inr (List.mem_append_right _ isNew)
  fresh var member := by
    rcases List.mem_append.mp member with inMade | inMore
    · obtain ⟨isNew, temporary⟩ := one.fresh var inMade
      exact ⟨isNew, temporary.mono two.adds⟩
    · obtain ⟨isNew, temporary⟩ := two.fresh var inMore
      exact ⟨fun old => isNew (one.adds.declared old), temporary⟩

end Splitting

namespace Split

variable (context : SplitContext)

/-- A slot as an operand, when its value has a given local. -/
def shownAs (var : Local) (slot : Slot) : Operand Local :=
  if slot.contract.contains var.kind then .var var
  else
    match slot.contract.preferred with
    | some target => .cast var var.kind target (castMode context var.kind target slot.value)
    | none => .var var

/-- An operand over locals, when values have given locals. -/
def shown (names : Nat → Local) : Operand Slot → Operand Local
  | .var slot => shownAs context (names slot.value) slot
  | .constant constant => .constant constant
  | .literal bits _ peer => .constant (.ofBits (context.solution.kindOf peer.value) bits)
  | .cast slot source target mode => .cast (names slot.value) source target mode

/-- Values have given locals as far as their webs have locals. -/
def Follows (names : Nat → Local) (splitting : Splitting) : Prop :=
  ∀ value var, splitting.webs.lookup (context.webs.label value) = some var → names value = var

/-- The locals of values at a point of splitting; a value without one is given any. -/
def namesAt (splitting : Splitting) (value : Nat) : Local :=
  (splitting.webs.lookup (context.webs.label value)).getD ⟨.int, 0⟩

variable {context}

theorem follows_namesAt (splitting : Splitting) : Follows context (namesAt context splitting) splitting :=
  fun value var found => by rw [namesAt, found, Option.getD_some]

theorem Follows.anti {names : Nat → Local} {before after : Splitting}
    (follows : Follows context names after) (extended : before.Extends after) :
    Follows context names before :=
  fun value var found => follows value var (extended _ _ found)

/-- What a definition writes, and the cast after it: the local of its value, or a temporary
that is cast to this. -/
inductive DefinesAs (context : SplitContext) (names : Nat → Local) (after : Splitting) :
    Option Slot → Local → Option (Statement Local) → Prop where
  | nothing {var : Local} : DefinesAs context names after none var none
  | directly {slot : Slot}
      (allowed : slot.contract.contains (names slot.value).kind = true ∨
        slot.contract.preferred = none) :
      DefinesAs context names after (some slot) (names slot.value) none
  | throughCast {slot : Slot} {temporary : Local} {produced : Kind}
      (refused : slot.contract.contains (names slot.value).kind = false)
      (preferred : slot.contract.preferred = some produced) (kind : temporary.kind = produced)
      (isTemporary : after.IsTemporary temporary) :
      DefinesAs context names after (some slot) temporary
        (some (.assign (.var (names slot.value)) (.use (.cast temporary produced
          (names slot.value).kind
          (castMode context produced (names slot.value).kind slot.value)))))

theorem DefinesAs.mono {names : Nat → Local} {before after : Splitting} {slot : Option Slot}
    {var : Local} {cast : Option (Statement Local)}
    (defines : DefinesAs context names before slot var cast) (adds : before.Adds after) :
    DefinesAs context names after slot var cast := by
  cases defines with
  | nothing => exact .nothing
  | directly allowed => exact .directly allowed
  | throughCast refused preferred kind isTemporary =>
      exact .throughCast refused preferred kind (isTemporary.mono adds)

/-! ## Steps that make a function of the names -/

/-- A step that makes no temporary and whose result is a function of the locals that values
get. -/
def Yields {α : Type} (context : SplitContext) (act : Split α) (result : (Nat → Local) → α) : Prop :=
  ∀ before : Splitting, before.Valid → before.Advances context [] (act.run before).2 ∧
    ∀ names, Follows context names (act.run before).2 → (act.run before).1 = result names

theorem Yields.pure {α : Type} (value : α) : Yields context (pure value) fun _ => value :=
  fun _ valid => ⟨.refl valid, fun _ _ => rfl⟩

theorem Yields.bind {α β : Type} {act : Split α} {next : α → Split β} {first : (Nat → Local) → α}
    {second : α → (Nat → Local) → β} (yields : Yields context act first)
    (others : ∀ value, Yields context (next value) (second value)) :
    Yields context (act >>= next) fun names => second (first names) names := by
  intro before valid
  obtain ⟨one, isFirst⟩ := yields before valid
  obtain ⟨two, isSecond⟩ := others (act.run before).1 _ one.valid
  refine ⟨one.trans two, fun names follows => ?_⟩
  exact (isSecond names follows).trans
    (congrArg (fun value => second value names) (isFirst names (follows.anti two.extended)))

theorem yields_localOf (slot : Slot) :
    Yields context (localOf context slot.value) fun names => names slot.value := by
  intro before valid
  cases made : (localOf context slot.value).run before with
  | mk var after =>
      have named := localOf_spec context slot valid made
      refine ⟨?_, fun names follows => (follows slot.value var named.lookup).symm⟩
      cases known : before.webs.lookup (context.webs.label slot.value) with
      | some own =>
          have same : (localOf context slot.value).run before = (own, before) := by
            simp only [localOf, StateT.run_bind, StateT.run_get, pure_bind, known, StateT.run_pure]
            rfl
          obtain ⟨rfl, rfl⟩ := Prod.mk.inj (same.symm.trans made)
          exact .refl valid
      | none =>
          cases first : (fresh (context.solution.kindOf slot.value)).run before with
          | mk new middle =>
              obtain ⟨webs, isNew, -, -⟩ := fresh_spec _ valid first
              have declared : middle.declared = before.declared ++ [new] := by
                rw [fresh_run] at first
                obtain ⟨rfl, rfl⟩ := Prod.mk.inj first
                rfl
              have same : (localOf context slot.value).run before =
                  (new, { middle with
                    webs := (context.webs.label slot.value, new) :: middle.webs }) := by
                simp only [localOf, StateT.run_bind, StateT.run_get, pure_bind, known, first]
                rfl
              obtain ⟨rfl, rfl⟩ := Prod.mk.inj (same.symm.trans made)
              have kind : new.kind = context.solution.kindOf slot.value := by
                rw [fresh_run] at first
                exact congrArg Local.kind (Prod.mk.inj first).1.symm
              refine ⟨named.valid, named.extended, ⟨?_, fun web var isVar member => ?_⟩,
                fun kinded web var isVar => ?_, fun var temporary => ?_, fun _ none => by cases none⟩
              · rw [declared]
                exact List.subset_append_left _ _
              · rw [List.lookup_cons, webs] at isVar
                split at isVar
                · exact absurd (Option.some.inj isVar ▸ member) isNew
                · exact isVar
              · rw [List.lookup_cons, webs] at isVar
                split at isVar
                · rename_i isWeb
                  exact ⟨slot.value, (eq_of_beq isWeb).symm, Option.some.inj isVar ▸ kind⟩
                · exact kinded web var isVar
              · have member := temporary.1
                rw [declared] at member
                rcases List.mem_append.mp member with old | isLast
                · exact .inl (temporary.anti named.extended old)
                · obtain rfl := List.mem_singleton.mp isLast
                  exact absurd List.lookup_cons_self (temporary.2 _)

theorem useSlot_eq (slot : Slot) :
    useSlot context slot = do
      let var ← localOf context slot.value
      return shownAs context var slot := by
  rw [useSlot]
  refine bind_congr fun var => ?_
  by_cases allowed : slot.contract.contains var.kind = true
  · simp [shownAs, allowed]
  · cases preferred : slot.contract.preferred <;> simp [shownAs, allowed, preferred]

theorem yields_operand (value : Operand Slot) :
    Yields context (operand context value) fun names => shown context names value := by
  cases value with
  | var slot =>
      rw [operand, useSlot_eq]
      exact (yields_localOf slot).bind fun var => .pure _
  | constant _ | literal _ _ _ => exact .pure _
  | cast slot _ _ _ => exact (yields_localOf slot).bind fun var => .pure _

theorem yields_operands (list : List (Operand Slot)) :
    Yields context (operands context list) fun names => list.map (shown context names) := by
  induction list with
  | nil => exact .pure _
  | cons value rest ih =>
      rw [operands, List.mapM_cons]
      exact (yields_operand value).bind fun first => ih.bind fun others => .pure _

theorem yields_optionalOperand (value : Option (Operand Slot)) :
    Yields context (optionalOperand context value) fun names => value.map (shown context names) := by
  cases value with
  | none => exact .pure _
  | some value => exact (yields_operand value).bind fun first => .pure _

theorem yields_expression (value : Expression Slot) :
    Yields context (expression context value) fun names => value.mapOperands (shown context names) := by
  cases value with
  | use operand | negate operand | convert operand _ | checkCast operand _ | instanceOf operand _
  | length operand | newArray _ operand | instanceField operand _ =>
      exact (yields_operand operand).bind fun first => .pure _
  | newInstance _ | staticField _ => exact .pure _
  | binary _ left right | element left right =>
      exact (yields_operand left).bind fun first => (yields_operand right).bind fun second => .pure _
  | newFilledArray _ elements => exact (yields_operands elements).bind fun others => .pure _
  | invoke _ _ receiver arguments =>
      exact (yields_optionalOperand receiver).bind fun first =>
        (yields_operands arguments).bind fun others => .pure _

/-! ## Definitions and statements -/

theorem advances_fresh (kind : Kind) {before : Splitting} (valid : before.Valid) :
    before.Advances context [((fresh kind).run before).1] ((fresh kind).run before).2 := by
  obtain ⟨-, isNew, isDeclared, still⟩ := fresh_spec kind valid rfl
  refine ⟨still, fun _ _ found => found, ⟨List.subset_append_left _ _, fun _ _ found _ => found⟩, id,
    fun var temporary => ?_, fun var member => ?_⟩
  · exact (List.mem_append.mp temporary.1).imp_left fun old => ⟨old, temporary.2⟩
  · obtain rfl := List.mem_singleton.mp member
    exact ⟨isNew, isDeclared, fun web found => isNew (valid.declared web _ found)⟩

def castTemporary (cast : Option (Statement Local)) : List Local :=
  cast.elim [] Statement.uses

theorem define_shown (slot : Slot) {before after : Splitting} {var : Local}
    {cast : Option (Statement Local)} (valid : before.Valid)
    (made : (define context slot).run before = ((var, cast), after)) :
    before.Advances context (castTemporary cast) after ∧ ∀ names, Follows context names after →
      DefinesAs context names after (some slot) var cast := by
  obtain ⟨advances, isHeld⟩ := @yields_localOf context slot before valid
  cases first : (localOf context slot.value).run before with
  | mk held middle =>
      rw [first] at advances isHeld
      rw [define, StateT.run_bind, first] at made
      dsimp only [bind] at made
      have direct : slot.contract.contains held.kind = true ∨ slot.contract.preferred = none →
          ((held, none), middle) = ((var, cast), after) →
          before.Advances context (castTemporary cast) after ∧ ∀ names, Follows context names after →
            DefinesAs context names after (some slot) var cast := by
        intro allowed same
        obtain ⟨results, rfl⟩ := Prod.mk.inj same
        obtain ⟨rfl, rfl⟩ := Prod.mk.inj results
        refine ⟨advances, fun names follows => ?_⟩
        obtain rfl := isHeld names follows
        exact .directly allowed
      split at made
      · rename_i allowed
        exact direct (.inl allowed) made
      · rename_i refused
        split at made
        · rename_i produced preferred
          obtain ⟨results, rfl⟩ := Prod.mk.inj made
          obtain ⟨rfl, rfl⟩ := Prod.mk.inj results
          have more := @advances_fresh context produced _ advances.valid
          refine ⟨advances.trans more, fun names follows => ?_⟩
          obtain rfl := isHeld names (follows.anti more.extended)
          exact .throughCast (Bool.eq_false_iff.mpr refused) preferred rfl
            (more.fresh _ (List.mem_singleton_self _)).2
        · rename_i none
          exact direct (.inr none) made

/-- What is not written as a slot has no cast after it. -/
theorem Yields.withoutCast {α : Type} {act : Split (α × Option (Statement Local))}
    {shown : (Nat → Local) → Local → α} {written : Option Slot} (value : (Nat → Local) → α)
    (yields : Yields context act fun names => (value names, none)) (nothing : written = none)
    (isValue : ∀ names, value names = shown names ⟨.int, 0⟩)
    {before after : Splitting} {result : α} {cast : Option (Statement Local)}
    (valid : before.Valid) (made : act.run before = ((result, cast), after)) :
    before.Advances context (castTemporary cast) after ∧ ∀ names, Follows context names after →
      ∃ var, result = shown names var ∧ DefinesAs context names after written var cast := by
  obtain ⟨advances, isResult⟩ := yields before valid
  rw [made] at advances isResult
  obtain rfl : cast = none := congrArg Prod.snd (isResult _ (follows_namesAt after))
  refine ⟨advances, fun names follows => ⟨⟨.int, 0⟩, ?_, nothing ▸ .nothing⟩⟩
  exact (congrArg Prod.fst (isResult names follows)).trans (isValue names)

theorem destination_shown (dest : Destination Slot) {before after : Splitting}
    {result : Destination Local} {cast : Option (Statement Local)} (valid : before.Valid)
    (made : (destination context dest).run before = ((result, cast), after)) :
    before.Advances context (castTemporary cast) after ∧ ∀ names, Follows context names after →
      ∃ var, result = dest.mapOperands (shown context names) var ∧
        DefinesAs context names after dest.written var cast := by
  cases dest with
  | var slot =>
      cases first : (define context slot).run before with
      | mk defined last =>
          obtain ⟨var, own⟩ := defined
          have same : (destination context (.var slot)).run before = ((.var var, own), last) := by
            rw [destination, StateT.run_bind, first]
            rfl
          obtain ⟨results, rfl⟩ := Prod.mk.inj (same.symm.trans made)
          obtain ⟨rfl, rfl⟩ := Prod.mk.inj results
          obtain ⟨advances, defines⟩ := define_shown slot valid first
          exact ⟨advances, fun names follows => ⟨var, rfl, defines names follows⟩⟩
  | element array index =>
      refine Yields.withoutCast
        (fun names => .element (shown context names array) (shown context names index)) ?_ rfl
        (fun _ => rfl) valid made
      exact (yields_operand array).bind fun first => (yields_operand index).bind fun second => .pure _
  | instanceField object field =>
      refine Yields.withoutCast
        (fun names => .instanceField (shown context names object) field) ?_ rfl
        (fun _ => rfl) valid made
      exact (yields_operand object).bind fun first => .pure _
  | staticField field =>
      exact Yields.withoutCast (fun _ => .staticField field) (.pure _) rfl (fun _ => rfl) valid
        made

/-- A statement over locals and the cast after it are what the names make of a statement over
slots. -/
structure Shows (context : SplitContext) (names : Nat → Local) (after : Splitting)
    (statement : Statement Slot) (first : Statement Local) (cast : Option (Statement Local)) :
    Prop where
  exists_defined : ∃ var, first = statement.mapOperands (shown context names) var ∧
    DefinesAs context names after statement.written var cast

theorem Shows.mono {names : Nat → Local} {before after : Splitting} {statement : Statement Slot}
    {first : Statement Local} {cast : Option (Statement Local)}
    (shows : Shows context names before statement first cast) (adds : before.Adds after) :
    Shows context names after statement first cast := by
  obtain ⟨var, same, defines⟩ := shows.exists_defined
  exact ⟨var, same, defines.mono adds⟩

/-- A statement that writes no slot has no cast after it. -/
theorem Yields.shows {statement : Statement Slot} (value : (Nat → Local) → Statement Local)
    (yields : Yields context (Split.statement context statement) fun names => (value names, none))
    (nothing : statement.written = none)
    (isValue : ∀ names, value names = statement.mapOperands (shown context names) ⟨.int, 0⟩)
    {before after : Splitting} {first : Statement Local} {cast : Option (Statement Local)}
    (valid : before.Valid)
    (made : (Split.statement context statement).run before = ((first, cast), after)) :
    before.Advances context (castTemporary cast) after ∧ ∀ names, Follows context names after →
      Shows context names after statement first cast := by
  obtain ⟨advances, defines⟩ := @Yields.withoutCast context _ _
    (fun names var => statement.mapOperands (shown context names) var) _ value yields nothing isValue
    _ _ _ _ valid made
  exact ⟨advances, fun names follows => ⟨defines names follows⟩⟩

theorem identity_shown (dest : Slot) (source : IdentitySource) {before after : Splitting}
    {first : Statement Local} {cast : Option (Statement Local)} (valid : before.Valid)
    (made : (Split.statement context (.identity dest source)).run before = ((first, cast), after)) :
    before.Advances context (castTemporary cast) after ∧ ∀ names, Follows context names after →
      Shows context names after (.identity dest source) first cast := by
  cases defined : (define context dest).run before with
  | mk result last =>
      obtain ⟨var, own⟩ := result
      have same : (Split.statement context (.identity dest source)).run before =
          ((.identity var source, own), last) := by
        rw [Split.statement, StateT.run_bind, defined]
        rfl
      obtain ⟨results, rfl⟩ := Prod.mk.inj (same.symm.trans made)
      obtain ⟨rfl, rfl⟩ := Prod.mk.inj results
      obtain ⟨advances, defines⟩ := define_shown dest valid defined
      exact ⟨advances, fun names follows => ⟨var, rfl, defines names follows⟩⟩

/-- The value is read before the destination is written. -/
theorem assign_shown (dest : Destination Slot) (value : Expression Slot)
    {before after : Splitting} {first : Statement Local} {cast : Option (Statement Local)}
    (valid : before.Valid)
    (made : (Split.statement context (.assign dest value)).run before = ((first, cast), after)) :
    before.Advances context (castTemporary cast) after ∧ ∀ names, Follows context names after →
      Shows context names after (.assign dest value) first cast := by
  obtain ⟨one, isValue⟩ := @yields_expression context value before valid
  cases reads : (expression context value).run before with
  | mk shownValue middle =>
      rw [reads] at one isValue
      cases defined : (destination context dest).run middle with
      | mk result last =>
          obtain ⟨shownDest, own⟩ := result
          have same : (Split.statement context (.assign dest value)).run before =
              ((.assign shownDest shownValue, own), last) := by
            rw [Split.statement, StateT.run_bind, reads]
            exact congrArg (fun ran : (Destination Local × Option (Statement Local)) × Splitting =>
              ((Statement.assign ran.1.1 shownValue, ran.1.2), ran.2)) defined
          obtain ⟨results, rfl⟩ := Prod.mk.inj (same.symm.trans made)
          obtain ⟨rfl, rfl⟩ := Prod.mk.inj results
          obtain ⟨two, defines⟩ := destination_shown dest one.valid defined
          refine ⟨one.trans two, fun names follows => ?_⟩
          obtain ⟨var, rfl, isDefined⟩ := defines names follows
          obtain rfl := isValue names (follows.anti two.extended)
          exact ⟨var, rfl, isDefined⟩

theorem statement_shown (statement : Statement Slot) {before after : Splitting}
    {first : Statement Local} {cast : Option (Statement Local)} (valid : before.Valid)
    (made : (Split.statement context statement).run before = ((first, cast), after)) :
    before.Advances context (castTemporary cast) after ∧ ∀ names, Follows context names after →
      Shows context names after statement first cast := by
  cases statement with
  | nop => exact Yields.shows (fun _ => .nop) (.pure _) rfl (fun _ => rfl) valid made
  | goto target =>
      exact Yields.shows (fun _ => .goto target) (.pure _) rfl (fun _ => rfl) valid made
  | identity dest source => exact identity_shown dest source valid made
  | assign dest value => exact assign_shown dest value valid made
  | invoke call =>
      refine Yields.shows (fun names => .invoke (call.mapOperands (shown context names))) ?_ rfl
        (fun _ => rfl) valid made
      exact (yields_expression call).bind fun _ => .pure _
  | branch op left right target =>
      refine Yields.shows (fun names => .branch op (shown context names left)
        (shown context names right) target) ?_ rfl (fun _ => rfl) valid made
      exact (yields_operand left).bind fun _ => (yields_operand right).bind fun _ => .pure _
  | switch key cases default =>
      refine Yields.shows (fun names => .switch (shown context names key) cases default) ?_ rfl
        (fun _ => rfl) valid made
      exact (yields_operand key).bind fun _ => .pure _
  | exit value =>
      refine Yields.shows (fun names => .exit (value.map (shown context names))) ?_ rfl
        (fun _ => rfl) valid made
      exact (yields_optionalOperand value).bind fun _ => .pure _
  | throw value =>
      refine Yields.shows (fun names => .throw (shown context names value)) ?_ rfl
        (fun _ => rfl) valid made
      exact (yields_operand value).bind fun _ => .pure _
  | enterMonitor value =>
      refine Yields.shows (fun names => .enterMonitor (shown context names value)) ?_ rfl
        (fun _ => rfl) valid made
      exact (yields_operand value).bind fun _ => .pure _
  | exitMonitor value =>
      refine Yields.shows (fun names => .exitMonitor (shown context names value)) ?_ rfl
        (fun _ => rfl) valid made
      exact (yields_operand value).bind fun _ => .pure _
  | fillArray array width elements =>
      refine Yields.shows (fun names => .fillArray (shown context names array) width elements) ?_
        rfl (fun _ => rfl) valid made
      exact (yields_operand array).bind fun _ => .pure _

/-- Each statement is replaced by what the names make of it and the cast after that, in
place. -/
inductive AllShown (context : SplitContext) (names : Nat → Local) (after : Splitting) :
    List (Option Addr × Statement Slot) → List (Option Addr × Statement Local) → Prop where
  | nil : AllShown context names after [] []
  | cons {place : Option Addr} {statement : Statement Slot} {first : Statement Local}
      {cast : Option (Statement Local)} {list : List (Option Addr × Statement Slot)}
      {output : List (Option Addr × Statement Local)}
      (one : Shows context names after statement first cast)
      (rest : AllShown context names after list output) :
      AllShown context names after ((place, statement) :: list)
        ((place, first) :: cast.toList.map (place, ·) ++ output)

/-- What holds of all statements over locals and of the casts after them holds of the output. -/
theorem AllShown.forall_iff {names : Nat → Local} {after : Splitting}
    {list : List (Option Addr × Statement Slot)} {output : List (Option Addr × Statement Local)}
    (all : AllShown context names after list output) {property : Statement Local → Prop}
    {original : Statement Slot → Prop}
    (each : ∀ statement first cast, (∃ place, (place, statement) ∈ list) →
      Shows context names after statement first cast →
        (original statement ↔ property first ∧ ∀ moved ∈ cast, property moved)) :
    (∀ item ∈ list, original item.2) ↔ ∀ item ∈ output, property item.2 := by
  induction all with
  | nil => simp
  | @cons place statement first cast list output one rest ih =>
      have here := each statement first cast ⟨place, List.mem_cons_self⟩ one
      have others := ih fun other shown moved ⟨place, member⟩ =>
        each other shown moved ⟨place, List.mem_cons_of_mem _ member⟩
      simp only [List.cons_append, List.forall_mem_cons, List.forall_mem_append, List.forall_mem_map,
        Option.mem_toList]
      rw [here, others, and_assoc]
      rfl

/-- What is shown of two lists, one after the other. -/
theorem AllShown.append {names : Nat → Local} {after : Splitting}
    {list others : List (Option Addr × Statement Slot)} {output : List (Option Addr × Statement Local)}
    (all : AllShown context names after (list ++ others) output) :
    ∃ first second, output = first ++ second ∧ AllShown context names after list first ∧
      AllShown context names after others second := by
  induction list generalizing output with
  | nil => exact ⟨[], output, rfl, .nil, all⟩
  | cons item rest ih =>
      cases all with
      | cons one more =>
          obtain ⟨first, second, rfl, isFirst, isSecond⟩ := ih more
          exact ⟨_, second, (List.append_assoc _ _ _).symm, .cons one isFirst, isSecond⟩

/-- One statement is shown as one, with the cast after it. -/
theorem AllShown.of_singleton {names : Nat → Local} {after : Splitting}
    {place : Option Addr} {statement : Statement Slot} {output : List (Option Addr × Statement Local)}
    (all : AllShown context names after [(place, statement)] output) :
    ∃ first cast, Shows context names after statement first cast ∧
      output = (first :: cast.toList).map (place, ·) := by
  cases all with
  | @cons _ _ first cast _ _ one rest =>
      cases rest
      exact ⟨first, cast, one, List.append_nil _⟩

/-- What is shown of lists that are put one after the other. -/
theorem AllShown.flatMap {α : Type} {names : Nat → Local} {after : Splitting}
    {part : α → List (Option Addr × Statement Slot)} {list : List α}
    {output : List (Option Addr × Statement Local)}
    (all : AllShown context names after (list.flatMap part) output) :
    ∃ outputs, output = outputs.flatten ∧
      List.Forall₂ (fun item => AllShown context names after (part item)) list outputs := by
  induction list generalizing output with
  | nil =>
      cases all
      exact ⟨[], rfl, .nil⟩
  | cons item rest ih =>
      rw [List.flatMap_cons] at all
      obtain ⟨first, second, rfl, isFirst, isSecond⟩ := all.append
      obtain ⟨outputs, rfl, each⟩ := ih isSecond
      exact ⟨first :: outputs, rfl, .cons isFirst each⟩

/-- What is shown has the places of the statements, and is there if they are. -/
theorem AllShown.places {names : Nat → Local} {after : Splitting}
    {list : List (Option Addr × Statement Slot)} {output : List (Option Addr × Statement Local)}
    (all : AllShown context names after list output) :
    (∀ item ∈ output, ∃ source ∈ list, source.1 = item.1) ∧ (output = [] ↔ list = []) := by
  induction all with
  | nil => simp
  | @cons place statement first cast list output one rest ih =>
      refine ⟨fun item member => ?_, by simp⟩
      rw [List.cons_append, List.mem_cons, List.mem_append] at member
      rcases member with rfl | isCast | inRest
      · exact ⟨_, List.mem_cons_self, rfl⟩
      · obtain ⟨moved, -, rfl⟩ := List.mem_map.mp isCast
        exact ⟨_, List.mem_cons_self, rfl⟩
      · obtain ⟨source, member, same⟩ := ih.1 item inRest
        exact ⟨source, List.mem_cons_of_mem _ member, same⟩

/-- Each statement is shown at its place. -/
theorem AllShown.exists_first {names : Nat → Local} {after : Splitting}
    {list : List (Option Addr × Statement Slot)} {output : List (Option Addr × Statement Local)}
    (all : AllShown context names after list output) {item : Option Addr × Statement Slot}
    (member : item ∈ list) :
    ∃ first cast, Shows context names after item.2 first cast ∧ (item.1, first) ∈ output := by
  induction all with
  | nil => cases member
  | @cons place statement first cast list output one rest ih =>
      rcases List.mem_cons.mp member with rfl | inRest
      · exact ⟨first, cast, one, List.mem_cons_self⟩
      · obtain ⟨other, moved, shows, listed⟩ := ih inRest
        exact ⟨other, moved, shows, List.mem_append_right _ listed⟩

theorem targets_mapOperands {change : Operand Slot → Operand Local} {var : Local}
    (statement : Statement Slot) : (statement.mapOperands change var).targets = statement.targets := by
  cases statement <;> rfl

/-- What is shown jumps where the statements do. -/
theorem AllShown.targets {names : Nat → Local} {after : Splitting}
    {list : List (Option Addr × Statement Slot)} {output : List (Option Addr × Statement Local)}
    (all : AllShown context names after list output) :
    output.flatMap (·.2.targets) = list.flatMap (·.2.targets) := by
  induction all with
  | nil => rfl
  | @cons place statement first cast list output one rest ih =>
      obtain ⟨var, rfl, defines⟩ := one.exists_defined
      have noJump : (cast.toList.map (place, ·)).flatMap (·.2.targets) = [] := by
        generalize statement.written = slot at defines
        cases defines <;> rfl
      rw [List.flatMap_append, List.flatMap_cons, noJump, List.append_nil, ih, List.flatMap_cons,
        targets_mapOperands]

/-- Each slot of a statement has the local of its web. -/
theorem Rendered.exists_local {after : Splitting} {list : List (Option Addr × Statement Slot)}
    {output : List (Option Addr × Statement Local)} (rendered : Rendered context after list output)
    {item : Option Addr × Statement Slot} (member : item ∈ list) {slot : Slot}
    (isSlot : slot ∈ item.2.slots) :
    ∃ var, after.webs.lookup (context.webs.label slot.value) = some var := by
  induction rendered with
  | nil => cases member
  | @cons place statement first cast list output one rest ih =>
      rcases List.mem_cons.mp member with rfl | inRest
      · rcases Statement.mem_slots.mp isSlot with isUse | written
        · obtain ⟨var, -, named⟩ := exists_of_forall₂ one.uses isUse
          exact ⟨var, named⟩
        · have puts := one.puts
          rw [written] at puts
          generalize first.written = var at puts
          cases puts with
          | directly found | throughCast found => exact ⟨_, found⟩
      · exact ih inRest

/-- A temporary that is read after a statement is written by it, and cast there to the local
of the slot that is defined. -/
theorem Shows.exists_cast {names : Nat → Local} {after : Splitting} {statement : Statement Slot}
    {first : Statement Local} {cast : Option (Statement Local)}
    (shows : Shows context names after statement first cast) {var : Local}
    (member : var ∈ castTemporary cast) :
    after.IsTemporary var ∧ first.written = some var ∧
      ∃ slot mode, statement.written = some slot ∧ cast = some (.assign (.var (names slot.value))
        (.use (.cast var var.kind (names slot.value).kind mode))) := by
  obtain ⟨defined, rfl, defines⟩ := shows.exists_defined
  rw [Statement.written_mapOperands]
  generalize statement.written = slot at defines
  cases defines with
  | nothing | directly _ => cases member
  | throughCast _ _ kind isTemporary =>
      subst kind
      obtain rfl := List.mem_singleton.mp member
      exact ⟨isTemporary, rfl, _, _, rfl, rfl⟩

/-- What is made of the first statement comes before what is made of the others. -/
theorem statements_run_cons {place : Option Addr} {statement : Statement Slot}
    {rest : List (Option Addr × Statement Slot)} {before middle : Splitting}
    {first : Statement Local} {cast : Option (Statement Local)}
    (made : (Split.statement context statement).run before = ((first, cast), middle)) :
    (statements context ((place, statement) :: rest)).run before =
      ((place, first) :: cast.toList.map (place, ·) ++ ((statements context rest).run middle).1,
        ((statements context rest).run middle).2) := by
  rw [statements, StateT.run_bind, made]
  rfl

/-- The temporaries that splitting makes are read by casts. -/
theorem statements_shown (list : List (Option Addr × Statement Slot)) {before : Splitting}
    (valid : before.Valid) :
    (∃ made, before.Advances context made ((statements context list).run before).2 ∧
      ∀ var ∈ made, ∃ item ∈ ((statements context list).run before).1, ∃ source target mode,
        .cast var source target mode ∈ item.2.operands) ∧
    ∀ names, Follows context names ((statements context list).run before).2 →
      AllShown context names ((statements context list).run before).2 list
        ((statements context list).run before).1 := by
  induction list generalizing before with
  | nil => exact ⟨⟨[], .refl valid, fun _ none => by cases none⟩, fun _ _ => .nil⟩
  | cons item rest ih =>
      obtain ⟨place, statement⟩ := item
      cases made : (Split.statement context statement).run before with
      | mk result middle =>
          obtain ⟨first, cast⟩ := result
          obtain ⟨one, shows⟩ := statement_shown statement valid made
          obtain ⟨⟨more, two, moreRead⟩, others⟩ := ih one.valid
          rw [statements_run_cons made]
          refine ⟨⟨_, one.trans two, fun var member => ?_⟩, fun names follows => ?_⟩
          · rcases List.mem_append.mp member with isOwn | inMore
            · obtain ⟨-, -, slot, mode, -, rfl⟩ :=
                (shows _ (follows_namesAt middle)).exists_cast isOwn
              exact ⟨_, List.mem_append_left _ (List.mem_cons_of_mem _ List.mem_cons_self), _, _, _,
                List.mem_cons_self⟩
            · obtain ⟨item, listed, read⟩ := moreRead var inMore
              exact ⟨item, List.mem_append_right _ listed, read⟩
          · exact .cons ((shows names (follows.anti two.extended)).mono two.adds) (others names follows)

end Split

end Dalvik
