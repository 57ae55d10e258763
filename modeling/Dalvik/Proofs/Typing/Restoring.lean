import Dalvik.Proofs.Typing.Rendering

/-!
# From locals back to webs

Splitting renames and wraps, and does nothing else.  Without the casts after definitions,
and with the web of each local in its place, the statements over locals are the statements
over slots, in order and at their places.  A temporary is the local that one definition
writes and the cast right after it moves, and occurs nowhere else.
-/

namespace Dalvik

namespace Splitting

/-- The web that a local is the local of; a temporary has none. -/
def webOf (splitting : Splitting) (var : Local) : Option Nat :=
  (splitting.webs.map Prod.fst).find? fun web => splitting.webs.lookup web == some var

variable {splitting : Splitting} {var : Local}

theorem webOf_eq_some_iff (valid : splitting.Valid) {web : Nat} :
    splitting.webOf var = some web ↔ splitting.webs.lookup web = some var := by
  have found_of_webOf : ∀ {other}, splitting.webOf var = some other →
      splitting.webs.lookup other = some var :=
    fun isWeb => eq_of_beq
      (List.find?_some (p := fun web => splitting.webs.lookup web == some var) isWeb)
  constructor
  · exact found_of_webOf
  · intro found
    have listed : web ∈ splitting.webs.map Prod.fst := by
      obtain ⟨before, after, same, -⟩ := List.lookup_eq_some_iff.mp found
      rw [same]
      simp
    cases isWeb : splitting.webOf var with
    | none =>
        have missed := List.find?_eq_none.mp isWeb web listed
        rw [found] at missed
        exact absurd (beq_self_eq_true _) missed
    | some other =>
        rw [valid.distinct web other var found (found_of_webOf isWeb)]

theorem webOf_injective (valid : splitting.Valid) {other : Local} {web : Nat}
    (isWeb : splitting.webOf var = some web) (isOther : splitting.webOf other = some web) :
    var = other := by
  rw [webOf_eq_some_iff valid] at isWeb isOther
  exact Option.some.inj (isWeb.symm.trans isOther)

theorem isTemporary_iff (valid : splitting.Valid) :
    splitting.IsTemporary var ↔ var ∈ splitting.declared ∧ splitting.webOf var = none := by
  refine and_congr_right fun _ => ?_
  rw [Option.eq_none_iff_forall_ne_some]
  exact forall_congr' fun web => not_congr (webOf_eq_some_iff valid).symm

end Splitting

/-! ## Statements over webs -/

def Operand.overWebs (context : SplitContext) : Operand Slot → Operand (Option Nat)
  | .var slot | .cast slot _ _ _ => .var (some (context.webs.label slot.value))
  | .constant value => .constant value
  | .literal bits _ peer => .constant (.ofBits (context.solution.kindOf peer.value) bits)

def Statement.overWebs (context : SplitContext) (statement : Statement Slot) :
    Statement (Option Nat) :=
  statement.mapOperands (Operand.overWebs context)
    (statement.written.map fun slot => context.webs.label slot.value)

/-- An operand with the web of its local, and not cast. -/
def Operand.unwrapped (webOf : Local → Option Nat) : Operand Local → Operand (Option Nat)
  | .var held | .cast held _ _ _ => .var (webOf held)
  | .constant value => .constant value
  | .literal bits wide peer => .literal bits wide (webOf peer)

/-- The temporary that a statement casts, and the local that it puts the temporary in. -/
def Statement.moved? (webOf : Local → Option Nat) : Statement Local → Option (Local × Local)
  | .assign (.var held) (.use (.cast temporary _ _ _)) =>
      if webOf temporary = none then some (temporary, held) else none
  | _ => none

namespace Split

variable {context : SplitContext}

/-- The web of a local that is written before the given statements: a temporary has the web
of the local that the first of them puts it in. -/
def writtenWeb (webOf : Local → Option Nat) (var : Local)
    (next : List (Option Addr × Statement Local)) : Option Nat :=
  match webOf var, next.head?.bind (·.2.moved? webOf) with
  | some web, _ => some web
  | none, some (temporary, held) => if temporary = var then webOf held else none
  | none, none => none

/-- The statements without those that move temporaries, and over the webs of locals. -/
def restore (webOf : Local → Option Nat) :
    List (Option Addr × Statement Local) → List (Option Addr × Statement (Option Nat))
  | [] => []
  | (place, statement) :: rest =>
      match statement.moved? webOf with
      | some _ => restore webOf rest
      | none =>
          let written := statement.written.bind fun var => writtenWeb webOf var rest
          (place, statement.mapOperands (Operand.unwrapped webOf) written) :: restore webOf rest

/-- A temporary is written by one statement, put into another local by the cast right after
it, and occurs nowhere else. -/
inductive MovedOnce (temporary : Local) : List (Option Addr × Statement Local) → Prop where
  | intro {earlier later : List (Option Addr × Statement Local)} {place : Option Addr}
      {first : Statement Local} {held : Local} {source target : Kind} {mode : CastMode}
      (written : first.written = some temporary) (unread : temporary ∉ first.uses)
      (apart : held ≠ temporary) (nowhere : ∀ item ∈ earlier ++ later, temporary ∉ item.2.slots) :
      MovedOnce temporary (earlier ++ (place, first) ::
        (place, .assign (.var held) (.use (.cast temporary source target mode))) :: later)

/-- Statements over locals are statements over slots, renamed and wrapped: over webs they are
the same, one for one and in place; a web has one local; a temporary is moved once; and the
locals are those that occur, each once and numbered by its kind. -/
structure Restores (context : SplitContext) (list : List (Option Addr × Statement Slot))
    (locals : List Local) (output : List (Option Addr × Statement Local))
    (webOf : Local → Option Nat) : Prop where
  restored : restore webOf output = list.map fun item => (item.1, item.2.overWebs context)
  distinct : ∀ first second web, webOf first = some web → webOf second = some web → first = second
  moved : ∀ var ∈ locals, webOf var = none → MovedOnce var output
  nodup : locals.Nodup
  occurs : ∀ var, var ∈ locals ↔ ∃ item ∈ output, var ∈ item.2.slots
  numbered : Local.Numbered locals

theorem MovedOnce.prepend {temporary : Local} {output : List (Option Addr × Statement Local)}
    (moved : MovedOnce temporary output) {front : List (Option Addr × Statement Local)}
    (nowhere : ∀ item ∈ front, temporary ∉ item.2.slots) : MovedOnce temporary (front ++ output) := by
  cases moved with
  | @intro earlier later _ _ _ _ _ _ written unread apart inOutput =>
      rw [← List.append_assoc]
      refine .intro written unread apart fun item member => ?_
      rw [List.append_assoc] at member
      exact (List.mem_append.mp member).elim (nowhere item) (inOutput item)

theorem MovedOnce.occurs {temporary : Local} {output : List (Option Addr × Statement Local)}
    (moved : MovedOnce temporary output) : ∃ item ∈ output, temporary ∈ item.2.slots := by
  cases moved with
  | intro written _ _ _ =>
      exact ⟨_, List.mem_append_right _ List.mem_cons_self, Statement.mem_slots.mpr (.inr written)⟩

/-! ## One statement -/

/-- The slots of a statement have the locals that are their names. -/
def Named (context : SplitContext) (names : Nat → Local) (splitting : Splitting)
    (statement : Statement Slot) : Prop :=
  ∀ slot ∈ statement.slots,
    splitting.webs.lookup (context.webs.label slot.value) = some (names slot.value)

theorem uses_shown (names : Nat → Local) (operand : Operand Slot) :
    (shown context names operand).uses = operand.uses.map fun slot => names slot.value := by
  cases operand with
  | var slot =>
      rw [shown, shownAs]
      split
      · rfl
      · split <;> rfl
  | constant _ | literal _ _ _ | cast _ _ _ _ => rfl

section

variable {names : Nat → Local} {after : Splitting} {statement : Statement Slot}
  {first : Statement Local} {cast : Option (Statement Local)}

/-- What is shown of a statement reads the locals of the slots that this reads. -/
theorem Shows.uses (shows : Shows context names after statement first cast) :
    first.uses = statement.uses.map fun slot => names slot.value := by
  obtain ⟨var, rfl, -⟩ := shows.exists_defined
  rw [Statement.uses_eq_flatMap, Statement.operands_mapOperands, Statement.uses_eq_flatMap,
    List.flatMap_map, List.map_flatMap]
  exact List.flatMap_congr fun operand _ => uses_shown names operand

/-- What is shown of a statement writes what the definition of its slot writes. -/
theorem Shows.exists_written (shows : Shows context names after statement first cast) :
    ∃ var, first.written = statement.written.map (fun _ => var) ∧
      DefinesAs context names after statement.written var cast := by
  obtain ⟨var, rfl, defines⟩ := shows.exists_defined
  exact ⟨var, Statement.written_mapOperands _ var statement, defines⟩

/-- A temporary is not read by what is shown of a statement. -/
theorem Shows.unread (shows : Shows context names after statement first cast)
    (named : Named context names after statement) {var : Local}
    (temporary : after.IsTemporary var) : var ∉ first.uses := by
  rw [shows.uses]
  intro member
  obtain ⟨slot, isUse, rfl⟩ := List.mem_map.mp member
  exact temporary.2 _ (named slot (Statement.mem_slots.mpr (.inl isUse)))

/-- A definition and the cast after it have the local of the slot, and the temporary. -/
theorem DefinesAs.mem_cases {slot : Option Slot} {defined var : Local}
    (defines : DefinesAs context names after slot defined cast)
    (occurs : slot.map (fun _ => defined) = some var ∨ ∃ made ∈ cast.toList, var ∈ made.slots) :
    (∃ own, slot = some own ∧ names own.value = var) ∨ var ∈ castTemporary cast := by
  cases defines with
  | nothing => simp at occurs
  | @directly own _ =>
      rcases occurs with written | ⟨_, none, -⟩
      · exact .inl ⟨own, rfl, Option.some.inj written⟩
      · cases none
  | @throughCast own _ _ _ _ _ _ =>
      rcases occurs with written | ⟨made, isCast, isSlot⟩
      · obtain rfl := Option.some.inj written
        exact .inr (List.mem_singleton_self _)
      · obtain rfl := List.mem_singleton.mp isCast
        rcases Statement.mem_slots.mp isSlot with isUse | written
        · exact .inr isUse
        · exact .inl ⟨own, rfl, Option.some.inj written⟩

/-- What is made of a statement has the locals of its slots, and the temporary that is cast. -/
theorem Shows.mem_slots_cases (shows : Shows context names after statement first cast)
    {made : Statement Local} (isMade : made ∈ first :: cast.toList) {var : Local}
    (isSlot : var ∈ made.slots) :
    (∃ slot ∈ statement.slots, names slot.value = var) ∨ var ∈ castTemporary cast := by
  obtain ⟨defined, written, defines⟩ := shows.exists_written
  have ofDefinition : (∃ own, statement.written = some own ∧ names own.value = var) →
      ∃ slot ∈ statement.slots, names slot.value = var :=
    fun ⟨own, isOwn, same⟩ => ⟨own, Statement.mem_slots.mpr (.inr isOwn), same⟩
  rcases List.mem_cons.mp isMade with rfl | isCast
  · rcases Statement.mem_slots.mp isSlot with isUse | isWritten
    · rw [shows.uses] at isUse
      obtain ⟨slot, slotUse, same⟩ := List.mem_map.mp isUse
      exact .inl ⟨slot, Statement.mem_slots.mpr (.inl slotUse), same⟩
    · exact (defines.mem_cases (.inl (written.symm.trans isWritten))).imp_left ofDefinition
  · exact (defines.mem_cases (.inr ⟨made, isCast, isSlot⟩)).imp_left ofDefinition

/-- What is made of a statement has the locals of all its slots. -/
theorem Shows.exists_slots (shows : Shows context names after statement first cast) {slot : Slot}
    (isSlot : slot ∈ statement.slots) :
    ∃ made ∈ first :: cast.toList, names slot.value ∈ made.slots := by
  obtain ⟨defined, written, defines⟩ := shows.exists_written
  rcases Statement.mem_slots.mp isSlot with isUse | slotWritten
  · refine ⟨first, List.mem_cons_self, Statement.mem_slots.mpr (.inl ?_)⟩
    rw [shows.uses]
    exact List.mem_map_of_mem isUse
  · rw [slotWritten] at defines written
    cases defines with
    | directly _ => exact ⟨first, List.mem_cons_self, Statement.mem_slots.mpr (.inr written)⟩
    | throughCast _ _ _ _ =>
        exact ⟨_, List.mem_cons_of_mem _ List.mem_cons_self, Statement.mem_slots.mpr (.inr rfl)⟩

/-- What is made of a statement has no temporary that was there before. -/
theorem Shows.apart (shows : Shows context names after statement first cast)
    (named : Named context names after statement) {before : Splitting}
    (advances : before.Advances context (castTemporary cast) after) {var : Local}
    (temporary : before.IsTemporary var) {made : Statement Local}
    (isMade : made ∈ first :: cast.toList) : var ∉ made.slots := by
  intro isSlot
  rcases shows.mem_slots_cases isMade isSlot with ⟨slot, listed, rfl⟩ | isCast
  · exact (temporary.mono advances.adds).2 _ (named slot listed)
  · exact (advances.fresh var isCast).1 temporary.1

variable (valid : after.Valid) (named : Named context names after statement)
include valid named

theorem Named.webOf_eq {slot : Slot} (member : slot ∈ statement.slots) :
    after.webOf (names slot.value) = some (context.webs.label slot.value) :=
  (Splitting.webOf_eq_some_iff valid).mpr (named slot member)

/-- What is shown of a statement moves no temporary: the cast after it does. -/
theorem Shows.moved?_eq_none (shows : Shows context names after statement first cast) :
    first.moved? after.webOf = none := by
  have reads := shows.uses
  unfold Statement.moved?
  split
  · rename_i held temporary _ _ _
    have isUse : temporary ∈ statement.uses.map fun slot => names slot.value :=
      reads ▸ List.mem_cons_self
    obtain ⟨slot, member, rfl⟩ := List.mem_map.mp isUse
    rw [named.webOf_eq valid (Statement.mem_slots.mpr (.inl member))]
    rfl
  · rfl

theorem unwrapped_shown {operand : Operand Slot} (member : operand ∈ statement.operands) :
    (shown context names operand).unwrapped after.webOf = operand.overWebs context := by
  have webOf_eq : ∀ slot ∈ operand.uses,
      after.webOf (names slot.value) = some (context.webs.label slot.value) := by
    intro slot isUse
    refine named.webOf_eq valid (Statement.mem_slots.mpr (.inl ?_))
    rw [Statement.uses_eq_flatMap]
    exact List.mem_flatMap.mpr ⟨operand, member, isUse⟩
  cases operand with
  | var slot =>
      have own := congrArg Operand.var (webOf_eq slot (List.mem_singleton_self _))
      rw [shown, shownAs]
      split
      · exact own
      · split <;> exact own
  | constant _ | literal _ _ _ => rfl
  | cast slot _ _ _ => exact congrArg Operand.var (webOf_eq slot (List.mem_singleton_self _))

theorem Shows.declared (shows : Shows context names after statement first cast)
    {made : Statement Local} (isMade : made ∈ first :: cast.toList) {var : Local}
    (isSlot : var ∈ made.slots) : var ∈ after.declared := by
  rcases shows.mem_slots_cases isMade isSlot with ⟨slot, listed, rfl⟩ | isTemporary
  · exact valid.declared _ _ (named slot listed)
  · exact (shows.exists_cast isTemporary).1.1

/-- What is written is of the web of the slot that is defined. -/
theorem Shows.written_bind (shows : Shows context names after statement first cast)
    (place : Option Addr) (rest : List (Option Addr × Statement Local)) :
    first.written.bind (writtenWeb after.webOf · (cast.toList.map (place, ·) ++ rest)) =
      statement.written.map fun slot => context.webs.label slot.value := by
  obtain ⟨var, written, defines⟩ := shows.exists_written
  rw [written]
  cases isWritten : statement.written with
  | none => rfl
  | some slot =>
      rw [isWritten] at defines
      have own := named.webOf_eq valid (Statement.mem_slots.mpr (.inr isWritten))
      cases defines with
      | directly _ => simp [writtenWeb, own]
      | throughCast _ _ _ isTemporary =>
          have noWeb := ((Splitting.isTemporary_iff valid).mp isTemporary).2
          simp [writtenWeb, Statement.moved?, noWeb, own]

theorem Shows.restore_cons (shows : Shows context names after statement first cast)
    (place : Option Addr) (rest : List (Option Addr × Statement Local)) :
    restore after.webOf ((place, first) :: cast.toList.map (place, ·) ++ rest) =
      (place, statement.overWebs context) :: restore after.webOf rest := by
  have written := shows.written_bind valid named place rest
  have castRestored : restore after.webOf (cast.toList.map (place, ·) ++ rest) =
      restore after.webOf rest := by
    obtain ⟨var, -, defines⟩ := shows.exists_written
    generalize statement.written = slot at defines
    cases defines with
    | nothing | directly _ => rfl
    | throughCast _ _ _ isTemporary =>
        have noWeb := ((Splitting.isTemporary_iff valid).mp isTemporary).2
        simp [restore, Statement.moved?, noWeb]
  rw [List.cons_append, restore, shows.moved?_eq_none valid named]
  dsimp only
  rw [written, castRestored]
  obtain ⟨var, rfl, -⟩ := shows.exists_defined
  rw [Statement.mapOperands_mapOperands, Statement.overWebs]
  congr 2
  exact Statement.mapOperands_congr (fun operand member => unwrapped_shown valid named member)
    fun _ _ => rfl

end

/-! ## All statements -/

variable {names : Nat → Local} {after : Splitting} {list : List (Option Addr × Statement Slot)}
  {output : List (Option Addr × Statement Local)}

theorem AllShown.restored (all : AllShown context names after list output) (valid : after.Valid)
    (named : ∀ item ∈ list, Named context names after item.2) :
    restore after.webOf output = list.map fun item => (item.1, item.2.overWebs context) := by
  induction all with
  | nil => rfl
  | cons one _ ih =>
      obtain ⟨own, others⟩ := List.forall_mem_cons.mp named
      rw [one.restore_cons valid own, ih others, List.map_cons]

/-- The locals of all slots occur. -/
theorem AllShown.exists_slots (all : AllShown context names after list output)
    {item : Option Addr × Statement Slot} (member : item ∈ list) {slot : Slot}
    (isSlot : slot ∈ item.2.slots) : ∃ made ∈ output, names slot.value ∈ made.2.slots := by
  induction all with
  | nil => cases member
  | @cons place _ _ _ _ _ one _ ih =>
      rcases List.mem_cons.mp member with rfl | inRest
      · obtain ⟨moved, isMade, occurs⟩ := one.exists_slots isSlot
        exact ⟨(place, moved), List.mem_append_left _ (List.mem_map_of_mem (f := (place, ·)) isMade),
          occurs⟩
      · obtain ⟨made, listed, occurs⟩ := ih inRest
        exact ⟨made, List.mem_append_right _ listed, occurs⟩

/-- All locals that occur are declared. -/
theorem AllShown.declared (all : AllShown context names after list output) (valid : after.Valid)
    (named : ∀ item ∈ list, Named context names after item.2) :
    ∀ item ∈ output, ∀ var ∈ item.2.slots, var ∈ after.declared := by
  induction all with
  | nil => exact fun _ none => by cases none
  | @cons place _ first cast _ _ one _ ih =>
      obtain ⟨own, others⟩ := List.forall_mem_cons.mp named
      intro item member var isSlot
      rcases List.mem_append.mp member with here | inRest
      · obtain ⟨moved, isMade, rfl⟩ := List.mem_map.mp
          (show item ∈ (first :: cast.toList).map (place, ·) from here)
        exact one.declared valid own isMade isSlot
      · exact ih others item inRest var isSlot

theorem named_of_rendered (rendered : Rendered context after list output)
    {item : Option Addr × Statement Slot} (member : item ∈ list) :
    Named context (namesAt context after) after item.2 := by
  intro slot isSlot
  obtain ⟨var, found⟩ := rendered.exists_local member isSlot
  rw [follows_namesAt after slot.value var found]
  exact found

/-- From no locals on, only the webs of slots get locals. -/
theorem exists_slot_of_lookup (serves : Serves context {} after (list.flatMap (·.2.slots)))
    (named : ∀ item ∈ list, Named context names after item.2) {web : Nat} {var : Local}
    (found : after.webs.lookup web = some var) :
    ∃ item ∈ list, ∃ slot ∈ item.2.slots, names slot.value = var := by
  rcases serves.only web var found with none | ⟨slot, member, rfl⟩
  · cases none
  · obtain ⟨item, listed, isSlot⟩ := List.mem_flatMap.mp member
    have own := named item listed slot isSlot
    exact ⟨item, listed, slot, isSlot, Option.some.inj (own.symm.trans found)⟩

/-! ## Temporaries -/

/-- A stretch of splitting leaves older temporaries alone, and moves each temporary that it
makes once. -/
structure Moves (before after : Splitting) (output : List (Option Addr × Statement Local)) :
    Prop where
  apart : ∀ var, before.IsTemporary var → ∀ item ∈ output, var ∉ item.2.slots
  movedOnce : ∀ var, after.IsTemporary var → var ∉ before.declared → MovedOnce var output

theorem Moves.nil (before : Splitting) : Moves before before [] where
  apart _ _ _ none := (List.not_mem_nil none).elim
  movedOnce _ temporary isNew := absurd temporary.1 isNew

theorem Moves.cons {before middle : Splitting} {statement : Statement Slot} {first : Statement Local}
    {cast : Option (Statement Local)} {made : List Local} (place : Option Addr)
    (shows : Shows context names middle statement first cast)
    (named : Named context names middle statement)
    (one : before.Advances context (castTemporary cast) middle)
    (two : middle.Advances context made after) (moves : Moves middle after output) :
    Moves before after ((place, first) :: cast.toList.map (place, ·) ++ output) := by
  have front : ∀ {var}, (∀ made ∈ first :: cast.toList, var ∉ made.slots) →
      ∀ item ∈ (first :: cast.toList).map (place, ·), var ∉ item.2.slots := by
    intro var absent
    rwa [List.forall_mem_map]
  constructor
  · intro var temporary
    refine List.forall_mem_append.mpr ⟨front fun made => shows.apart named one temporary, ?_⟩
    exact moves.apart var (temporary.mono one.adds)
  · intro var temporary isNew
    by_cases inMiddle : var ∈ middle.declared
    · -- made for this statement, and older for the ones after it
      have own := temporary.anti two.extended inMiddle
      have isCast := (one.temporaries var own).resolve_left fun old => isNew old.1
      obtain ⟨-, written, slot, mode, slotWritten, rfl⟩ := shows.exists_cast isCast
      have isHeld := named slot (Statement.mem_slots.mpr (.inr slotWritten))
      exact @MovedOnce.intro var [] _ place first _ _ _ _ written (shows.unread named own)
        (fun same => own.2 _ (same ▸ isHeld)) (moves.apart var own)
    · refine (moves.movedOnce var temporary inMiddle).prepend (front fun made isMade isSlot => ?_)
      exact inMiddle (shows.declared one.valid named isMade isSlot)

theorem statements_moves (list : List (Option Addr × Statement Slot)) {before : Splitting}
    (valid : before.Valid) :
    Moves before ((statements context list).run before).2 ((statements context list).run before).1 := by
  induction list generalizing before with
  | nil => exact .nil before
  | cons item rest ih =>
      obtain ⟨place, statement⟩ := item
      have renders := (statement_spec context statement valid).2
      cases made : (Split.statement context statement).run before with
      | mk result middle =>
          obtain ⟨first, cast⟩ := result
          rw [made] at renders
          have rendered : Rendered context middle [(place, statement)] _ := .cons renders .nil
          have named := named_of_rendered rendered List.mem_cons_self
          obtain ⟨one, shows⟩ := statement_shown statement valid made
          obtain ⟨⟨_, two, -⟩, -⟩ := @statements_shown context rest _ one.valid
          rw [statements_run_cons made]
          exact .cons place (shows _ (follows_namesAt middle)) named one two (ih one.valid)

/-! ## The whole list -/

/-- From no locals on, all locals that are declared occur. -/
theorem exists_slots_of_declared (list : List (Option Addr × Statement Slot)) {var : Local}
    (declared : var ∈ ((statements context list).run {}).2.declared) :
    ∃ item ∈ ((statements context list).run {}).1, var ∈ item.2.slots := by
  by_cases temporary : ((statements context list).run {}).2.IsTemporary var
  · have moves := @statements_moves context list _ Splitting.valid_empty
    exact (moves.movedOnce var temporary List.not_mem_nil).occurs
  · obtain ⟨web, found⟩ : ∃ web, ((statements context list).run {}).2.webs.lookup web = some var := by
      by_contra noWeb
      exact temporary ⟨declared, fun web found => noWeb ⟨web, found⟩⟩
    obtain ⟨serves, rendered⟩ := statements_spec context list Splitting.valid_empty
    obtain ⟨item, listed, slot, isSlot, rfl⟩ := exists_slot_of_lookup serves
      (fun item member => named_of_rendered rendered member) found
    exact ((@statements_shown context list _ Splitting.valid_empty).2 _
      (follows_namesAt _)).exists_slots listed isSlot

/-- Splitting only renames and wraps: with the casts of temporaries left out, the output is
the statements over webs, and its locals are one for each web and one for each temporary. -/
theorem split_restores (list : List (Option Addr × Statement Slot)) (values : List ProvisionalValue)
    (merges : List (Nat × Nat)) (solution : Solution) :
    ∃ webOf, Restores ⟨solution, (Partition.discrete values.length).unionAll merges⟩ list
      (split list values merges solution).1 (split list values merges solution).2 webOf := by
  let context : SplitContext := ⟨solution, (Partition.discrete values.length).unionAll merges⟩
  obtain ⟨serves, rendered⟩ := statements_spec context list Splitting.valid_empty
  have all := (@statements_shown context list _ Splitting.valid_empty).2 _ (follows_namesAt _)
  have moves := @statements_moves context list _ Splitting.valid_empty
  have named := fun item (member : item ∈ list) => named_of_rendered rendered member
  refine ⟨((statements context list).run {}).2.webOf, ?_⟩
  constructor
  case restored => exact all.restored serves.valid named
  case distinct => exact fun _ _ _ => Splitting.webOf_injective serves.valid
  case moved =>
    intro var declared noWeb
    exact moves.movedOnce var ((Splitting.isTemporary_iff serves.valid).mpr ⟨declared, noWeb⟩)
      List.not_mem_nil
  case nodup => exact serves.valid.numbered.nodup
  case occurs =>
    refine fun var => ⟨exists_slots_of_declared list, ?_⟩
    rintro ⟨item, listed, isSlot⟩
    exact all.declared serves.valid named item listed var isSlot
  case numbered => exact serves.valid.numbered

end Split

end Dalvik
