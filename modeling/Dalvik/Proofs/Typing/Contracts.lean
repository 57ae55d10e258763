import Dalvik.Proofs.Kind
import Dalvik.Proofs.Typing.Restoring

/-!
# Kinds that slots allow

What a slot is read as has a kind that the slot allows: the local of its web, or a cast of
it.  So has what a slot is defined through: the local of its web, or a temporary that is
cast to it right after.  The casts go in opposite directions, from the kind of the local
where it is read and to it where it is defined.
-/

namespace Dalvik

namespace Slot

variable (context : SplitContext) (webOf : Local → Option Nat) (slot : Slot)

/-- What a slot is read as: the local of its web, or, where the slot refuses this local's
kind, a cast of it to a kind that the slot allows. -/
inductive ReadAs : Operand Local → Prop where
  | held {held : Local} (isWeb : webOf held = some (context.webs.label slot.value))
      (allowed : slot.contract.contains held.kind = true) : ReadAs (.var held)
  | cast {held : Local} {target : Kind} {mode : CastMode}
      (isWeb : webOf held = some (context.webs.label slot.value))
      (refused : slot.contract.contains held.kind = false)
      (allowed : slot.contract.contains target = true)
      (reinterprets : mode = .reinterpret ↔ held.kind.bitCompatible target = true) :
      ReadAs (.cast held held.kind target mode)

/-- What a slot is defined through, and the cast after that: the local of its web, or, where
the slot refuses this local's kind, a temporary of a kind that the slot allows, which the cast
puts into this local. -/
inductive DefinedAs : Local → Option (Statement Local) → Prop where
  | held {held : Local} (isWeb : webOf held = some (context.webs.label slot.value))
      (allowed : slot.contract.contains held.kind = true) : DefinedAs held none
  | cast {held temporary : Local} {mode : CastMode}
      (isWeb : webOf held = some (context.webs.label slot.value))
      (refused : slot.contract.contains held.kind = false) (noWeb : webOf temporary = none)
      (allowed : slot.contract.contains temporary.kind = true)
      (reinterprets : mode = .reinterpret ↔ temporary.kind.bitCompatible held.kind = true) :
      DefinedAs temporary (some (.assign (.var held)
        (.use (.cast temporary temporary.kind held.kind mode))))

end Slot

namespace Split

variable {context : SplitContext}

/-- A statement over slots is replaced by one over locals, and by the cast after that, in which
each slot that allows some kind is read and defined as one that it allows. -/
def Contracted (context : SplitContext) (webOf : Local → Option Nat) (statement : Statement Slot)
    (first : Statement Local) (cast : Option (Statement Local)) : Prop :=
  ∃ change var, first = statement.mapOperands change var ∧
    (∀ slot, .var slot ∈ statement.operands → slot.contract ≠ .empty →
      slot.ReadAs context webOf (change (.var slot))) ∧
    ∀ slot, statement.written = some slot → slot.contract ≠ .empty →
      slot.DefinedAs context webOf var cast

/-- Each statement is replaced by a related one, with the related cast right after it, at its
place. -/
inductive Replaced (related : Statement Slot → Statement Local → Option (Statement Local) → Prop) :
    List (Option Addr × Statement Slot) → List (Option Addr × Statement Local) → Prop where
  | nil : Replaced related [] []
  | cons {place : Option Addr} {statement : Statement Slot} {first : Statement Local}
      {cast : Option (Statement Local)} {list : List (Option Addr × Statement Slot)}
      {output : List (Option Addr × Statement Local)} (one : related statement first cast)
      (rest : Replaced related list output) :
      Replaced related ((place, statement) :: list)
        ((place, first) :: cast.toList.map (place, ·) ++ output)

theorem castMode_eq_reinterpret {source target : Kind} {value : Nat} :
    castMode context source target value = .reinterpret ↔ source.bitCompatible target = true := by
  unfold castMode
  split
  · rename_i compatible
    exact iff_of_true rfl compatible
  · rename_i incompatible
    exact iff_of_false (fun impossible => by cases impossible) incompatible

theorem readAs_shownAs {webOf : Local → Option Nat} {slot : Slot} {var : Local}
    (nonempty : slot.contract ≠ .empty) (isWeb : webOf var = some (context.webs.label slot.value)) :
    slot.ReadAs context webOf (shownAs context var slot) := by
  rw [shownAs]
  split
  · rename_i allowed
    exact .held isWeb allowed
  · rename_i refused
    obtain ⟨target, preferred⟩ := KindSet.exists_preferred nonempty
    rw [preferred]
    exact .cast isWeb (Bool.eq_false_iff.mpr refused) (KindSet.contains_of_preferred preferred)
      castMode_eq_reinterpret

theorem DefinesAs.definedAs {names : Nat → Local} {after : Splitting} {slot : Slot} {var : Local}
    {cast : Option (Statement Local)} (defines : DefinesAs context names after (some slot) var cast)
    (valid : after.Valid) (nonempty : slot.contract ≠ .empty)
    (isWeb : after.webOf (names slot.value) = some (context.webs.label slot.value)) :
    slot.DefinedAs context after.webOf var cast := by
  obtain ⟨preferred, isPreferred⟩ := KindSet.exists_preferred nonempty
  cases defines with
  | directly allowed =>
      rcases allowed with allowed | none
      · exact .held isWeb allowed
      · rw [isPreferred] at none
        cases none
  | throughCast refused produces kind isTemporary =>
      subst kind
      exact .cast isWeb refused ((Splitting.isTemporary_iff valid).mp isTemporary).2
        (KindSet.contains_of_preferred produces) castMode_eq_reinterpret

theorem Shows.contracted {names : Nat → Local} {after : Splitting} {statement : Statement Slot}
    {first : Statement Local} {cast : Option (Statement Local)}
    (shows : Shows context names after statement first cast) (valid : after.Valid)
    (named : Named context names after statement) :
    Contracted context after.webOf statement first cast := by
  obtain ⟨var, rfl, defines⟩ := shows.exists_defined
  refine ⟨shown context names, var, rfl, fun slot isOperand nonempty => ?_,
    fun slot written nonempty => ?_⟩
  · exact readAs_shownAs nonempty (named.webOf_eq valid (Statement.mem_slots_of_operand isOperand))
  · rw [written] at defines
    exact defines.definedAs valid nonempty
      (named.webOf_eq valid (Statement.mem_slots.mpr (.inr written)))

theorem AllShown.contracted {names : Nat → Local} {after : Splitting}
    {list : List (Option Addr × Statement Slot)} {output : List (Option Addr × Statement Local)}
    (all : AllShown context names after list output) (valid : after.Valid)
    (named : ∀ item ∈ list, Named context names after item.2) :
    Replaced (Contracted context after.webOf) list output := by
  induction all with
  | nil => exact .nil
  | cons one _ ih =>
      obtain ⟨own, others⟩ := List.forall_mem_cons.mp named
      exact .cons (one.contracted valid own) (ih others)

/-- Splitting reads and defines each slot that allows some kind as a local of a kind that it
allows, or as a cast between such a kind and that of the one local of the slot's web. -/
theorem split_contracted (list : List (Option Addr × Statement Slot))
    (values : List ProvisionalValue) (merges : List (Nat × Nat)) (solution : Solution) :
    ∃ webOf : Local → Option Nat,
      (∀ first second web, webOf first = some web → webOf second = some web → first = second) ∧
      Replaced
        (Contracted ⟨solution, (Partition.discrete values.length).unionAll merges⟩ webOf)
        list (split list values merges solution).2 := by
  let context : SplitContext := ⟨solution, (Partition.discrete values.length).unionAll merges⟩
  obtain ⟨serves, rendered⟩ := statements_spec context list Splitting.valid_empty
  have all := (@statements_shown context list _ Splitting.valid_empty).2 _ (follows_namesAt _)
  exact ⟨((statements context list).run {}).2.webOf,
    fun _ _ _ => Splitting.webOf_injective serves.valid,
    all.contracted serves.valid fun item member => named_of_rendered rendered member⟩

/-- An `int` that is defined as a `float` and returned as an object is cast both times. -/
example :
    (split
      [(some 0, .assign (.var ⟨0, .ofKind .float⟩) (.use (.constant (.float 0)))),
        (some 1, .exit (some (.var ⟨0, .ofKind .object⟩)))]
      [] [] ⟨[], [], []⟩).2 =
    [(some 0, .assign (.var ⟨.float, 0⟩) (.use (.constant (.float 0)))),
      (some 0, .assign (.var ⟨.int, 0⟩) (.use (.cast ⟨.float, 0⟩ .float .int .reinterpret))),
      (some 1, .exit (some (.cast ⟨.int, 0⟩ .int .object (.coerce none))))] := by
  decide

end Split

end Dalvik
