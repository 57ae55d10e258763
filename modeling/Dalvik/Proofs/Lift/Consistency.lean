import Dalvik.Proofs.Lift.Casts

/-!
# Kinds in bodies

The sides of a comparison, and of an assignment of an operand to a local, have one kind
exactly where each literal's peer allows the kind of its class, as all do if results are
moved with the width of what calls pass.
-/

namespace Dalvik

/-- The kind of an operand; a literal takes the kind of its peer. -/
def Operand.kind : Operand Local → Kind
  | .var held => held.kind
  | .constant own => own.kind
  | .literal _ _ peer => peer.kind
  | .cast _ _ target _ => target

/-- The operands of a comparison have one kind, and so do a local and an operand that is
assigned to it. -/
def Statement.KindConsistent : Statement Local → Prop
  | .branch _ left right _ => left.kind = right.kind
  | .assign (.var dest) (.use operand) => operand.kind = dest.kind
  | _ => True

def Body.KindConsistent (body : Body) : Prop :=
  ∀ item ∈ body.statements, item.2.KindConsistent

theorem Constant.kind_ofBits {kind : Kind} {bits : UInt64} (number : bits = 0 ∨ kind ≠ .object) :
    (ofBits kind bits).kind = kind := by
  cases kind with
  | object =>
      rcases number with zero | other
      · rw [ofBits, if_pos zero]
        rfl
      · exact absurd rfl other
  | int | long | float | double => rfl

namespace Lift

open Lower

/-- The peer of a literal that is compared or assigned allows the kind of its class. -/
def PeerFits (lowered : Lowered) : Statement Slot → Prop
  | .branch _ _ (.literal _ _ peer) _ | .assign (.var _) (.use (.literal _ _ peer)) =>
      peer.contract.contains (lowered.solution.kindOf peer.value) = true
  | _ => True

variable {code : Code} {pool : Pool} {options : LiftOptions} {body : Body}
  {context : LoweringContext} {lowered : Lowered}

/-- The kind that a slot is used as, by the kind of its local. -/
def usedAs (contract : KindSet) (kind : Kind) : Kind :=
  if contract.contains kind then kind else contract.preferred.getD kind

theorem kind_shownAs {splitting : SplitContext} {var : Local} {slot : Slot} :
    (Split.shownAs splitting var slot).kind = usedAs slot.contract var.kind := by
  unfold Split.shownAs usedAs
  split
  · rfl
  · split
    · rename_i target preferred
      rw [preferred]
      rfl
    · rename_i nothing
      rw [nothing]
      rfl

theorem usedAs_of_contains {contract : KindSet} {kind : Kind} (contains : contract.contains kind = true) :
    usedAs contract kind = kind :=
  if_pos contains

/-- What a slot is used as is allowed, if there is anything that is. -/
theorem contains_usedAs {contract : KindSet} {other kind : Kind} (allowed : contract.contains other = true) :
    contract.contains (usedAs contract kind) = true := by
  unfold usedAs
  split
  · assumption
  · have nonempty : contract ≠ .empty := by
      rintro rfl
      rw [KindSet.contains_empty] at allowed
      cases allowed
    obtain ⟨preferred, isPreferred⟩ := KindSet.exists_preferred nonempty
    rw [isPreferred]
    exact KindSet.contains_of_preferred isPreferred

/-- The local that is written has the kind that the slot is used as, and a cast after the
definition has the kind of the local that it is moved to. -/
theorem kind_defined {splitting : SplitContext} {names : Nat → Local} {after : Splitting} {slot : Slot}
    {var : Local} {cast : Option (Statement Local)}
    (defines : Split.DefinesAs splitting names after (some slot) var cast) :
    var.kind = usedAs slot.contract (names slot.value).kind ∧ ∀ moved ∈ cast, moved.KindConsistent := by
  cases defines with
  | directly allowed =>
      refine ⟨?_, fun _ member => by cases member⟩
      unfold usedAs
      split
      · rfl
      · rename_i refused
        rcases allowed with allowed | nothing
        · exact absurd allowed refused
        · rw [nothing]
          rfl
  | throughCast refused preferred kind _ =>
      refine ⟨?_, fun moved isCast => ?_⟩
      · rw [usedAs, if_neg (Bool.eq_false_iff.mp refused), preferred, kind]
        rfl
      · obtain rfl := Option.some.inj isCast
        exact rfl

/-- A statement that defines nothing has no cast after it. -/
theorem cast_eq_none {splitting : SplitContext} {names : Nat → Local} {after : Splitting}
    {var : Local} {cast : Option (Statement Local)}
    (defines : Split.DefinesAs splitting names after none var cast) : cast = none := by
  cases defines
  rfl

namespace Lifts

variable (lifts : Lifts code pool options body context lowered)
include lifts

/-- Linked values have one kind. -/
theorem kindOf_of_linked {first second : Nat} (present : first < lowered.state.values.values.length)
    (linked : Lower.Linked lowered.state first second) :
    lowered.solution.kindOf first = lowered.solution.kindOf second := by
  rcases linked with rfl | ⟨entry, listed, same⟩
  · rfl
  · obtain ⟨-, inside⟩ := lifts.inside entry listed first second same
    have sameClass := (lifts.inside.label_eq_iff present inside).mpr (.rel _ _ ⟨entry, listed, same⟩)
    rw [Solution.kindOf, Solution.kindOf, Lowered.solution,
      Solution.class?_congr present inside sameClass]

/-- The class of a slot that allows ints but no objects has another kind than an object. -/
theorem kindOf_ne_object {slot : Slot} (stated : Stated context lowered.state slot)
    (plain : slot.contract.object = false) (int : slot.contract.contains .int = true) :
    lowered.solution.kindOf slot.value ≠ .object := by
  have notOnly : slot.contract.isWidthOnly ≠ true := by
    intro only
    rw [KindSet.isWidthOnly, Bool.or_eq_true, beq_iff_eq, beq_iff_eq] at only
    rcases only with same | same
    · rw [same] at plain
      cases plain
    · rw [same] at int
      cases int
  cases conflict : lowered.solution.isConflicting slot.value with
  | true =>
      rw [Lowered.solution, Solution.kindOf_eq_default lifts.inside stated.present conflict]
      cases Solution.classWidth lowered.state.values.values lowered.state.recorded slot.value <;> decide
  | false =>
      intro isObject
      have allowed := lifts.allows_of_free stated (fun _ only => absurd only notOnly) conflict
      rw [isObject] at allowed
      exact Bool.false_ne_true (plain.symm.trans allowed)

/-- A literal has the kind that its peer is used as exactly if the peer allows the kind of its
class. -/
theorem kind_literal_iff {peer : Slot} {bits : UInt64} (stated : Stated context lowered.state peer)
    (number : bits = 0 ∨ peer.contract.object = false)
    (fallback : peer.contract.contains (defaultKind peer.contract.width) = true) :
    (Constant.ofBits (lowered.solution.kindOf peer.value) bits).kind =
        usedAs peer.contract (lowered.solution.kindOf peer.value) ↔
      peer.contract.contains (lowered.solution.kindOf peer.value) = true := by
  have own : (bits = 0 ∨ lowered.solution.kindOf peer.value ≠ .object) →
      (Constant.ofBits (lowered.solution.kindOf peer.value) bits).kind =
        lowered.solution.kindOf peer.value := Constant.kind_ofBits
  constructor
  · intro same
    have used := @contains_usedAs _ _ (lowered.solution.kindOf peer.value) fallback
    by_cases object : bits ≠ 0 ∧ lowered.solution.kindOf peer.value = .object
    · -- such a literal is an int, and only objects take none
      obtain ⟨nonzero, isObject⟩ := object
      rw [← same, isObject, Constant.ofBits, if_neg nonzero] at used
      exact absurd isObject (lifts.kindOf_ne_object stated (number.resolve_left nonzero) used)
    · rw [own (by tauto)] at same
      rw [same]
      exact used
  · intro allowed
    rw [usedAs_of_contains allowed]
    refine own (number.imp_right fun plain isObject => ?_)
    rw [isObject] at allowed
    exact Bool.false_ne_true (plain.symm.trans allowed)

/-- What a slot of a statement is shown as has the kind that it is used as. -/
theorem kind_shown {item : Option Addr × Statement Slot} (member : item ∈ lowered.statements)
    {slot : Slot} (isSlot : slot ∈ item.2.slots) :
    (Split.shown lowered.splitContext lowered.nameOf (.var slot)).kind =
      usedAs slot.contract (lowered.solution.kindOf slot.value) := by
  rw [Split.shown, kind_shownAs, (lifts.named member isSlot).2.2]

/-- The sides of a comparison are shown with one kind exactly if the peer of its literal fits. -/
theorem comparison_consistent_iff {place : Option Addr} {op : Comparison} {left right : Operand Slot}
    {target : Addr} (member : (place, .branch op left right target) ∈ lowered.statements) :
    PeerFits lowered (.branch op left right target) ↔
      (Split.shown lowered.splitContext lowered.nameOf left).kind =
        (Split.shown lowered.splitContext lowered.nameOf right).kind := by
  have sound := lifts.gathers.sound _ member
  cases sound.balanced with
  | @slots left right same linked =>
      refine iff_of_true trivial ?_
      have stated : Stated context lowered.state left := sound.stated List.mem_cons_self
      rw [lifts.kind_shown member List.mem_cons_self,
        lifts.kind_shown member (List.mem_cons_of_mem _ List.mem_cons_self), same,
        lifts.kindOf_of_linked stated.present linked]
  | @zero left wide =>
      cases sound.operands (.literal 0 wide left) (List.mem_cons_of_mem _ List.mem_cons_self) with
      | literal stated several fallback =>
          rw [PeerFits, ← lifts.kind_literal_iff stated (.inl rfl) fallback,
            lifts.kind_shown member List.mem_cons_self]
          exact eq_comm

/-- An operand is shown with the kind of the local that it is assigned to exactly if the peer
of a literal fits. -/
theorem assignment_consistent_iff {place : Option Addr} {dest : Slot} {operand : Operand Slot}
    (member : (place, .assign (.var dest) (.use operand)) ∈ lowered.statements) {var : Local}
    (kind : var.kind = usedAs dest.contract (lowered.solution.kindOf dest.value)) :
    PeerFits lowered (.assign (.var dest) (.use operand)) ↔
      (Split.shown lowered.splitContext lowered.nameOf operand).kind = var.kind := by
  have sound := lifts.gathers.sound _ member
  have balanced : Assignable lowered.state dest operand := sound.balanced
  rw [kind]
  cases balanced with
  | @slot source same linked =>
      refine iff_of_true trivial ?_
      have stated := sound.written dest rfl
      rw [lifts.kind_shown member List.mem_cons_self, same,
        lifts.kindOf_of_linked stated.present linked]
  | @literal bits wide number =>
      cases sound.operands (.literal bits wide dest) List.mem_cons_self with
      | literal stated several fallback => exact (lifts.kind_literal_iff stated number fallback).symm
  | @constant own same =>
      refine iff_of_true trivial ?_
      have allowed := @contains_usedAs dest.contract own.kind (lowered.solution.kindOf dest.value)
        (by rw [same, KindSet.contains_ofKind])
      rwa [same, KindSet.contains_ofKind, ← same] at allowed

/-- A statement and the cast after it are consistent exactly if the peer of its literal
fits. -/
theorem kindConsistent_iff {item : Option Addr × Statement Slot} (member : item ∈ lowered.statements)
    {first : Statement Local} {cast : Option (Statement Local)}
    (shows : Split.Shows lowered.splitContext lowered.nameOf lowered.splitting item.2 first cast) :
    PeerFits lowered item.2 ↔ first.KindConsistent ∧ ∀ moved ∈ cast, moved.KindConsistent := by
  obtain ⟨place, statement⟩ := item
  obtain ⟨var, rfl, defines⟩ := shows.exists_defined
  have moves : ∀ moved ∈ cast, moved.KindConsistent := by
    cases written : statement.written with
    | none =>
        rw [show (place, statement).2.written = none from written] at defines
        rw [cast_eq_none defines]
        exact fun _ member => by cases member
    | some slot =>
        rw [show (place, statement).2.written = some slot from written] at defines
        exact (kind_defined defines).2
  rw [and_iff_left moves]
  cases statement with
  | branch op left right target => exact lifts.comparison_consistent_iff member
  | assign dest value =>
      cases dest with
      | var dest =>
          cases value with
          | use operand =>
              have kind := (kind_defined defines).1
              rw [(lifts.named member (Statement.mem_slots.mpr (.inr rfl))).2.2] at kind
              exact lifts.assignment_consistent_iff member kind
          | _ => exact Iff.rfl
      | _ => exact Iff.rfl
  | _ => exact Iff.rfl

/-- A body is consistent exactly if the peers of literals fit. -/
theorem bodyConsistent_iff : body.KindConsistent ↔ ∀ item ∈ lowered.statements, PeerFits lowered item.2 := by
  refine (@Split.AllShown.forall_iff _ _ _ _ _ lifts.shown Statement.KindConsistent
    (PeerFits lowered) ?_).symm
  rintro statement first cast ⟨place, member⟩ shows
  exact lifts.kindConsistent_iff member shows

/-- The peers of literals fit where results do. -/
theorem peerFits_of_resultsFit (fit : code.ResultsFit pool)
    (distinct : (code.instructions.map Instruction.addr).Nodup) (small : code.registers ≤ 65536)
    {item : Option Addr × Statement Slot} (member : item ∈ lowered.statements) :
    PeerFits lowered item.2 := by
  have sound := lifts.gathers.sound item member
  have fits : ∀ {bits : UInt64} {wide : Bool} {peer : Slot}, .literal bits wide peer ∈ item.2.operands →
      peer.contract.contains (lowered.solution.kindOf peer.value) = true := by
    intro bits wide peer isOperand
    cases sound.operands _ isOperand with
    | literal stated several fallback =>
        have width := lifts.classWidth_of_comes fit distinct small (stated.comes several)
        cases conflict : lowered.solution.isConflicting peer.value with
        | true =>
            rw [Lowered.solution, Solution.kindOf_eq_default lifts.inside stated.present conflict, width]
            exact fallback
        | false =>
            exact lifts.allows_of_free stated (lifts.fits_of_resultsFit fit distinct small stated) conflict
  unfold PeerFits
  split
  · rename_i op left bits wide peer target same
    refine @fits bits wide peer ?_
    rw [same]
    exact List.mem_cons_of_mem _ List.mem_cons_self
  · rename_i dest bits wide peer same
    refine @fits bits wide peer ?_
    rw [same]
    exact List.mem_cons_self
  · trivial

end Lifts

/-- A body has one kind on both sides of each comparison and assignment exactly if the peers of
literals allow the kinds of their classes, as they do where results are moved with the width
of what calls pass. -/
theorem kinds_consistent_iff (lifted : run code pool options = .ok body)
    (distinct : (code.instructions.map Instruction.addr).Nodup) (small : code.registers ≤ 65536) :
    ∃ context lowered, Lifts code pool options body context lowered ∧
      (body.KindConsistent ↔ ∀ item ∈ lowered.statements, PeerFits lowered item.2) ∧
      (code.ResultsFit pool → body.KindConsistent) := by
  obtain ⟨context, lowered, lifts⟩ := exists_lifts lifted
  refine ⟨context, lowered, lifts, lifts.bodyConsistent_iff, fun fit => ?_⟩
  exact lifts.bodyConsistent_iff.mpr fun item member =>
    lifts.peerFits_of_resultsFit fit distinct small member

end Lift

/-- A method that calls another one, moves a narrow result, and compares it with zero. -/
def Code.testsResult : Code where
  method := 0
  flags := ⟨8⟩
  registers := 4
  instructions := [{ Instruction.ofOpcode 0 .invokeStatic [] none none with reference := some ⟨.method, 1⟩ },
    .ofOpcode 3 .moveResult [.ofNat 0] none none, .ofOpcode 4 .ifEqz [.ofNat 0] (some 2) none,
    .ofOpcode 6 .returnVoid [] none none]
  tries := []

namespace Lift

/-- A float that is moved as a narrow value is compared with the zero of floats. -/
theorem kindConsistent_testsResult_float : Code.testsResult.ResultsFit (.returning .float) ∧
    ∃ body, run .testsResult (.returning .float) {} = .ok body ∧ body.KindConsistent ∧
      (some 4, .branch .eq (.var ⟨.float, 0⟩) (.constant (.float 0)) 6) ∈ body.statements := by
  have fit : Code.testsResult.ResultsFit (.returning .float) := by decide
  have lowers : LowersTo .testsResult (.returning .float) ⟨4, [(.ofNat 2, .narrow), (.ofNat 3, .narrow)]⟩
      3 {} fun _ lowered => (some 4, .branch .eq (.var ⟨.float, 0⟩) (.constant (.float 0)) 6) ∈
        (assemble .testsResult lowered lowered.solution).statements := by
    decide +kernel
  obtain ⟨body, context, lowered, lifted, lifts, compares⟩ := @LowersTo.exists_lifts .testsResult
    (.returning .float) Argument.objectAndInt 3 {} _ _ (by decide) (by decide) rfl lowers
  obtain ⟨_, _, -, -, consistent⟩ := kinds_consistent_iff lifted (by decide) (by decide)
  rw [← lifts.assembled] at compares
  exact ⟨fit, body, lifted, consistent fit, compares⟩

/-- A long that is moved as a narrow value is cast to an int, and compared with the zero of
longs. -/
theorem not_kindConsistent_testsResult_long :
    ∃ body, run .testsResult (.returning .long) {} = .ok body ∧ ¬ body.KindConsistent := by
  have lowers : LowersTo .testsResult (.returning .long) ⟨4, [(.ofNat 2, .narrow), (.ofNat 3, .narrow)]⟩
      3 {} fun _ lowered =>
        (some 4, .branch .eq (.cast ⟨.long, 0⟩ .long .int (.coerce (some 0))) (.constant (.long 0)) 6) ∈
          (assemble .testsResult lowered lowered.solution).statements := by
    decide +kernel
  obtain ⟨body, context, lowered, lifted, lifts, compares⟩ := @LowersTo.exists_lifts .testsResult
    (.returning .long) Argument.objectAndInt 3 {} _ _ (by decide) (by decide) rfl lowers
  refine ⟨body, lifted, fun consistent => ?_⟩
  rw [← lifts.assembled] at compares
  have same : Kind.int = .long := consistent _ compares
  cases same

end Lift

end Dalvik
