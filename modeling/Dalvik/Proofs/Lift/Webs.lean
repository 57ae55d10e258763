import Dalvik.Proofs.Lift.Casts
import Dalvik.Proofs.Lift.Renaming

/-!
# Webs

Values get one local exactly if they are linked by reads: each of them and the next are values of
definitions that reach one read.  The value of a read that nothing reaches has a local for itself.
-/

namespace Dalvik

namespace Lift

open Lower

/-- Values of which definitions reach one read of a live instruction. -/
def ReadTogether (context : LoweringContext) (isLive : Addr → Bool) (state : LoweringState)
    (first second : Nat) : Prop :=
  PairsIn context isLive state context.code.instructions (first, second)

/-- Values that are linked from read to read. -/
def InOneWeb (context : LoweringContext) (isLive : Addr → Bool) (state : LoweringState) :
    Nat → Nat → Prop :=
  Relation.ReflTransGen (ReadTogether context isLive state)

/-- A value that a statement reads or writes. -/
def Lowered.Occurs (lowered : Lowered) (value : Nat) : Prop :=
  ∃ item ∈ lowered.statements, ∃ slot ∈ item.2.slots, slot.value = value

/-- A value that was opened for a read which no definition reaches. -/
def Lowered.IsUndefined (lowered : Lowered) (value : Nat) : Prop :=
  lowered.state.values.values[value]?.map ProvisionalValue.site = some none

instance {lowered : Lowered} {value : Nat} : Decidable (lowered.Occurs value) :=
  inferInstanceAs (Decidable (∃ item ∈ lowered.statements, ∃ slot ∈ item.2.slots, slot.value = value))

instance {lowered : Lowered} {value : Nat} : Decidable (lowered.IsUndefined value) :=
  inferInstanceAs (Decidable (_ = _))

variable {context : LoweringContext} {isLive : Addr → Bool} {state : LoweringState} {first second : Nat}

theorem ReadTogether.symm (together : ReadTogether context isLive state first second) :
    ReadTogether context isLive state second first := by
  obtain ⟨instruction, listed, lives, read, isRead, one, two⟩ := together
  exact ⟨instruction, listed, lives, read, isRead, two, one⟩

/-- What is read together is defined. -/
theorem ReadTogether.exists_site (together : ReadTogether context isLive state first second) :
    ∃ site, state.values.values[first]?.map ProvisionalValue.site = some (some site) := by
  obtain ⟨instruction, -, -, read, -, ⟨d, -, defined⟩, -⟩ := together
  obtain ⟨record, found, isSite, -⟩ := ValueFile.definedAt?_eq_some defined
  exact ⟨d.site, by rw [found, Option.map_some, isSite]⟩

theorem InOneWeb.symm (inOne : InOneWeb context isLive state first second) :
    InOneWeb context isLive state second first := by
  induction inOne with
  | refl => exact .refl
  | tail _ together ih => exact .head together.symm ih

namespace Lifts

variable {code : Code} {pool : Pool} {options : LiftOptions} {body : Body} {lowered : Lowered}
  (lifts : Lifts code pool options body context lowered)
include lifts

/-- What is read together is connected by pairs. -/
theorem connected_of_readTogether
    (together : ReadTogether context (options.keeps context.graph) lowered.state first second) :
    Relation.EqvGen (fun a b => (a, b) ∈ lowered.state.merges) first second := by
  obtain ⟨instruction, listed, lives, read, isRead, ⟨d, dReaches, isFirst⟩, e, eReaches, isSecond⟩ :=
    together
  obtain ⟨_, _, results, -, -, each, -⟩ := lifts.lowersMethod.parts
  obtain ⟨_, _, _, stands, -⟩ := each.exists_result listed lives
  obtain ⟨values, found, -⟩ := stands.reads
  obtain ⟨value, -, reads⟩ := exists_of_forall₂ found isRead
  obtain ⟨one, isOne, oneConnected⟩ := reads.connected dReaches
  obtain ⟨two, isTwo, twoConnected⟩ := reads.connected eReaches
  obtain rfl := Option.some.inj (isOne.symm.trans isFirst)
  obtain rfl := Option.some.inj (isTwo.symm.trans isSecond)
  exact .trans _ _ _ oneConnected (.symm _ _ twoConnected)

/-- Pairs connect just the webs. -/
theorem connected_iff : Relation.EqvGen (fun a b => (a, b) ∈ lowered.state.merges) first second ↔
    InOneWeb context (options.keeps context.graph) lowered.state first second := by
  constructor
  · intro connected
    induction connected with
    | rel first second member => exact .single (lifts.lowersMethod.pairs (first, second) member)
    | refl => exact .refl
    | symm _ _ _ ih => exact ih.symm
    | trans _ _ _ _ _ one two => exact one.trans two
  · intro inOne
    induction inOne with
    | refl => exact .refl _
    | tail _ together ih => exact .trans _ _ _ ih (lifts.connected_of_readTogether together)

/-- A value that occurs has a local of the body, which is no temporary. -/
theorem nameOf_mem_locals (occurs : lowered.Occurs first) :
    lowered.nameOf first ∈ body.locals ∧ ¬ lowered.splitting.IsTemporary (lowered.nameOf first) := by
  obtain ⟨item, member, slot, isSlot, rfl⟩ := occurs
  obtain ⟨-, named, -⟩ := lifts.named member isSlot
  rw [lifts.locals]
  exact ⟨lowered.splitting_valid.declared _ _ named,
    fun isTemporary => isTemporary_ne isTemporary _ named⟩

/-- Values that occur have one local exactly if they are in one web. -/
theorem nameOf_eq_iff (isFirst : lowered.Occurs first) (isSecond : lowered.Occurs second) :
    lowered.nameOf first = lowered.nameOf second ↔
      InOneWeb context (options.keeps context.graph) lowered.state first second := by
  obtain ⟨item, member, slot, isSlot, rfl⟩ := isFirst
  obtain ⟨other, listed, slot', isSlot', rfl⟩ := isSecond
  obtain ⟨stated, named, -⟩ := lifts.named member isSlot
  obtain ⟨stated', named', -⟩ := lifts.named listed isSlot'
  rw [← lifts.connected_iff]
  exact eq_iff_connected lowered.splitting_valid lifts.merges_inside stated.present stated'.present
    named named'

end Lifts

/-- An undefined value is in one web with itself only. -/
theorem Lowered.IsUndefined.eq_of_inOneWeb {lowered : Lowered} (isUndefined : lowered.IsUndefined first)
    (inOne : InOneWeb context isLive lowered.state first second) : first = second := by
  rcases Relation.ReflTransGen.cases_head inOne with same | ⟨next, together, -⟩
  · exact same
  · obtain ⟨site, isSite⟩ := together.exists_site
    cases isUndefined.symm.trans isSite

/-- The statements of a body are the lowered ones over its locals.  Each value that occurs has one of
them, which is no temporary, and two have the same exactly if they are linked from read to read.  So
an undefined value shares its local with no other. -/
theorem locals_of_webs {code : Code} {pool : Pool} {options : LiftOptions} {body : Body}
    (lifted : run code pool options = .ok body) :
    ∃ context lowered, Lifts code pool options body context lowered ∧
      Split.AllShown lowered.splitContext lowered.nameOf lowered.splitting lowered.statements
        body.statements ∧
      ∀ first, lowered.Occurs first →
        (lowered.nameOf first ∈ body.locals ∧
          ¬ lowered.splitting.IsTemporary (lowered.nameOf first)) ∧
        ∀ second, lowered.Occurs second →
          (lowered.nameOf first = lowered.nameOf second ↔
            InOneWeb context (options.keeps context.graph) lowered.state first second) ∧
          (lowered.IsUndefined first → lowered.nameOf first = lowered.nameOf second →
            first = second) := by
  obtain ⟨context, lowered, lifts⟩ := exists_lifts lifted
  refine ⟨context, lowered, lifts, lifts.shown, fun first isFirst =>
    ⟨lifts.nameOf_mem_locals isFirst, fun second isSecond => ?_⟩⟩
  have iff := lifts.nameOf_eq_iff isFirst isSecond
  exact ⟨iff, fun isUndefined same => isUndefined.eq_of_inOneWeb (iff.mp same)⟩

end Lift

/-- A method that sets a register at one of two places, by another register that has no value, and
negates it. -/
def Code.setsEither : Code where
  method := 0
  flags := ⟨8⟩
  registers := 2
  instructions := [.ofOpcode 0 .ifEqz [.ofNat 1] (some 4) none, .setZero 2,
    .ofOpcode 3 .goto [] (some 2) none, .setZero 4, .negate 5, .ofOpcode 6 .returnVoid [] none none]
  tries := []

namespace Lift

/-- What is negated is in one local, whichever place it comes from, and the result in another one. -/
theorem webs_setsEither : ∃ body context lowered, run .setsEither .oneMethod {} = .ok body ∧
    Lifts .setsEither .oneMethod {} body context lowered ∧
    InOneWeb context (LiftOptions.keeps {} context.graph) lowered.state 1 2 ∧
    ¬ InOneWeb context (LiftOptions.keeps {} context.graph) lowered.state 1 3 ∧
    lowered.IsUndefined 0 ∧ lowered.nameOf 0 ≠ lowered.nameOf 1 := by
  have lowers : LowersTo .setsEither .oneMethod ⟨2, []⟩ 5 {} fun _ lowered =>
      (lowered.Occurs 0 ∧ lowered.Occurs 1 ∧ lowered.Occurs 2 ∧ lowered.Occurs 3) ∧
        lowered.IsUndefined 0 ∧ lowered.nameOf 1 = lowered.nameOf 2 ∧
        lowered.nameOf 1 ≠ lowered.nameOf 3 := by
    decide +kernel
  obtain ⟨body, context, lowered, lifted, lifts, ⟨zero, one, two, three⟩, isUndefined, same, differs⟩ :=
    @LowersTo.exists_lifts .setsEither .oneMethod [] 5 {} _ _ (by decide) (by decide) rfl lowers
  obtain ⟨context', lowered', lifts', -, webs⟩ := locals_of_webs lifted
  obtain rfl := Except.ok.inj (lifts.ofCode.symm.trans lifts'.ofCode)
  obtain rfl := Except.ok.inj (lifts.lowers.symm.trans lifts'.lowers)
  have ofOne := (webs 1 one).2
  refine ⟨body, context, lowered, lifted, lifts, (ofOne 2 two).1.mp same, ?_, isUndefined, ?_⟩
  · exact fun inOne => differs ((ofOne 3 three).1.mpr inOne)
  · exact fun sameName => absurd (((webs 0 zero).2 1 one).2 isUndefined sameName) (by decide)

end Lift

end Dalvik
