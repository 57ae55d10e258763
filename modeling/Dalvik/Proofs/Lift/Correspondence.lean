import Dalvik.Proofs.Lift.Locals
import Dalvik.Proofs.Flow.Blocks
import Dalvik.Proofs.Typing.Partition

/-!
# Locals and definitions

Two locals of a body are the same exactly if the definitions behind them are connected
by reads that several definitions reach.
-/

namespace Dalvik

/-- The write a definition comes from: where it happens, and its first register. -/
def Def.write (d : Def) : Site × Reg :=
  (d.site, d.reg)

namespace Lower

variable {context : LoweringContext} {addr : Addr} {final : LoweringState} {read : Reg × Width}
  {value : Nat}

/-- A definition that reaches a read has a value, which pairs connect with the read's. -/
theorem ReadsAs.connected (reads : ReadsAs context addr final read value) {d : Def}
    (reaches : d ∈ context.readable addr read.1 read.2) :
    ∃ own, final.values.definedAt? d.site d.reg = some own ∧
      Relation.EqvGen (fun a b => (a, b) ∈ final.merges) own value := by
  cases reads with
  | undefined nothing _ _ _ => simp [nothing] at reaches
  | defined reaching own paired =>
      rw [reaching] at reaches
      rcases List.mem_cons.mp reaches with rfl | inOthers
      · exact ⟨value, own, .refl _⟩
      · obtain ⟨other, found, pair⟩ := paired d inOthers
        exact ⟨other, found, .rel _ _ pair⟩

/-- The value of a read that is also the value of a write is that of a definition that
reaches the read. -/
theorem ReadsAs.exists_reaching
    (reads : ReadsAs context addr final read value) {write : Site × Reg}
    (found : final.values.definedAt? write.1 write.2 = some value) :
    ∃ d ∈ context.readable addr read.1 read.2, d.write = write := by
  cases reads with
  | undefined _ present isNew _ =>
      obtain ⟨record, same, site, -⟩ := ValueFile.definedAt?_eq_some found
      obtain rfl := Option.some.inj (present.symm.trans same)
      simp [isNew] at site
  | @defined _ _ _ d others reaching own _ =>
      refine ⟨d, ?_, @ValueFile.definedAt?_injective _ d.write write _ own found⟩
      rw [reaching]
      exact List.mem_cons_self

theorem ReadsAs.lt (reads : ReadsAs context addr final read value) :
    value < final.values.values.length := by
  cases reads with
  | undefined _ present _ _ => exact (List.getElem?_eq_some_iff.mp present).1
  | defined _ own _ => exact ValueFile.lt_of_definedAt? own

end Lower

namespace Lift

open Lower

/-- Two writes of which definitions reach one read of a live instruction. -/
def Meets (context : LoweringContext) (isLive : Addr → Bool) (first second : Site × Reg) : Prop :=
  ∃ instruction ∈ context.code.instructions, isLive instruction.addr = true ∧
    ∃ read ∈ instruction.reads context.pool,
      (∃ d ∈ context.readable instruction.addr read.1 read.2, d.write = first) ∧
      ∃ d ∈ context.readable instruction.addr read.1 read.2, d.write = second

/-- Whether a write is connected, from read to read, with one of which a definition is
found at a read. -/
def Linked (context : LoweringContext) (isLive : Addr → Bool) (addr : Addr) (read : Reg × Width)
    (write : Site × Reg) : Prop :=
  ∃ d ∈ context.readable addr read.1 read.2,
    Relation.EqvGen (Meets context isLive) write d.write

/-- How the locals of a body stand for the values of lowering: by their webs, which the
pairs of values connect. -/
structure Correspondence (context : LoweringContext) (isLive : Addr → Bool) (final : LoweringState)
    (names : Nat → Option Local) (body : Body) : Prop where
  /-- Each read of a live instruction has a value. -/
  performed : ∀ instruction ∈ context.code.instructions, isLive instruction.addr = true →
    ∀ read ∈ instruction.reads context.pool, read.1.number + read.2.slots ≤ context.code.registers ∧
      ∃ value, ReadsAs context instruction.addr final read value
  /-- A live instruction reads the locals of the values of its reads. -/
  reads : ∀ instruction ∈ context.code.instructions, isLive instruction.addr = true →
    ¬ body.Drops instruction →
      List.Forall₂ (fun read var =>
          ∃ value, ReadsAs context instruction.addr final read value ∧ names value = some var)
        (instruction.reads context.pool) (body.usesAt instruction.addr)
  /-- Other code reads nothing. -/
  dead : ∀ instruction ∈ context.code.instructions, isLive instruction.addr = false →
    body.usesAt instruction.addr = []
  /-- What an instruction writes is in the local of its value. -/
  held : ∀ instruction ∈ context.code.instructions, ∀ reg width var,
    instruction.definition = some (reg, width) → body.HeldIn context.code instruction var →
      ∃ value, final.values.definedAt? (.at instruction.addr) reg = some value ∧
        names value = some var
  /-- An argument is in the local of its value. -/
  arguments : ∀ arguments, Argument.ofCode context.code context.pool = .ok arguments →
    ∀ argument ∈ arguments, ∃ value var,
      final.values.definedAt? .param argument.reg = some value ∧ names value = some var ∧
        body.localOfArgument argument.source = some var
  /-- Values are paired where definitions meet. -/
  pairs : ∀ pair ∈ final.merges, PairsIn context isLive final context.code.instructions pair
  /-- Values have one local exactly if pairs connect them. -/
  webs : ∀ first < final.values.values.length, ∀ second < final.values.values.length, ∀ var other,
    names first = some var → names second = some other →
      (var = other ↔ Relation.EqvGen (fun a b => (a, b) ∈ final.merges) first second)

variable {context : LoweringContext} {isLive : Addr → Bool} {final : LoweringState}
  {names : Nat → Option Local} {body : Body}

/-- Values that pairs connect are the same, or are of connected writes. -/
theorem Correspondence.connected_writes
    (corresponds : Correspondence context isLive final names body) {first second : Nat}
    (connected : Relation.EqvGen (fun a b => (a, b) ∈ final.merges) first second) :
    first = second ∨ ∃ write other : Site × Reg,
      final.values.definedAt? write.1 write.2 = some first ∧
      final.values.definedAt? other.1 other.2 = some second ∧
      Relation.EqvGen (Meets context isLive) write other := by
  induction connected with
  | rel first second member =>
      obtain ⟨instruction, listed, lives, read, isRead, pairs⟩ := corresponds.pairs _ member
      obtain ⟨⟨d, dReaches, isFirst⟩, e, eReaches, isSecond⟩ := pairs
      exact .inr ⟨d.write, e.write, isFirst, isSecond, .rel _ _
        ⟨instruction, listed, lives, read, isRead, ⟨d, dReaches, rfl⟩, e, eReaches, rfl⟩⟩
  | refl => exact .inl rfl
  | symm first second _ ih =>
      rcases ih with rfl | ⟨write, other, isFirst, isSecond, connected⟩
      · exact .inl rfl
      · exact .inr ⟨other, write, isSecond, isFirst, .symm _ _ connected⟩
  | trans first second third _ _ ih ih' =>
      rcases ih with rfl | ⟨write, other, isFirst, isSecond, connected⟩
      · exact ih'
      · rcases ih' with rfl | ⟨write', other', isSecond', isThird, connected'⟩
        · exact .inr ⟨write, other, isFirst, isSecond, connected⟩
        · obtain rfl := ValueFile.definedAt?_injective isSecond isSecond'
          exact .inr ⟨write, other', isFirst, isThird, .trans _ _ _ connected connected'⟩

/-- Connected writes are the same, or have values that pairs connect. -/
theorem Correspondence.connected_values
    (corresponds : Correspondence context isLive final names body) {write other : Site × Reg}
    (connected : Relation.EqvGen (Meets context isLive) write other) :
    write = other ∨ ∃ first second, final.values.definedAt? write.1 write.2 = some first ∧
      final.values.definedAt? other.1 other.2 = some second ∧
      Relation.EqvGen (fun a b => (a, b) ∈ final.merges) first second := by
  induction connected with
  | rel write other meets =>
      obtain ⟨instruction, listed, lives, read, isRead, ⟨d, dReaches, rfl⟩, e, eReaches, rfl⟩ := meets
      obtain ⟨-, value, reads⟩ := corresponds.performed instruction listed lives read isRead
      obtain ⟨first, isFirst, firstConnected⟩ := reads.connected dReaches
      obtain ⟨second, isSecond, secondConnected⟩ := reads.connected eReaches
      exact .inr ⟨first, second, isFirst, isSecond,
        .trans _ _ _ firstConnected (.symm _ _ secondConnected)⟩
  | refl => exact .inl rfl
  | symm write other _ ih =>
      rcases ih with rfl | ⟨first, second, isFirst, isSecond, connected⟩
      · exact .inl rfl
      · exact .inr ⟨second, first, isSecond, isFirst, .symm _ _ connected⟩
  | trans write other third _ _ ih ih' =>
      rcases ih with rfl | ⟨first, second, isFirst, isSecond, connected⟩
      · exact ih'
      · rcases ih' with rfl | ⟨second', last, isSecond', isLast, connected'⟩
        · exact .inr ⟨first, second, isFirst, isSecond, connected⟩
        · obtain rfl := Option.some.inj (isSecond.symm.trans isSecond')
          exact .inr ⟨first, last, isFirst, isLast, .trans _ _ _ connected connected'⟩

/-- A read has the local of a write exactly if the write is linked to the read. -/
theorem Correspondence.eq_iff_linked
    (corresponds : Correspondence context isLive final names body) (write : Site × Reg) {addr : Addr}
    {read : Reg × Width} {value own : Nat} {var held : Local}
    (reads : ReadsAs context addr final read value) (isVar : names value = some var)
    (defines : final.values.definedAt? write.1 write.2 = some own) (isHeld : names own = some held) :
    var = held ↔ Linked context isLive addr read write := by
  have inside := ValueFile.lt_of_definedAt? defines
  rw [corresponds.webs value reads.lt own inside var held isVar isHeld]
  constructor
  · intro connected
    rcases corresponds.connected_writes connected with rfl | ⟨one, two, isOne, isTwo, connected⟩
    · obtain ⟨d, reaches, rfl⟩ := reads.exists_reaching defines
      exact ⟨d, reaches, .refl _⟩
    · obtain rfl := ValueFile.definedAt?_injective isTwo defines
      obtain ⟨d, reaches, rfl⟩ := reads.exists_reaching isOne
      exact ⟨d, reaches, .symm _ _ connected⟩
  · rintro ⟨d, reaches, connected⟩
    obtain ⟨first, isFirst, toRead⟩ := reads.connected reaches
    rcases corresponds.connected_values connected with rfl | ⟨one, two, isOne, isTwo, connected⟩
    · obtain rfl := Option.some.inj (isFirst.symm.trans defines)
      exact .symm _ _ toRead
    · obtain rfl := Option.some.inj (isOne.symm.trans defines)
      obtain rfl := Option.some.inj (isFirst.symm.trans isTwo)
      exact .symm _ _ (.trans _ _ _ connected toRead)

end Lift

end Dalvik
