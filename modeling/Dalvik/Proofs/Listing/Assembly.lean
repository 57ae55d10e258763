import Dalvik.Listing
import Dalvik.Proofs.Pool
import Dalvik.Proofs.Success

/-!
# What assembling an instruction comes to

An instruction line is assembled from the operands that are gathered from it,
after they are checked against the format of its opcode.
-/

namespace Dalvik.Listing

def Token.label? : Token → Option String
  | .label name => some name
  | _ => none

theorem Token.label?_eq_some_iff {token : Token} {name : String} :
    token.label? = some name ↔ token = .label name := by
  cases token <;> simp [Token.label?]

/-- Operands that are there exactly if a format has them, and a reference that is a string only
where the opcode refers to one. -/
structure Gathered.Fits (gathered : Gathered) (opcode : Opcode) : Prop where
  literal : gathered.literal.isSome = opcode.format.shape.literal
  target : gathered.target.isSome = opcode.format.shape.offset
  reference : gathered.reference.isSome = opcode.format.shape.reference
  string : ∀ kind reference, opcode.reference = some kind → gathered.reference = some reference →
    reference.kind = .string → kind = .string

namespace Draft

variable {draft : Draft} {frame : Frame} {line : Nat} {opcode : Opcode}

theorem checkPresence_eq_ok {kind : ListingOperand} {expected found : Bool} {done : Unit} :
    checkPresence line opcode kind expected found = .ok done ↔ found = expected := by
  unfold checkPresence fail
  split <;> simp_all [eq_comm]

theorem fits_of_checkOperands {gathered : Gathered}
    (checked : checkOperands line opcode gathered = .ok ()) : gathered.Fits opcode := by
  unfold checkOperands at checked
  simp only [bind_eq_ok, checkPresence_eq_ok] at checked
  obtain ⟨_, literal, _, target, _, reference, string⟩ := checked
  refine ⟨literal, target, reference, fun kind named isKind isNamed isString => ?_⟩
  rw [isKind, isNamed] at string
  dsimp only at string
  split at string
  · cases string
  · rename_i allowed
    by_contra other
    exact allowed ⟨isString, other⟩

/-! ## Gathering operands -/

/-- A property that each operand keeps holds of what a line's operands come to. -/
theorem gather_induction {property : Gathered → Prop} {tokens : List Token}
    {sofar gathered : Gathered}
    (keeps : ∀ token ∈ tokens, ∀ before after, draft.gather frame line opcode before token = .ok after →
      property before → property after)
    (gathers : tokens.foldlM (draft.gather frame line opcode) sofar = .ok gathered)
    (start : property sofar) : property gathered :=
  foldlM_induction keeps gathers start

/-- Only label operands set the target. -/
theorem gather_target {sofar gathered : Gathered} {token : Token}
    (gathers : draft.gather frame line opcode sofar token = .ok gathered) :
    match token.label? with
    | some name => ∃ addr, draft.labelAddr line name = .ok addr ∧ gathered.target = some addr
    | none => gathered.target = sofar.target := by
  cases token with
  | label name =>
      simp only [gather, bind_eq_ok, pure_eq_ok] at gathers
      obtain ⟨addr, found, rfl⟩ := gathers
      exact ⟨addr, found, rfl⟩
  | reg name =>
      simp only [gather, bind_eq_ok, pure_eq_ok] at gathers
      obtain ⟨reg, -, rfl⟩ := gathers
      rfl
  | regs names =>
      simp only [gather, bind_eq_ok, pure_eq_ok] at gathers
      obtain ⟨regs, -, rfl⟩ := gathers
      rfl
  | range first last =>
      simp only [gather, bind_eq_ok] at gathers
      obtain ⟨first, -, last, -, gathers⟩ := gathers
      split at gathers
      · cases gathers
      · obtain rfl := pure_eq_ok.mp gathers
        rfl
  | literal literal =>
      simp only [gather, bind_eq_ok, pure_eq_ok] at gathers
      obtain ⟨value, -, rfl⟩ := gathers
      rfl
  | string text =>
      obtain rfl := Except.ok.inj gathers
      rfl
  | descriptor text =>
      simp only [gather, bind_eq_ok, pure_eq_ok, Prod.exists] at gathers
      obtain ⟨pool, reference, -, rfl⟩ := gathers
      rfl

/-- Every label operand has an address, and the last one is the target. -/
theorem gathered_target {tokens : List Token} {sofar gathered : Gathered}
    (gathers : tokens.foldlM (draft.gather frame line opcode) sofar = .ok gathered) :
    ∃ addrs, (tokens.filterMap Token.label?).mapM (draft.labelAddr line) = .ok addrs ∧
      gathered.target = addrs.getLast?.or sofar.target := by
  induction tokens generalizing sofar with
  | nil =>
      obtain rfl := pure_eq_ok.mp gathers
      exact ⟨[], rfl, rfl⟩
  | cons token tokens ih =>
      rw [List.foldlM_cons, bind_eq_ok] at gathers
      obtain ⟨middle, first, rest⟩ := gathers
      obtain ⟨addrs, found, last⟩ := ih rest
      have step := gather_target first
      cases named : token.label? with
      | none =>
          rw [named] at step
          dsimp only at step
          rw [List.filterMap_cons_none named]
          exact ⟨addrs, found, by rw [last, step]⟩
      | some name =>
          rw [named] at step
          obtain ⟨addr, isAddr, target⟩ := step
          refine ⟨addr :: addrs, ?_, ?_⟩
          · rw [List.filterMap_cons_some named, List.mapM_cons, isAddr, found]
            rfl
          · rw [last, target, List.getLast?_cons]
            cases addrs.getLast? <;> rfl

/-- A descriptor interns an item of the section that the opcode names. -/
theorem internReference_interns {pool later : Pool} {text : List Char} {reference : PoolRef}
    (interned : internReference line pool opcode text = .ok (later, reference)) :
    ∃ item : PoolItem, opcode.reference = some item.kind ∧
      pool.intern item = (later, reference.index) ∧ reference.kind = item.kind := by
  unfold internReference at interned
  split at interned
  · rename_i names
    simp only [bind_eq_ok, pure_eq_ok, Prod.mk.injEq] at interned
    obtain ⟨type, -, rfl, rfl⟩ := interned
    exact ⟨.type type, names, rfl, rfl⟩
  · rename_i names
    simp only [bind_eq_ok] at interned
    obtain ⟨⟨owner, member⟩, -, interned⟩ := interned
    dsimp only at interned
    split at interned
    · cases interned
    · simp only [bind_eq_ok, pure_eq_ok, Prod.mk.injEq] at interned
      obtain ⟨owner, -, type, -, rfl, rfl⟩ := interned
      exact ⟨.field _, names, rfl, rfl⟩
  · rename_i names
    simp only [bind_eq_ok] at interned
    obtain ⟨⟨owner, member⟩, -, interned⟩ := interned
    dsimp only at interned
    split at interned
    · cases interned
    · simp only [bind_eq_ok, pure_eq_ok, Prod.mk.injEq] at interned
      obtain ⟨owner, -, prototype, -, rfl, rfl⟩ := interned
      exact ⟨.method _, names, rfl, rfl⟩
  all_goals cases interned

/-- An operand leaves the pool and the reference as they are, or interns the item that the
reference is to: a string, or an item of the section that the opcode names. -/
theorem gather_interns {sofar gathered : Gathered} {token : Token}
    (gathers : draft.gather frame line opcode sofar token = .ok gathered) :
    (gathered.pool = sofar.pool ∧ gathered.reference = sofar.reference) ∨
      ∃ (item : PoolItem) (reference : PoolRef),
        sofar.pool.intern item = (gathered.pool, reference.index) ∧
          gathered.reference = some reference ∧ reference.kind = item.kind ∧
          (item.kind = .string ∨ opcode.reference = some item.kind) := by
  cases token with
  | string text =>
      obtain rfl := Except.ok.inj gathers
      exact .inr ⟨.string text, _, rfl, rfl, rfl, .inl rfl⟩
  | descriptor text =>
      simp only [gather, bind_eq_ok, pure_eq_ok, Prod.exists] at gathers
      obtain ⟨pool, reference, interned, rfl⟩ := gathers
      obtain ⟨item, names, isItem, same⟩ := internReference_interns interned
      exact .inr ⟨item, reference, isItem, rfl, same, .inr names⟩
  | range first last =>
      simp only [gather, bind_eq_ok] at gathers
      obtain ⟨first, -, last, -, gathers⟩ := gathers
      split at gathers
      · cases gathers
      · obtain rfl := pure_eq_ok.mp gathers
        exact .inl ⟨rfl, rfl⟩
  | _ =>
      simp only [gather, bind_eq_ok, pure_eq_ok] at gathers
      obtain ⟨_, -, rfl⟩ := gathers
      exact .inl ⟨rfl, rfl⟩

/-- A reference is a string or to the section that the opcode names. -/
theorem gather_reference {sofar gathered : Gathered} {token : Token}
    (gathers : draft.gather frame line opcode sofar token = .ok gathered)
    (named : ∀ reference, sofar.reference = some reference →
      reference.kind = .string ∨ opcode.reference = some reference.kind) :
    ∀ reference, gathered.reference = some reference →
      reference.kind = .string ∨ opcode.reference = some reference.kind := by
  intro reference isReference
  rcases gather_interns gathers with ⟨-, same⟩ | ⟨item, own, -, isOwn, kind, allowed⟩
  · exact named reference (same.symm.trans isReference)
  · obtain rfl := Option.some.inj (isReference.symm.trans isOwn)
    rwa [kind]

/-! ## Assembling instructions -/

/-- An instruction that the operands of a line are assembled to. -/
structure Assembled (draft : Draft) (frame : Frame) (pending : DraftInstruction)
    (gathered : Gathered) (instruction : Instruction) : Prop where
  addr : instruction.addr = pending.addr
  opcodeByte : instruction.opcodeByte = pending.opcode.value
  format : instruction.format = pending.opcode.format
  regs : instruction.regs = gathered.regs
  literal : instruction.literal = gathered.literal
  reference : instruction.reference = gathered.reference
  gathers : ∃ pool, pending.tokens.foldlM (draft.gather frame pending.line pending.opcode)
    { pool } = .ok gathered
  fits : gathered.Fits pending.opcode
  offset : gathered.target.mapM (offsetTo pending.line pending.addr) = .ok instruction.offset
  payload : instruction.format = .f31t → ∃ target payload, gathered.target = some target ∧
    draft.payloadAt pending.line pending.opcode pending.addr target = .ok payload ∧
    instruction.payload = some payload
  noPayload : instruction.format ≠ .f31t → instruction.payload = none
  encodes : Binary.encode pending.opcode
    { regs := gathered.regs
      literal := gathered.literal
      offset := instruction.offset
      index := gathered.reference.map PoolRef.index } = .ok instruction.units

theorem atLine_eq_ok {α : Type} {result : Except CodeError α} {value : α} :
    atLine line result = .ok value ↔ result = .ok value := by
  unfold atLine fail
  split <;> simp_all

theorem assembled_of_ok {pool later : Pool} {pending : DraftInstruction} {instruction : Instruction}
    (success : draft.assembleInstruction frame pool pending = .ok (later, instruction)) :
    ∃ gathered, later = gathered.pool ∧ Assembled draft frame pending gathered instruction := by
  simp only [assembleInstruction, bind_eq_ok] at success
  obtain ⟨gathered, gathers, _, checked, offset, offsets, success⟩ := success
  have fits := fits_of_checkOperands checked
  refine ⟨gathered, ?_⟩
  split at success
  · rename_i target isTable leads
    simp only [bind_eq_ok, pure_eq_ok, Prod.mk.injEq, atLine_eq_ok] at success
    obtain ⟨payload, found, units, encodes, rfl, rfl⟩ := success
    obtain ⟨table, placed, rfl⟩ := map_eq_ok.mp found
    refine ⟨rfl, rfl, rfl, rfl, rfl, rfl, rfl, ⟨pool, gathers⟩, fits, offsets, ?_, ?_, encodes⟩
    · exact fun _ => ⟨target, table, leads, placed, rfl⟩
    · exact fun other => absurd isTable other
  · rename_i other
    simp only [bind_eq_ok, pure_eq_ok, Prod.mk.injEq, atLine_eq_ok] at success
    obtain ⟨payload, nothing, units, encodes, rfl, rfl⟩ := success
    obtain rfl := Except.ok.inj nothing
    refine ⟨rfl, rfl, rfl, rfl, rfl, rfl, rfl, ⟨pool, gathers⟩, fits, offsets, ?_, ?_, encodes⟩
    · intro isTable
      change pending.opcode.format = .f31t at isTable
      have leads : gathered.target.isSome = true := by
        rw [fits.target, isTable]
        rfl
      obtain ⟨target, leads⟩ := Option.isSome_iff_exists.mp leads
      exact (other target isTable leads).elim
    · exact fun _ => rfl

/-- Each line of a draft is assembled to one instruction. -/
theorem assembled_of_instructions {pool later : Pool} {lines : List DraftInstruction}
    {instructions : List Instruction}
    (success : draft.assembleInstructions frame pool lines = .ok (later, instructions)) :
    List.Forall₂ (fun pending instruction =>
      ∃ gathered, Assembled draft frame pending gathered instruction) lines instructions := by
  induction lines generalizing pool later instructions with
  | nil =>
      obtain ⟨rfl, rfl⟩ := Prod.mk.inj (Except.ok.inj success)
      exact .nil
  | cons first rest ih =>
      simp only [assembleInstructions, bind_eq_ok, pure_eq_ok, Prod.exists, Prod.mk.injEq] at success
      obtain ⟨_, instruction, one, _, others, more, rfl, rfl⟩ := success
      obtain ⟨gathered, -, assembled⟩ := assembled_of_ok one
      exact .cons ⟨gathered, assembled⟩ (ih more)

/-- The code of a draft has its frame, and the instructions that its lines are assembled to. -/
theorem assembled_of_assemble {pool later : Pool} {code : Code}
    (success : draft.assemble pool = .ok (later, code)) :
    ∃ frame instructions, (draft.frame = .ok frame ∧ code.registers = frame.registers) ∧
      code.instructions = instructions.mergeSort (fun a b => a.addr ≤ b.addr) ∧
      List.Forall₂ (fun pending instruction =>
        ∃ gathered, Assembled draft frame pending gathered instruction)
        draft.instructions instructions := by
  simp only [assemble, bind_eq_ok, pure_eq_ok, Prod.exists, Prod.mk.injEq] at success
  obtain ⟨frame, isFrame, _, instructions, assembled, _, tries, -, -, rfl⟩ := success
  exact ⟨frame, instructions, ⟨isFrame, rfl⟩, rfl, assembled_of_instructions assembled⟩

end Draft

end Dalvik.Listing
