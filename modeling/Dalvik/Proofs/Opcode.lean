import Dalvik.Instruction
import Mathlib.Data.List.Chain

/-!
# Facts of the opcode table

The byte of an opcode stands for no other one, and what an opcode refers to and
how its literal is stored agree with its format.
-/

namespace Dalvik

theorem Format.size_pos (format : Format) : 0 < format.size := by
  cases format <;> decide

namespace Opcode

theorem mem_all (opcode : Opcode) : opcode ∈ all := by
  have listed : all[opcode.ctorIdx]? = some opcode := by
    cases opcode <;> rfl
  exact List.mem_of_getElem? listed

/-- The table is in the order of its bytes. -/
theorem ascending_all : all.Pairwise fun earlier later => earlier.value < later.value := by
  have chain : all.IsChain fun earlier later => earlier.value < later.value := by
    decide +kernel
  exact List.isChain_iff_pairwise.mp chain

/-- An opcode is found by its byte. -/
@[simp] theorem ofValue?_value (opcode : Opcode) : ofValue? opcode.value = some opcode := by
  obtain ⟨before, after, split⟩ := List.append_of_mem opcode.mem_all
  have ordered := ascending_all
  rw [split] at ordered
  rw [ofValue?, split]
  refine List.find?_eq_some_iff_append.mpr ⟨beq_self_eq_true _, before, after, rfl, ?_⟩
  intro earlier member
  have less := (List.pairwise_append.mp ordered).2.2 earlier member opcode List.mem_cons_self
  simpa using (UInt8.ne_of_lt less)

theorem value_of_ofValue? {value : UInt8} {opcode : Opcode} (found : ofValue? value = some opcode) :
    opcode.value = value :=
  eq_of_beq (List.find?_some (p := fun opcode : Opcode => opcode.value == value) found)

/-- Only `nop` has the byte that opens data tables. -/
theorem eq_nop_of_value {opcode : Opcode} (zero : opcode.value = 0) : opcode = .nop := by
  have found := ofValue?_value opcode
  rw [zero] at found
  exact (Option.some.inj found).symm

/-- An opcode refers to a pool section exactly if its format has a reference. -/
theorem isSome_reference (opcode : Opcode) :
    opcode.reference.isSome = opcode.format.shape.reference := by
  cases opcode <;> rfl

/-- The opcodes of switches take a table. -/
theorem format_of_switch {opcode : Opcode} (family : opcode.family = .switch) :
    opcode.format = .f31t := by
  cases opcode <;> first | rfl | cases family

/-- Only `high16` constants store their literal shifted. -/
theorem literalShift_of_f21s {opcode : Opcode} (format : opcode.format = .f21s) :
    opcode.literalShift = 0 := by
  cases opcode <;> first | rfl | cases format

end Opcode

/-- An instruction that passes the check for an opcode has the operands that the
format of the opcode asks for. -/
theorem Instruction.operands_of_shape {instruction : Instruction} {opcode : Opcode}
    (fits : instruction.shapeFault? opcode = none) :
    instruction.literal.isSome = opcode.format.shape.literal ∧
      instruction.offset.isSome = opcode.format.shape.offset ∧
      instruction.reference.isSome = opcode.format.shape.reference ∧
      instruction.payload.isSome = opcode.format.shape.payload := by
  unfold shapeFault? at fits
  dsimp only at fits
  split at fits
  · cases fits
  · split at fits
    · cases fits
    · simp only [Option.or_eq_none_iff, presenceFault, ite_eq_left_iff, reduceCtorEq, imp_false,
        not_not] at fits
      obtain ⟨literal, offset, reference, payload, -⟩ := fits
      exact ⟨literal.symm, offset.symm, reference.symm, payload.symm⟩

end Dalvik
