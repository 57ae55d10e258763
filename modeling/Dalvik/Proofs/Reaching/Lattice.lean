import Dalvik.Proofs.Reaching.State
import Mathlib.Order.Hom.Lattice

/-!
# The lattice of a frame

The states that have the registers of one frame are closed under the join and under what
instructions do.  They form a join semilattice, and each instruction is a homomorphism of
it: whether two paths are joined before or after an instruction makes no difference.
-/

namespace Dalvik

def FrameState (frame : RegisterFrame) : Type :=
  { state : Reaching // state.regs.length = frame.registers }

namespace FrameState

variable {frame : RegisterFrame}

instance : Inhabited (FrameState frame) :=
  ⟨⟨.init frame, Reaching.length_init frame⟩⟩

instance : SemilatticeSup (FrameState frame) :=
  Subtype.semilatticeSup fun first second one two =>
    (Reaching.length_join first second).trans (by rw [one, two, max_self])

/-- States of one frame are ordered by inclusion. -/
theorem le_iff {first second : FrameState frame} :
    first ≤ second ↔ ∀ number d, first.1.Holds number d → second.1.Holds number d :=
  and_iff_right (Nat.le_of_eq (first.2.trans second.2.symm))

def transfer (frame : RegisterFrame) (instruction : Instruction) :
    SupHom (FrameState frame) (FrameState frame) where
  toFun state := ⟨state.1.transfer instruction, (Reaching.length_transfer _ _).trans state.2⟩
  map_sup' first second :=
    Subtype.ext (Reaching.transfer_join (first.2.trans second.2.symm) instruction)

/-- The states of a frame are a join semilattice in the order of inclusion; what an
instruction does to them distributes over the join and keeps the order. -/
theorem join_laws (first second third : FrameState frame) (instruction : Instruction) :
    first.1.join second.1 = second.1.join first.1 ∧
      (first.1.join second.1).join third.1 = first.1.join (second.1.join third.1) ∧
      first.1.join first.1 = first.1 ∧
      (first.1.join second.1 = second.1 ↔
        ∀ number d, first.1.Holds number d → second.1.Holds number d) ∧
      (first.1.join second.1).transfer instruction =
        (first.1.transfer instruction).join (second.1.transfer instruction) ∧
      ((∀ number d, first.1.Holds number d → second.1.Holds number d) → ∀ number d,
        (first.1.transfer instruction).Holds number d →
          (second.1.transfer instruction).Holds number d) := by
  have absorbs : first ⊔ second = second ↔ first.1.join second.1 = second.1 := Subtype.ext_iff
  have distributes : transfer frame instruction (first ⊔ second) =
      transfer frame instruction first ⊔ transfer frame instruction second := map_sup _ _ _
  have monotone : Monotone (transfer frame instruction) := OrderHomClass.mono _
  refine ⟨sup_comm first.1 second.1, sup_assoc first.1 second.1 third.1, sup_idem first.1, ?_, ?_, ?_⟩
  · rw [← absorbs, sup_eq_right, le_iff]
  · exact congrArg Subtype.val distributes
  · intro included
    exact le_iff.mp (monotone (le_iff.mpr included))

end FrameState

end Dalvik
