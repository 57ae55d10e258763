import Dalvik.Register
import Mathlib.Data.List.Basic

/-!
# Registers and their numbers
-/

namespace Dalvik

/-- A register is known by its number. -/
@[simp] theorem Reg.ofNat_number (reg : Reg) : Reg.ofNat reg.number = reg := by
  simp [Reg.ofNat, Reg.number]

theorem Reg.number_ofNat (number : Nat) : (Reg.ofNat number).number = number % 65536 :=
  rfl

theorem Reg.number_ofNat_of_lt {number : Nat} (small : number < 65536) :
    (Reg.ofNat number).number = number := by
  simp only [Reg.ofNat, Reg.number, Fin.val_ofNat]
  omega

theorem Reg.number_lt (reg : Reg) : reg.number < 65536 :=
  reg.index.isLt

/-- The register after one that is not the last. -/
theorem Reg.number_next {reg : Reg} (inside : reg.number + 1 < 65536) :
    reg.next.number = reg.number + 1 := by
  rw [next, if_neg (by omega), number_ofNat_of_lt inside]

theorem Reg.fits_iff (reg : Reg) (bits : Nat) :
    reg.fits bits = true ↔ 16 ≤ bits ∨ reg.number < span bits := by
  simp [Reg.fits]

end Dalvik
