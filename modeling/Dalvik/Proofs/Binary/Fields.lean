import Dalvik.Binary.Units
import Dalvik.Proofs.Register
import Mathlib.Data.List.Basic

/-!
# Fields of code units, read back

A field that is written into a code unit is read back from it, a signed number
that fits its field from its two's complement, and units from their bytes.
-/

namespace Dalvik

namespace Binary

/-! ## Signed fields -/

theorem span_0 : span 0 = 1 := rfl

theorem span_4 : span 4 = 16 := rfl

theorem span_8 : span 8 = 256 := rfl

theorem span_16 : span 16 = 65536 := rfl

theorem span_32 : span 32 = 4294967296 := rfl

theorem span_pos (bits : Nat) : 0 < span bits :=
  Nat.pow_pos (by decide)

/-- A field of one more bit holds twice as many numbers. -/
theorem span_eq_double {bits : Nat} (some : 0 < bits) : span bits = 2 * span (bits - 1) := by
  obtain ⟨fewer, rfl⟩ : ∃ fewer, bits = fewer + 1 := ⟨bits - 1, by omega⟩
  simp only [span, Nat.add_sub_cancel, Nat.pow_eq, Nat.pow_succ]
  omega

theorem fitsSigned_iff (bits : Nat) (value : Int) :
    fitsSigned bits value = true ↔
      -(span (bits - 1) : Int) ≤ value ∧ value < (span (bits - 1) : Int) := by
  simp [fitsSigned]

theorem unsigned_lt (bits : Nat) (value : Int) : unsigned bits value < span bits := by
  have positive := span_pos bits
  have below := Int.emod_lt_of_pos value (Int.natCast_pos.mpr positive)
  unfold unsigned
  omega

/-- A number that fits a signed field is read back from it. -/
theorem signed_unsigned {bits : Nat} {value : Int} (some : 0 < bits)
    (fits : fitsSigned bits value = true) : signed bits (unsigned bits value) = value := by
  obtain ⟨least, most⟩ := (fitsSigned_iff bits value).mp fits
  have double := span_eq_double some
  have whole : (span bits : Int) = 2 * (span (bits - 1) : Int) := by omega
  unfold signed unsigned
  by_cases negative : value < 0
  · have shifted : value % (span bits : Int) = value + span bits := by
      rw [← Int.add_emod_right, Int.emod_eq_of_lt (by omega) (by omega)]
    rw [shifted, if_neg (by omega)]
    omega
  · rw [Int.emod_eq_of_lt (by omega) (by omega), if_pos (by omega)]
    omega

/-- What a signed field is read as fits it. -/
theorem fitsSigned_signed {bits number : Nat} (some : 0 < bits) (small : number < span bits) :
    fitsSigned bits (signed bits number) = true := by
  have double := span_eq_double some
  rw [fitsSigned_iff]
  unfold signed
  split <;> omega

theorem unsigned_signed {bits number : Nat} (small : number < span bits) :
    unsigned bits (signed bits number) = number := by
  unfold signed unsigned
  split
  · rw [Int.emod_eq_of_lt (by omega) (by omega), Int.toNat_natCast]
  · rw [Int.sub_emod_right, Int.emod_eq_of_lt (by omega) (by omega), Int.toNat_natCast]

/-- A signed field is at most half its span away from zero. -/
theorem signed_bounds {bits number : Nat} (some : 0 < bits) (small : number < span bits) :
    -(span (bits - 1) : Int) ≤ signed bits number ∧ signed bits number < span (bits - 1) :=
  (fitsSigned_iff bits _).mp (fitsSigned_signed some small)

theorem span_mono {bits more : Nat} (fewer : bits ≤ more) : span bits ≤ span more :=
  Nat.pow_le_pow_right (by decide) fewer

/-- A signed field is a number of each type that has its bits. -/
theorem signed_within {bits most number : Nat} (some : 0 < bits) (fits : bits ≤ most)
    (small : number < span bits) :
    -(span (most - 1) : Int) ≤ signed bits number ∧ signed bits number < span (most - 1) := by
  have half : (span (bits - 1) : Int) ≤ span (most - 1) :=
    Int.ofNat_le.mpr (span_mono (Nat.sub_le_sub_right fits 1))
  obtain ⟨least, greatest⟩ := signed_bounds some small
  exact ⟨Int.le_trans (Int.neg_le_neg half) least, Int.lt_of_lt_of_le greatest half⟩

/-! ## Parts of a unit -/

theorem lowByte_lt (unit : UInt16) : lowByte unit < 256 :=
  Nat.mod_lt _ (by decide)

theorem highByte_lt (unit : UInt16) : highByte unit < 256 := by
  have small := unit.toNat_lt
  unfold highByte
  omega

theorem toNat_ofNat16 {number : Nat} (small : number < 65536) :
    (UInt16.ofNat number).toNat = number :=
  UInt16.toNat_ofNat_of_lt' small

/-- The low byte of a unit does not depend on what is written above it. -/
theorem lowByte_unitOfBytes {low : Nat} (high : Nat) (byte : low < 256) :
    lowByte (unitOfBytes low high) = low := by
  simp only [lowByte, unitOfBytes, UInt16.toNat_ofNat']
  omega

theorem highByte_unitOfBytes {low high : Nat} (byte : low < 256) (above : high < 256) :
    highByte (unitOfBytes low high) = high := by
  rw [highByte, unitOfBytes, toNat_ofNat16 (by omega)]
  omega

theorem unitOfNibbles_eq (low third fourth : Nat) :
    unitOfNibbles low third fourth = unitOfBytes low (third + 16 * fourth) := by
  simp only [unitOfNibbles, unitOfBytes]
  congr 1
  omega

theorem lowNibble_pair {third : Nat} (fourth : Nat) (nibble : third < 16) :
    lowNibble (third + 16 * fourth) = third := by
  unfold lowNibble
  omega

theorem highNibble_pair {third fourth : Nat} (nibble : third < 16) (above : fourth < 16) :
    highNibble (third + 16 * fourth) = fourth := by
  unfold highNibble
  omega

/-- A unit is made of its two bytes. -/
theorem unitOfBytes_bytes (unit : UInt16) : unitOfBytes (lowByte unit) (highByte unit) = unit := by
  apply UInt16.toNat_inj.mp
  have small := unit.toNat_lt
  simp only [unitOfBytes, lowByte, highByte, UInt16.toNat_ofNat']
  omega

/-! ## Words of several units -/

theorem word32_units {number : Nat} (small : number < 4294967296) :
    word32 (UInt16.ofNat number) (UInt16.ofNat (number / 65536)) = number := by
  simp only [word32, UInt16.toNat_ofNat']
  omega

theorem word64_units {number : Nat} (small : number < span 64) :
    word64 (UInt16.ofNat number) (UInt16.ofNat (number / 65536))
        (UInt16.ofNat (number / 4294967296)) (UInt16.ofNat (number / 4294967296 / 65536)) =
      number := by
  have bound : number < 18446744073709551616 := small
  simp only [word64, word32, UInt16.toNat_ofNat']
  omega

/-! ## Units and bytes -/

@[simp] theorem bytesOfUnits_cons (unit : UInt16) (units : List UInt16) :
    bytesOfUnits (unit :: units) =
      UInt8.ofNat (lowByte unit) :: UInt8.ofNat (highByte unit) :: bytesOfUnits units := rfl

@[simp] theorem bytesOfUnits_append (units more : List UInt16) :
    bytesOfUnits (units ++ more) = bytesOfUnits units ++ bytesOfUnits more :=
  List.flatMap_append

@[simp] theorem length_bytesOfUnits (units : List UInt16) :
    (bytesOfUnits units).length = 2 * units.length := by
  induction units with
  | nil => rfl
  | cons unit units ih =>
      rw [bytesOfUnits_cons, List.length_cons, List.length_cons, ih, List.length_cons]
      omega

/-- The bytes of units are the units' bytes and nothing else. -/
@[simp] theorem unitsOfBytes_bytesOfUnits (units : List UInt16) :
    unitsOfBytes (bytesOfUnits units) = units := by
  induction units with
  | nil => rfl
  | cons unit units ih =>
      rw [bytesOfUnits_cons, unitsOfBytes, ih, UInt8.toNat_ofNat_of_lt' (lowByte_lt unit),
        UInt8.toNat_ofNat_of_lt' (highByte_lt unit), unitOfBytes_bytes]

/-- Two bytes are stored as the unit that is made of them. -/
theorem bytesOfUnits_unitOfBytes (low high : UInt8) (units : List UInt16) :
    bytesOfUnits (unitOfBytes low.toNat high.toNat :: units) = low :: high :: bytesOfUnits units := by
  rw [bytesOfUnits_cons, lowByte_unitOfBytes _ low.toNat_lt,
    highByte_unitOfBytes low.toNat_lt high.toNat_lt, UInt8.ofNat_toNat, UInt8.ofNat_toNat]

/-- An even number of bytes is stored as the units that are made of them. -/
theorem bytesOfUnits_unitsOfBytes {count : Nat} {block : List UInt8}
    (even : block.length = 2 * count) : bytesOfUnits (unitsOfBytes block) = block := by
  induction count generalizing block with
  | zero =>
      obtain rfl := List.length_eq_zero_iff.mp even
      rfl
  | succ count ih =>
      match block, even with
      | low :: high :: others, even =>
          have fewer : others.length = 2 * count := by
            simp only [List.length_cons] at even
            omega
          rw [unitsOfBytes, bytesOfUnits_unitOfBytes, ih fewer]

end Binary

end Dalvik
