import Dalvik.Proofs.Binary.RoundTrip
import Dalvik.Proofs.Binary.Tiling

/-!
# Encoding what is decoded

The operands that the decoder reads from code units fit their fields, so that
they are encoded again, and decoding the result reads the same operands.  Where
every bit of the units is part of an operand, the units come out as they were.
-/

namespace Dalvik

namespace Opcode

theorem literalShift_cases (opcode : Opcode) :
    opcode.literalShift = 0 ∨ opcode.literalShift = 16 ∨ opcode.literalShift = 48 := by
  unfold literalShift
  split <;> decide

end Opcode

namespace Instruction

def operands (instruction : Instruction) : Operands where
  regs := instruction.regs
  literal := instruction.literal
  offset := instruction.offset
  index := instruction.reference.map PoolRef.index

/-- A range of registers that would go past the last one. -/
def RunsPast (instruction : Instruction) : Prop :=
  instruction.format = .f3rc ∧
    65536 < (instruction.units.getD 2 0).toNat + Binary.highByte (instruction.units.getD 0 0)

/-- An instruction with bits that are part of no operand, or are not always. -/
def HasIdleBits (instruction : Instruction) : Prop :=
  instruction.format ∈ [.f10x, .f20t, .f30t, .f32x, .f35c] ∨
    instruction.format = .f3rc ∧ instruction.regs = []

end Instruction

namespace Binary

/-! ## Units from their parts -/

theorem lowNibble_lt (byte : Nat) : lowNibble byte < 16 :=
  Nat.mod_lt _ (by decide)

theorem highNibble_lt (byte : Nat) : highNibble byte < 16 :=
  Nat.mod_lt _ (by decide)

/-- A unit of a byte and the nibbles of another is made of both bytes. -/
theorem unitOfNibbles_byte {byte : Nat} (low : Nat) (small : byte < 256) :
    unitOfNibbles low (lowNibble byte) (highNibble byte) = unitOfBytes low byte := by
  rw [unitOfNibbles_eq]
  congr 1
  unfold lowNibble highNibble
  omega

theorem word32_lt (low high : UInt16) : word32 low high < 4294967296 := by
  have smallLow := low.toNat_lt
  have smallHigh := high.toNat_lt
  unfold word32
  omega

theorem word64_lt (first second third fourth : UInt16) :
    word64 first second third fourth < span 64 := by
  have low := word32_lt first second
  have high := word32_lt third fourth
  change _ < 18446744073709551616
  unfold word64
  omega

/-- A word is written as the units it is read from, whatever is above it. -/
theorem units32_word32 (low high : UInt16) (above : Nat) :
    units32 (word32 low high + 4294967296 * above) = [low, high] := by
  have smallLow := low.toNat_lt
  have smallHigh := high.toNat_lt
  have first : UInt16.ofNat (word32 low high + 4294967296 * above) = low := by
    apply UInt16.toNat_inj.mp
    simp only [word32, UInt16.toNat_ofNat']
    omega
  have second : UInt16.ofNat ((word32 low high + 4294967296 * above) / 65536) = high := by
    apply UInt16.toNat_inj.mp
    simp only [word32, UInt16.toNat_ofNat']
    omega
  rw [units32, first, second]

theorem units64_word64 (first second third fourth : UInt16) :
    units64 (word64 first second third fourth) = [first, second, third, fourth] := by
  have small := word32_lt first second
  have upper : word64 first second third fourth / 4294967296 = word32 third fourth + 0 := by
    unfold word64
    omega
  rw [units64, upper, word64, units32_word32, units32_word32 third fourth 0]
  rfl

/-! ## Registers of several formats -/

/-- Registers that are read from nibbles are written to nibbles. -/
theorem exists_encodeNibbles {nibbles : List Nat} (small : ∀ nibble ∈ nibbles, nibble < 16)
    (count position : Nat) :
    ∃ written, encodeNibbles (nibbles.map decodeReg) count position = .ok written := by
  induction count generalizing position with
  | zero => exact ⟨[], rfl⟩
  | succ count ih =>
      obtain ⟨others, rest⟩ := ih (position + 1)
      rw [encodeNibbles]
      split
      · rename_i inside
        rw [List.length_map] at inside
        have found : encodeReg (nibbles.map decodeReg) position 4 = .ok nibbles[position] := by
          refine (encodeReg_eq_ok (by decide)).mpr ⟨?_, small _ (List.getElem_mem inside)⟩
          rw [List.getElem?_map, List.getElem?_eq_getElem inside]
          rfl
        exact ⟨nibbles[position] :: others, by rw [found, rest]; rfl⟩
      · exact ⟨0 :: others, by rw [rest]; rfl⟩

theorem length_decodeRange (first count : Nat) : (decodeRange first count).length = count := by
  rw [decodeRange, List.length_map, List.length_range]

theorem getElem?_decodeRange {first count i : Nat} (inside : i < count) :
    (decodeRange first count)[i]? = some (decodeReg (min (first + i) 65535)) := by
  rw [decodeRange, List.getElem?_map, List.getElem?_range inside]
  rfl

theorem number_of_consecutive {number i : Nat} {regs : List Reg} {reg : Reg}
    (follow : consecutive number regs = true) (found : regs[i]? = some reg) :
    reg.number = number + i := by
  induction regs generalizing number i with
  | nil => cases found
  | cons head regs ih =>
      simp only [consecutive, Bool.and_eq_true, beq_iff_eq] at follow
      cases i with
      | zero =>
          obtain rfl := Option.some.inj found
          exact follow.1
      | succ i =>
          have later := ih follow.2 found
          omega

/-- A range is a row of registers that follow one another if it ends at the last one. -/
theorem consecutive_decodeRange {first count : Nat} (inside : first + count ≤ 65536) :
    consecutive first (decodeRange first count) = true := by
  induction count generalizing first with
  | zero => rfl
  | succ count ih =>
      have here : decodeReg (min (first + 0) 65535) = Reg.ofNat first := by
        rw [Nat.add_zero, Nat.min_eq_left (by omega)]
        rfl
      have later : (List.range count).map
          ((fun i => decodeReg (min (first + i) 65535)) ∘ Nat.succ) =
            decodeRange (first + 1) count := by
        refine List.map_congr_left fun i _ => ?_
        simp only [Function.comp_apply, Nat.succ_eq_add_one]
        congr 2
        omega
      rw [decodeRange, List.range_succ_eq_map, List.map_cons, List.map_map, here, later,
        consecutive, Reg.number_ofNat_of_lt (by omega), beq_self_eq_true, Bool.true_and]
      exact ih (by omega)

/-! ## One instruction -/

section

variable {opcode : Opcode} {units : List UInt16}

/-- The operands that are read are those of the format. -/
theorem suits_decodeOperands : (decodeOperands opcode units).Suits opcode.format.shape := by
  cases format : opcode.format
  all_goals
    simp only [decodeOperands, format]
    exact ⟨rfl, rfl, rfl⟩

/-- As many registers are read as the format has. -/
theorem accepts_decodeOperands :
    opcode.format.shape.registers.accepts (decodeOperands opcode units).regs.length = true := by
  cases format : opcode.format
  case f35c =>
    simp only [decodeOperands, format, Format.shape, RegisterCount.accepts, List.length_map,
      List.length_take, decide_eq_true_eq]
    exact Nat.min_le_right _ _
  all_goals
    simp only [decodeOperands, format]
    rfl

/-- The operands of a decoded instruction are those read from its units. -/
theorem operands_decodeInstruction (addr : Addr) :
    (decodeInstruction addr opcode units).operands = decodeOperands opcode units := by
  have together : (decodeOperands opcode units).index.isSome = opcode.reference.isSome := by
    rw [suits_decodeOperands.index, opcode.isSome_reference]
  unfold Instruction.operands decodeInstruction
  generalize decodeOperands opcode units = operands at together ⊢
  obtain ⟨regs, literal, offset, index⟩ := operands
  cases index <;> cases isKind : opcode.reference <;> simp_all

/-- A literal of 16 bits has at most 64 bits when it is shifted. -/
theorem toInt_shifted (opcode : Opcode) {number : Nat} (small : number < 65536) :
    (Int64.ofInt (signed 16 number * (span opcode.literalShift : Int))).toInt =
      signed 16 number * (span opcode.literalShift : Int) := by
  have sixteen : 0 < 16 := by decide
  obtain ⟨least, less⟩ := signed_bounds sixteen small
  change -32768 ≤ signed 16 number at least
  change signed 16 number < 32768 at less
  have shifts : span opcode.literalShift = 1 ∨ span opcode.literalShift = 65536 ∨
      span opcode.literalShift = 281474976710656 := by
    rcases opcode.literalShift_cases with shift | shift | shift
    all_goals
      rw [shift]
      decide
  apply Int64.toInt_ofInt_of_le
  · change (-9223372036854775808 : Int) ≤ _
    rcases shifts with shift | shift | shift <;> rw [shift] <;> omega
  · change _ < (9223372036854775808 : Int)
    rcases shifts with shift | shift | shift <;> rw [shift] <;> omega

/-- Units all of whose bits are operands are written as they were read. -/
theorem encodeFormat_decodeOperands (counted : units.length = opcode.format.size)
    (opens : lowByte (units.getD 0 0) = opcode.value.toNat)
    (full : opcode.format ∉ [.f10x, .f20t, .f30t, .f32x, .f35c, .f3rc]) :
    encodeFormat opcode (decodeOperands opcode units) = .ok units := by
  cases format : opcode.format
  all_goals
    simp only [format, Format.size, List.mem_cons, List.not_mem_nil, reduceCtorEq, or_self, or_false,
      or_true, not_true_eq_false, not_false_eq_true] at counted full
  case' f12x | f11n | f11x | f10t =>
    obtain ⟨first, rfl⟩ := List.length_eq_one_iff.mp counted
  case' f22x | f21t | f21s | f21h | f21c | f23x | f22b | f22t | f22s | f22c =>
    obtain ⟨first, second, rfl⟩ := List.length_eq_two.mp counted
    have small : second.toNat < 65536 := second.toNat_lt
    have smallLow := lowByte_lt second
    have smallHigh := highByte_lt second
  case' f31t | f31i | f31c =>
    obtain ⟨first, second, third, rfl⟩ := List.length_eq_three.mp counted
    have small := word32_lt second third
    have words : units32 (word32 second third) = [second, third] := units32_word32 second third 0
  case' f51l =>
    obtain ⟨first, _, rfl⟩ := List.exists_cons_of_length_eq_add_one counted
    obtain ⟨second, _, rfl⟩ := List.exists_cons_of_length_eq_add_one (Nat.succ.inj counted)
    obtain ⟨third, fourth, fifth, rfl⟩ :=
      List.length_eq_three.mp (Nat.succ.inj (Nat.succ.inj counted))
    have small := word64_lt second third fourth fifth
  all_goals
    have above := highByte_lt first
    have nibbleLow := lowNibble_lt (highByte first)
    have nibbleHigh := highNibble_lt (highByte first)
    simp only [List.getD_cons_zero] at opens
    simp only [encodeFormat, decodeOperands, format, List.getD_cons_zero, List.getD_cons_succ,
      bind_eq_ok, pure_eq_ok, encodeReg_eq_ok, encodeLiteral_eq_ok, encodeOffset_eq_ok,
      encodeIndex_eq_ok, Nat.reduceLeDiff, Nat.reduceLT, span_4, span_8, span_16,
      span_32, Opcode.literalShift_of_f21s, span_0, Int.natCast_one, Int.mul_one]
  case f11x | f10t =>
    exact ⟨_, ⟨rfl, ‹_›⟩, by rw [← opens, unitOfBytes_bytes]⟩
  case f12x | f11n =>
    exact ⟨_, ⟨rfl, ‹_›⟩, _, ⟨rfl, ‹_›⟩, by
      rw [← opens, unitOfNibbles_byte _ above, unitOfBytes_bytes]⟩
  case f22x | f21t | f21s | f21c =>
    exact ⟨_, ⟨rfl, ‹_›⟩, _, ⟨rfl, ‹_›⟩, by
      rw [← opens, unitOfBytes_bytes, UInt16.ofNat_toNat]⟩
  case f23x | f22b =>
    exact ⟨_, ⟨rfl, ‹_›⟩, _, ⟨rfl, ‹_›⟩, _, ⟨rfl, ‹_›⟩, by
      rw [← opens, unitOfBytes_bytes, unitOfBytes_bytes]⟩
  case f22t | f22s | f22c =>
    exact ⟨_, ⟨rfl, ‹_›⟩, _, ⟨rfl, ‹_›⟩, _, ⟨rfl, ‹_›⟩, by
      rw [← opens, unitOfNibbles_byte _ above, unitOfBytes_bytes, UInt16.ofNat_toNat]⟩
  case f31t | f31i | f31c =>
    exact ⟨_, ⟨rfl, ‹_›⟩, _, ⟨rfl, ‹_›⟩, by rw [← opens, unitOfBytes_bytes, words]⟩
  case f21h =>
    have positive := span_pos opcode.literalShift
    simp only [Option.map_some, toInt_shifted opcode small, Int.mul_emod_left, ne_eq,
      not_true_eq_false, if_false, Int.mul_ediv_cancel _ (Int.natCast_ne_zero.mpr positive.ne'),
      bind_eq_ok, pure_eq_ok, encodeReg_eq_ok, Nat.reduceLeDiff, span_8]
    exact ⟨_, ⟨rfl, ‹_›⟩, _, (encodeSigned_eq_ok (by decide)).mpr ⟨rfl, small⟩, by
      rw [← opens, unitOfBytes_bytes, UInt16.ofNat_toNat]⟩
  case f51l =>
    obtain ⟨least, greatest⟩ := signed_within (by decide) (Nat.le_refl 64) small
    simp only [Option.map_some, Int64.toInt_ofInt_of_le least greatest, unsigned_signed small, units64_word64, bind_eq_ok, pure_eq_ok, encodeReg_eq_ok,
      Nat.reduceLeDiff, span_8]
    exact ⟨_, ⟨rfl, ‹_›⟩, by rw [← opens, unitOfBytes_bytes]⟩

/-- A range that ends at the last register is written as it was read, unless it is empty. -/
theorem encodeFormat_range (format : opcode.format = .f3rc) (counted : units.length = 3)
    (opens : lowByte (units.getD 0 0) = opcode.value.toNat)
    (inside : (units.getD 2 0).toNat + highByte (units.getD 0 0) ≤ 65536) :
    ∃ normal, encodeFormat opcode (decodeOperands opcode units) = .ok normal ∧
      ((decodeOperands opcode units).regs ≠ [] → normal = units) := by
  obtain ⟨first, second, third, rfl⟩ := List.length_eq_three.mp counted
  simp only [List.getD_cons_zero, List.getD_cons_succ] at opens inside
  have above := highByte_lt first
  have follow := consecutive_decodeRange inside
  have counted := length_decodeRange third.toNat (highByte first)
  have indexed : encodeIndex 16 (some second.toNat) = .ok second.toNat :=
    encodeIndex_eq_ok.mpr ⟨rfl, second.toNat_lt⟩
  simp only [encodeFormat, decodeOperands, format, List.getD_cons_zero, List.getD_cons_succ, counted,
    indexed]
  rw [if_neg (by omega)]
  cases range : decodeRange third.toNat (highByte first) with
  | nil => exact ⟨_, rfl, fun nonempty => (nonempty rfl).elim⟩
  | cons reg regs =>
      rw [range, consecutive, Bool.and_eq_true, beq_iff_eq] at follow
      have start : (some reg).elim 0 Reg.number = third.toNat := follow.1
      rw [List.head?_cons, start, consecutive, follow.1, follow.2, beq_self_eq_true]
      refine ⟨_, rfl, fun _ => ?_⟩
      rw [← opens, unitOfBytes_bytes, UInt16.ofNat_toNat, UInt16.ofNat_toNat]

/-- A range that goes past the last register is not written. -/
theorem encodeFormat_brokenRange (format : opcode.format = .f3rc) (counted : units.length = 3)
    (past : 65536 < (units.getD 2 0).toNat + highByte (units.getD 0 0)) :
    encodeFormat opcode (decodeOperands opcode units) = .error .brokenRange := by
  obtain ⟨first, second, third, rfl⟩ := List.length_eq_three.mp counted
  simp only [List.getD_cons_zero, List.getD_cons_succ] at past
  have above := highByte_lt first
  have small : third.toNat < 65536 := third.toNat_lt
  have counted := length_decodeRange third.toNat (highByte first)
  have start : (decodeRange third.toNat (highByte first)).head?.elim 0 Reg.number = third.toNat := by
    rw [List.head?_eq_getElem?, getElem?_decodeRange (by omega), Nat.add_zero,
      Nat.min_eq_left (by omega)]
    exact Reg.number_ofNat_of_lt small
  have broken : consecutive third.toNat (decodeRange third.toNat (highByte first)) = false := by
    refine Bool.eq_false_iff.mpr fun follow => ?_
    have last := number_of_consecutive follow
      (getElem?_decodeRange (i := highByte first - 1) (by omega))
    rw [decodeReg, Reg.number_ofNat_of_lt (by omega)] at last
    omega
  simp only [encodeFormat, decodeOperands, format, List.getD_cons_zero, List.getD_cons_succ, counted,
    start, broken]
  rw [if_neg (by omega)]
  rfl

/-- Operands that are read from units are written. -/
theorem exists_encodeFormat (counted : units.length = opcode.format.size)
    (opens : lowByte (units.getD 0 0) = opcode.value.toNat)
    (inside : opcode.format = .f3rc →
      (units.getD 2 0).toNat + highByte (units.getD 0 0) ≤ 65536) :
    ∃ normal, encodeFormat opcode (decodeOperands opcode units) = .ok normal ∧
      (opcode.format ∉ [.f10x, .f20t, .f30t, .f32x, .f35c] →
        ¬(opcode.format = .f3rc ∧ (decodeOperands opcode units).regs = []) → normal = units) := by
  by_cases full : opcode.format ∉ [.f10x, .f20t, .f30t, .f32x, .f35c, .f3rc]
  · exact ⟨units, encodeFormat_decodeOperands counted opens full, fun _ _ => rfl⟩
  cases format : opcode.format
  all_goals
    simp only [format, List.mem_cons, List.not_mem_nil, reduceCtorEq, or_self, or_false, or_true,
      not_true_eq_false, not_false_eq_true, false_implies, true_implies, and_true, false_and,
      true_and] at full inside ⊢
  case f3rc =>
    rw [format] at counted
    exact encodeFormat_range format counted opens inside
  case f10x =>
    simp only [encodeFormat, format, pure_eq_ok]
    exact ⟨_, rfl⟩
  case f20t =>
    rw [format] at counted
    obtain ⟨first, second, rfl⟩ := List.length_eq_two.mp counted
    simp only [encodeFormat, decodeOperands, format, List.getD_cons_zero, List.getD_cons_succ,
      bind_eq_ok, pure_eq_ok, encodeOffset_eq_ok, Nat.reduceLeDiff, Nat.reduceLT, span_16]
    exact ⟨_, _, ⟨rfl, second.toNat_lt⟩, rfl⟩
  case f30t =>
    rw [format] at counted
    obtain ⟨first, second, third, rfl⟩ := List.length_eq_three.mp counted
    simp only [encodeFormat, decodeOperands, format, List.getD_cons_zero, List.getD_cons_succ,
      bind_eq_ok, pure_eq_ok, encodeOffset_eq_ok, Nat.reduceLeDiff, Nat.reduceLT, span_32]
    exact ⟨_, _, ⟨rfl, word32_lt second third⟩, rfl⟩
  case f32x =>
    rw [format] at counted
    obtain ⟨first, second, third, rfl⟩ := List.length_eq_three.mp counted
    simp only [encodeFormat, decodeOperands, format, List.getD_cons_zero, List.getD_cons_succ,
      bind_eq_ok, pure_eq_ok, encodeReg_eq_ok, Nat.reduceLeDiff, span_16]
    exact ⟨_, _, ⟨rfl, second.toNat_lt⟩, _, ⟨rfl, third.toNat_lt⟩, rfl⟩
  case f35c =>
    rw [format] at counted
    obtain ⟨first, second, third, rfl⟩ := List.length_eq_three.mp counted
    simp only [encodeFormat, decodeOperands, format, List.getD_cons_zero, List.getD_cons_succ,
      bind_eq_ok, pure_eq_ok, encodeIndex_eq_ok, span_16]
    have small : ∀ nibble ∈ ([lowNibble (lowByte third), highNibble (lowByte third),
        lowNibble (highByte third), highNibble (highByte third),
        lowNibble (highByte first)].take (highNibble (highByte first))), nibble < 16 := by
      intro nibble member
      have listed := List.mem_of_mem_take member
      simp only [List.mem_cons, List.not_mem_nil, or_false] at listed
      rcases listed with rfl | rfl | rfl | rfl | rfl
      all_goals exact Nat.mod_lt _ (by decide)
    obtain ⟨written, writes⟩ := exists_encodeNibbles small 5 0
    exact ⟨_, written, writes, _, ⟨rfl, second.toNat_lt⟩, rfl⟩

end

/-! ## Decoded code -/

/-- Decoded instructions with a known opcode are read from their units. -/
theorem heldBy_of_decode {bytes : List UInt8} {instructions : List Instruction}
    (success : decode bytes = .ok instructions) {read : Instruction} (member : read ∈ instructions)
    {opcode : Opcode} (known : read.opcode = some opcode) :
    HeldBy opcode read.units ∧
      ∃ payload, read = { decodeInstruction read.addr opcode read.units with payload } := by
  obtain ⟨items, found, each⟩ := exists_item_of_decode success
  obtain ⟨original, isItem, rfl⟩ := each read member
  obtain ⟨payload, carries⟩ := attachPayload_carries items original
  rw [carries] at known ⊢
  rcases read_of_items found isItem with ⟨opcodeByte, high, unknown, same⟩ | ⟨other, units, held, same⟩
  · rw [same] at known
    cases unknown.symm.trans known
  · have isUnits : original.units = units := by
      rw [same]
      rfl
    subst isUnits
    have isOpcode : original.opcode = some other := by
      rw [same]
      exact Opcode.ofValue?_value other
    obtain rfl := Option.some.inj (isOpcode.symm.trans known)
    exact ⟨held, payload, by conv_lhs => rw [same]⟩

/-- Decoded instructions are encoded again, but for ranges that go past the last register.  The
result is decoded to the same opcode and operands, and is what was read if that has no idle bits. -/
theorem recoded_of_decode {bytes : List UInt8} {instructions : List Instruction}
    (success : decode bytes = .ok instructions) :
    ∀ read ∈ instructions, ∀ opcode, read.opcode = some opcode →
      ((∃ units, encode opcode read.operands = .ok units) ↔ ¬read.RunsPast) ∧
      ∀ units, encode opcode read.operands = .ok units →
        decode (bytesOfUnits units) = .ok [{ read with addr := 0, payload := none, units }] ∧
          (¬read.HasIdleBits → units = read.units) := by
  intro read member opcode known
  obtain ⟨⟨counted, opens⟩, payload, same⟩ := heldBy_of_decode success member known
  have operands : read.operands = decodeOperands opcode read.units := by
    conv_lhs => rw [same]
    exact operands_decodeInstruction read.addr
  have format : read.format = opcode.format := by
    rw [same]
    rfl
  have writes : ∀ units, encode opcode read.operands = .ok units ↔
      encodeFormat opcode (decodeOperands opcode read.units) = .ok units := by
    intro units
    rw [operands, encode_eq_ok]
    exact and_iff_right accepts_decodeOperands
  have fails : read.RunsPast → ∀ units, encode opcode read.operands ≠ .ok units := by
    rintro ⟨isRange, past⟩ units encoded
    rw [format] at isRange
    rw [isRange] at counted
    have written := (writes units).mp encoded
    rw [encodeFormat_brokenRange isRange counted past] at written
    cases written
  have normal : ¬read.RunsPast → ∃ normal, encode opcode read.operands = .ok normal ∧
      (¬read.HasIdleBits → normal = read.units) := by
    intro inside
    obtain ⟨normal, written, equal⟩ := exists_encodeFormat counted opens fun isRange =>
      Nat.le_of_not_lt fun past => inside ⟨format.trans isRange, past⟩
    refine ⟨normal, (writes normal).mpr written, fun busy => ?_⟩
    have regs := congrArg Operands.regs operands
    refine equal (fun idle => busy (.inl (format ▸ idle))) fun empty => busy (.inr ?_)
    exact ⟨format.trans empty.1, regs.trans empty.2⟩
  refine ⟨⟨fun ⟨units, encoded⟩ past => fails past units encoded, fun inside => ?_⟩, ?_⟩
  · obtain ⟨units, encoded, -⟩ := normal inside
    exact ⟨units, encoded⟩
  · intro units encoded
    obtain ⟨other, encoded', equal⟩ := normal fun past => fails past units encoded
    obtain rfl := Except.ok.inj (encoded.symm.trans encoded')
    refine ⟨?_, equal⟩
    have again : decodeOperands opcode units = decodeOperands opcode read.units :=
      decodeOperands_encodeFormat suits_decodeOperands accepts_decodeOperands
        ((writes units).mp encoded)
    have decoded : decodeInstruction 0 opcode units =
        { decodeInstruction read.addr opcode read.units with addr := 0, units } := by
      simp only [decodeInstruction, again]
    rw [decode_single encoded, decoded]
    conv_rhs => rw [same]
    rfl

/-- A `nop` with a byte that is no operand, and an array of registers that are said to be seven. -/
def overfullBytes : List UInt8 :=
  [0x00, 0x04, 0x24, 0x7f, 0x07, 0x00, 0x21, 0x43]

def overfullArray : Instruction :=
  { addr := 1
    opcodeByte := 0x24
    format := .f35c
    regs := [.ofNat 1, .ofNat 2, .ofNat 3, .ofNat 4, .ofNat 15]
    reference := some ⟨.type, 7⟩
    units := [0x7f24, 0x0007, 0x4321] }

theorem recoded_overfullArray :
    ∃ instructions, decode overfullBytes = .ok instructions ∧ overfullArray ∈ instructions ∧
      overfullArray.opcode = some .filledNewArray ∧ ¬overfullArray.RunsPast ∧
      ∃ units, encode .filledNewArray overfullArray.operands = .ok units ∧
        decode (bytesOfUnits units) = .ok [{ overfullArray with addr := 0, payload := none, units }] ∧
        units = [0x5f24, 0x0007, 0x4321] := by
  obtain ⟨instructions, read, member⟩ :
      ∃ instructions, decode overfullBytes = .ok instructions ∧ overfullArray ∈ instructions :=
    exists_ok_of_decide (by decide +kernel)
  have known : overfullArray.opcode = some .filledNewArray := by decide +kernel
  have inside : ¬overfullArray.RunsPast := nofun
  have recoded := recoded_of_decode read overfullArray member .filledNewArray known
  obtain ⟨units, encoded⟩ := recoded.1.mpr inside
  have value : encode .filledNewArray overfullArray.operands = .ok [0x5f24, 0x0007, 0x4321] := by
    decide +kernel
  exact ⟨instructions, read, member, known, inside, units, encoded, (recoded.2 units encoded).1,
    Except.ok.inj (encoded.symm.trans value)⟩

end Binary

end Dalvik
