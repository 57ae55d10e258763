import Dalvik.Binary.Decode
import Dalvik.Proofs.Binary.Fields
import Dalvik.Proofs.Opcode
import Dalvik.Proofs.Success
import Mathlib.Algebra.GroupWithZero.Nat

/-!
# Decoding what is encoded

The operands of an instruction are read back from its code units, format by
format, and a stream of encoded instructions is decoded into those
instructions.
-/

namespace Dalvik

/-- The optional operands are those that a shape has. -/
structure Operands.Suits (operands : Operands) (shape : Shape) : Prop where
  literal : operands.literal.isSome = shape.literal
  offset : operands.offset.isSome = shape.offset
  index : operands.index.isSome = shape.reference

instance (operands : Operands) (shape : Shape) : Decidable (operands.Suits shape) :=
  decidable_of_iff (operands.literal.isSome = shape.literal ∧
    operands.offset.isSome = shape.offset ∧ operands.index.isSome = shape.reference)
    ⟨fun ⟨literal, offset, index⟩ => ⟨literal, offset, index⟩,
      fun suits => ⟨suits.literal, suits.offset, suits.index⟩⟩

namespace Binary

/-! ## Operands that fit their fields -/

theorem span_le {bits : Nat} (most : bits ≤ 16) : span bits ≤ 65536 :=
  Nat.pow_le_pow_right (by decide) most

/-- A register operand is the register that its field is read as. -/
theorem encodeReg_eq_ok {regs : List Reg} {position bits number : Nat} (most : bits ≤ 16) :
    encodeReg regs position bits = .ok number ↔
      regs[position]? = some (decodeReg number) ∧ number < span bits := by
  have bound := span_le most
  unfold encodeReg
  cases regs[position]? with
  | none => simp
  | some reg =>
      simp only [Option.some.injEq, Reg.fits_iff, decodeReg]
      constructor
      · intro encoded
        split at encoded
        · rename_i fits
          obtain rfl := Except.ok.inj encoded
          refine ⟨reg.ofNat_number.symm, ?_⟩
          rcases fits with wide | small
          · obtain rfl : bits = 16 := by omega
            exact reg.number_lt
          · exact small
        · cases encoded
      · rintro ⟨rfl, small⟩
        rw [Reg.number_ofNat_of_lt (by omega), if_pos (.inr small)]

/-- A signed operand is the number that its field is read as. -/
theorem encodeSigned_eq_ok {field : NumberField} {bits number : Nat} {value : Option Int}
    (some : 0 < bits) :
    encodeSigned field bits value = .ok number ↔
      value = .some (signed bits number) ∧ number < span bits := by
  cases value with
  | none => simp [encodeSigned]
  | some given =>
      simp only [encodeSigned, Option.some.injEq]
      constructor
      · intro encoded
        split at encoded
        · rename_i fits
          obtain rfl := Except.ok.inj encoded
          exact ⟨(signed_unsigned some fits).symm, unsigned_lt bits given⟩
        · cases encoded
      · rintro ⟨rfl, small⟩
        rw [if_pos (fitsSigned_signed some small), unsigned_signed small]

/-- A field holds a number of a type that is read from it unchanged. -/
theorem encodeSigned_map_eq_ok {α : Type} {toInt : α → Int} {ofInt : Int → α} {field : NumberField}
    {bits number : Nat} {given : Option α} (some : 0 < bits)
    (inverse : ∀ value, ofInt (toInt value) = value)
    (holds : number < span bits → toInt (ofInt (signed bits number)) = signed bits number) :
    encodeSigned field bits (given.map toInt) = .ok number ↔
      given = .some (ofInt (signed bits number)) ∧ number < span bits := by
  rw [encodeSigned_eq_ok some, Option.map_eq_some_iff]
  constructor
  · rintro ⟨⟨value, rfl, same⟩, small⟩
    rw [← same, inverse]
    exact ⟨rfl, small⟩
  · rintro ⟨rfl, small⟩
    exact ⟨⟨_, rfl, holds small⟩, small⟩

theorem encodeLiteral_eq_ok {field : NumberField} {bits number : Nat} {literal : Option Int64}
    (some : 0 < bits) (most : bits ≤ 64) :
    encodeSigned field bits (literal.map Int64.toInt) = .ok number ↔
      literal = .some (Int64.ofInt (signed bits number)) ∧ number < span bits := by
  refine encodeSigned_map_eq_ok some Int64.ofInt_toInt fun small => ?_
  obtain ⟨least, greatest⟩ := signed_within some most small
  exact Int64.toInt_ofInt_of_le least greatest

theorem encodeOffset_eq_ok {field : NumberField} {bits number : Nat} {offset : Option Int32}
    (some : 0 < bits) (most : bits ≤ 32) :
    encodeSigned field bits (offset.map Int32.toInt) = .ok number ↔
      offset = .some (Int32.ofInt (signed bits number)) ∧ number < span bits := by
  refine encodeSigned_map_eq_ok some Int32.ofInt_toInt fun small => ?_
  obtain ⟨least, greatest⟩ := signed_within some most small
  exact Int32.toInt_ofInt_of_le least greatest

theorem encodeIndex_eq_ok {bits number : Nat} {index : Option Nat} :
    encodeIndex bits index = .ok number ↔ index = some number ∧ number < span bits := by
  cases index with
  | none => simp [encodeIndex]
  | some given =>
      simp only [encodeIndex, Option.some.injEq]
      split
      · simp only [Except.ok.injEq]
        constructor
        · rintro rfl
          exact ⟨rfl, ‹_›⟩
        · exact fun known => known.1
      · simp only [reduceCtorEq, false_iff, not_and]
        rintro rfl
        assumption

theorem encode_eq_ok {opcode : Opcode} {operands : Operands} {units : List UInt16} :
    encode opcode operands = .ok units ↔
      opcode.format.shape.registers.accepts operands.regs.length = true ∧
        encodeFormat opcode operands = .ok units := by
  unfold encode encodeUnits
  dsimp only
  split
  · cases encodeFormat opcode operands with
    | error fault => simp_all [Except.mapError]
    | ok units => simp_all [Except.mapError]
  · simp_all [Except.mapError]

theorem throw_eq_ok {ε α : Type} {error : ε} {result : α} :
    (throw error : Except ε α) = .ok result ↔ False :=
  ⟨nofun, nofun⟩

/-- The nibbles of a register list are read as its registers, from a position on. -/
theorem encodeNibbles_spec {regs : List Reg} {count position : Nat} {nibbles : List Nat}
    (encoded : encodeNibbles regs count position = .ok nibbles) :
    nibbles.length = count ∧ (∀ nibble ∈ nibbles, nibble < 16) ∧
      (regs.length ≤ position + count →
        (nibbles.take (regs.length - position)).map decodeReg = regs.drop position) := by
  induction count generalizing position nibbles with
  | zero =>
      obtain rfl := Except.ok.inj encoded
      refine ⟨rfl, nofun, fun enough => ?_⟩
      rw [List.drop_eq_nil_of_le (by omega), List.take_nil, List.map_nil]
  | succ count ih =>
      rw [encodeNibbles] at encoded
      split at encoded
      · rename_i inside
        simp only [bind_eq_ok, pure_eq_ok] at encoded
        obtain ⟨nibble, first, others, rest, rfl⟩ := encoded
        obtain ⟨counted, small, read⟩ := ih rest
        obtain ⟨found, fits⟩ := (encodeReg_eq_ok (by decide)).mp first
        refine ⟨congrArg Nat.succ counted, List.forall_mem_cons.mpr ⟨fits, small⟩, fun enough => ?_⟩
        obtain ⟨left, isLeft⟩ : ∃ left, regs.length - position = left + 1 :=
          ⟨regs.length - position - 1, by omega⟩
        have same : regs.length - (position + 1) = left := by omega
        rw [isLeft, List.take_succ_cons, List.map_cons, ← same, read (by omega),
          List.drop_eq_getElem_cons inside, (List.getElem?_eq_some_iff.mp found).2]
      · rename_i past
        simp only [bind_eq_ok, pure_eq_ok] at encoded
        obtain ⟨nibble, first, others, rest, rfl⟩ := encoded
        obtain rfl := Except.ok.inj first
        obtain ⟨counted, small, -⟩ := ih rest
        refine ⟨congrArg Nat.succ counted, List.forall_mem_cons.mpr ⟨by decide, small⟩, fun _ => ?_⟩
        rw [Nat.sub_eq_zero_of_le (Nat.not_lt.mp past), List.drop_eq_nil_of_le (Nat.not_lt.mp past)]
        rfl

/-- Registers that follow one another are the range from the first of them. -/
theorem decodeRange_consecutive {number : Nat} {regs : List Reg}
    (follow : consecutive number regs = true) : decodeRange number regs.length = regs := by
  induction regs generalizing number with
  | nil => rfl
  | cons reg regs ih =>
      simp only [consecutive, Bool.and_eq_true, beq_iff_eq] at follow
      obtain ⟨rfl, rest⟩ := follow
      have small := reg.number_lt
      have here : decodeReg (min (reg.number + 0) 65535) = reg := by
        rw [Nat.add_zero, Nat.min_eq_left (by omega)]
        exact reg.ofNat_number
      have later : (List.range regs.length).map
          ((fun i => decodeReg (min (reg.number + i) 65535)) ∘ Nat.succ) =
            decodeRange (reg.number + 1) regs.length := by
        refine List.map_congr_left fun i _ => ?_
        simp only [Function.comp_apply, Nat.succ_eq_add_one]
        congr 2
        omega
      rw [decodeRange, List.length_cons, List.range_succ_eq_map, List.map_cons, List.map_map, here,
        later, ih rest]

/-! ## One instruction -/

section

variable {opcode : Opcode} {operands : Operands} {units : List UInt16}

/-- Encoded units fill the format's size and start with the opcode's byte. -/
theorem encodeFormat_opens (encoded : encodeFormat opcode operands = .ok units) :
    units.length = opcode.format.size ∧ ∃ high rest,
      units = unitOfBytes opcode.value.toNat high :: rest ∧ (opcode.format = .f10x → high = 0) := by
  unfold encodeFormat at encoded
  cases format : opcode.format
  all_goals simp only [format] at encoded
  all_goals
    grind [bind_eq_ok, pure_eq_ok, throw_eq_ok, unitOfNibbles_eq, Format.size, units32, units64]

theorem regs_eq_one {regs : List Reg} {a : Reg} (counted : regs.length = 1)
    (first : regs[0]? = some a) : regs = [a] := by
  obtain ⟨only, rfl⟩ := List.length_eq_one_iff.mp counted
  simpa using first

theorem regs_eq_two {regs : List Reg} {a b : Reg} (counted : regs.length = 2)
    (first : regs[0]? = some a) (second : regs[1]? = some b) : regs = [a, b] := by
  obtain ⟨one, two, rfl⟩ := List.length_eq_two.mp counted
  simp_all

theorem regs_eq_three {regs : List Reg} {a b c : Reg} (counted : regs.length = 3)
    (first : regs[0]? = some a) (second : regs[1]? = some b) (third : regs[2]? = some c) :
    regs = [a, b, c] := by
  obtain ⟨one, two, three, rfl⟩ := List.length_eq_three.mp counted
  simp_all

/-- The literal of a `high16` constant is stored without its low bits. -/
theorem decodeOperands_f21h {regs : List Reg} {literal : Option Int64}
    (format : opcode.format = .f21h) (counted : regs.length = 1)
    (encoded : encodeFormat opcode ⟨regs, literal, none, none⟩ = .ok units) :
    decodeOperands opcode units = ⟨regs, literal, none, none⟩ := by
  have byte : opcode.value.toNat < 256 := opcode.value.toNat_lt
  simp only [encodeFormat, format] at encoded
  cases literal with
  | none => cases encoded
  | some literal =>
      simp only [Option.map_some, ne_eq, ite_not] at encoded
      split at encoded
      · rename_i whole
        simp only [bind_eq_ok, pure_eq_ok, encodeReg_eq_ok, encodeSigned_eq_ok, Option.some.injEq,
          Nat.reduceLeDiff, Nat.reduceLT, span_8, span_16] at encoded
        obtain ⟨a, ⟨isA, smallA⟩, value, ⟨isValue, small⟩, rfl⟩ := encoded
        obtain rfl := regs_eq_one counted isA
        have scaled : signed 16 value * (span opcode.literalShift : Int) = literal.toInt := by
          rw [← isValue]
          exact Int.ediv_mul_cancel (Int.dvd_of_emod_eq_zero whole)
        simp (disch := omega) only [decodeOperands, format, List.getD_cons_zero, List.getD_cons_succ,
          highByte_unitOfBytes, toNat_ofNat16, scaled, Int64.ofInt_toInt]
      · cases encoded

theorem decodeOperands_f51l {regs : List Reg} {literal : Option Int64}
    (format : opcode.format = .f51l) (counted : regs.length = 1)
    (encoded : encodeFormat opcode ⟨regs, literal, none, none⟩ = .ok units) :
    decodeOperands opcode units = ⟨regs, literal, none, none⟩ := by
  have byte : opcode.value.toNat < 256 := opcode.value.toNat_lt
  simp only [encodeFormat, format] at encoded
  cases literal with
  | none => cases encoded
  | some literal =>
      simp only [Option.map_some, bind_eq_ok, pure_eq_ok, encodeReg_eq_ok, Nat.reduceLeDiff,
        span_8] at encoded
      obtain ⟨a, ⟨isA, smallA⟩, rfl⟩ := encoded
      obtain rfl := regs_eq_one counted isA
      have fits : fitsSigned 64 literal.toInt = true :=
        (fitsSigned_iff 64 _).mpr ⟨literal.le_toInt, literal.toInt_lt⟩
      simp (disch := omega) only [decodeOperands, format, List.getD_cons_zero, List.getD_cons_succ,
        highByte_unitOfBytes, units64, units32, List.cons_append, List.nil_append,
        word64_units (unsigned_lt 64 literal.toInt), signed_unsigned (by decide) fits,
        Int64.ofInt_toInt]

/-- Up to five registers are stored in one nibble each, their number in another. -/
theorem decodeOperands_f35c {regs : List Reg} {index : Option Nat}
    (format : opcode.format = .f35c) (counted : regs.length ≤ 5)
    (encoded : encodeFormat opcode ⟨regs, none, none, index⟩ = .ok units) :
    decodeOperands opcode units = ⟨regs, none, none, index⟩ := by
  have byte : opcode.value.toNat < 256 := opcode.value.toNat_lt
  simp only [encodeFormat, format, bind_eq_ok, pure_eq_ok, encodeIndex_eq_ok, span_16] at encoded
  obtain ⟨nibbles, isNibbles, value, ⟨rfl, small⟩, rfl⟩ := encoded
  obtain ⟨five, fit, read⟩ := encodeNibbles_spec isNibbles
  obtain ⟨c, d, e, f, g, rfl⟩ : ∃ c d e f g, nibbles = [c, d, e, f, g] := by
    match nibbles, five with
    | [c, d, e, f, g], _ => exact ⟨c, d, e, f, g, rfl⟩
  have names : ([c, d, e, f, g].take regs.length).map decodeReg = regs := read counted
  simp only [List.mem_cons, List.not_mem_nil, or_false, forall_eq_or_imp, forall_eq] at fit
  obtain ⟨smallC, smallD, smallE, smallF, smallG⟩ := fit
  simp (disch := omega) only [decodeOperands, format, List.getD_cons_zero, List.getD_cons_succ,
    unitOfNibbles_eq, highByte_unitOfBytes, lowByte_unitOfBytes, lowNibble_pair, highNibble_pair,
    toNat_ofNat16, names]

/-- A range is stored as its first register and its length. -/
theorem decodeOperands_f3rc {regs : List Reg} {index : Option Nat}
    (format : opcode.format = .f3rc)
    (encoded : encodeFormat opcode ⟨regs, none, none, index⟩ = .ok units) :
    decodeOperands opcode units = ⟨regs, none, none, index⟩ := by
  have byte : opcode.value.toNat < 256 := opcode.value.toNat_lt
  simp only [encodeFormat, format] at encoded
  split at encoded
  · cases encoded
  · split at encoded
    · cases encoded
    · rename_i short follow
      simp only [bind_eq_ok, pure_eq_ok, encodeIndex_eq_ok, span_16] at encoded
      obtain ⟨value, ⟨rfl, small⟩, rfl⟩ := encoded
      have first : regs.head?.elim 0 Reg.number < 65536 := by
        cases regs with
        | nil => decide
        | cons reg regs => exact reg.number_lt
      have range := decodeRange_consecutive (by simpa using follow)
      simp (disch := omega) only [decodeOperands, format, List.getD_cons_zero,
        List.getD_cons_succ, highByte_unitOfBytes, toNat_ofNat16, range]

/-- Operands are read back from the units they are encoded to. -/
theorem decodeOperands_encodeFormat (suits : operands.Suits opcode.format.shape)
    (counted : opcode.format.shape.registers.accepts operands.regs.length = true)
    (encoded : encodeFormat opcode operands = .ok units) :
    decodeOperands opcode units = operands := by
  obtain ⟨regs, literal, offset, index⟩ := operands
  obtain ⟨hasLiteral, hasOffset, hasIndex⟩ := suits
  have byte : opcode.value.toNat < 256 := opcode.value.toNat_lt
  cases format : opcode.format
  all_goals
    simp only [format, Format.shape, RegisterCount.accepts, beq_iff_eq, decide_eq_true_iff,
      Option.isSome_eq_false_iff, Option.isNone_iff_eq_none] at counted hasLiteral hasOffset hasIndex
  case f21h =>
    subst hasOffset hasIndex
    exact decodeOperands_f21h format counted encoded
  case f51l =>
    subst hasOffset hasIndex
    exact decodeOperands_f51l format counted encoded
  case f35c =>
    subst hasLiteral hasOffset
    exact decodeOperands_f35c format counted encoded
  case f3rc =>
    subst hasLiteral hasOffset
    exact decodeOperands_f3rc format encoded
  all_goals
    simp only [encodeFormat, format, bind_eq_ok, pure_eq_ok, encodeReg_eq_ok, encodeLiteral_eq_ok,
      encodeOffset_eq_ok, encodeIndex_eq_ok, Nat.reduceLeDiff, Nat.reduceLT, span_4, span_8,
      span_16, span_32] at encoded
  case' f10x => obtain rfl := List.length_eq_zero_iff.mp counted
  case' f11x =>
    obtain ⟨a, ⟨isA, smallA⟩, rfl⟩ := encoded
    obtain rfl := regs_eq_one counted isA
  case' f12x | f22x | f32x =>
    obtain ⟨a, ⟨isA, smallA⟩, b, ⟨isB, smallB⟩, rfl⟩ := encoded
    obtain rfl := regs_eq_two counted isA isB
  case' f23x =>
    obtain ⟨a, ⟨isA, smallA⟩, b, ⟨isB, smallB⟩, c, ⟨isC, smallC⟩, rfl⟩ := encoded
    obtain rfl := regs_eq_three counted isA isB isC
  case' f10t | f20t | f30t =>
    obtain ⟨value, ⟨rfl, small⟩, rfl⟩ := encoded
    obtain rfl := List.length_eq_zero_iff.mp counted
  case' f21t | f21s | f21c =>
    obtain ⟨a, ⟨isA, smallA⟩, value, ⟨rfl, small⟩, rfl⟩ := encoded
    obtain rfl := regs_eq_one counted isA
  case' f11n | f31t | f31i | f31c =>
    obtain ⟨value, ⟨rfl, small⟩, a, ⟨isA, smallA⟩, rfl⟩ := encoded
    obtain rfl := regs_eq_one counted isA
  case' f22b | f22t | f22s | f22c =>
    obtain ⟨a, ⟨isA, smallA⟩, b, ⟨isB, smallB⟩, value, ⟨rfl, small⟩, rfl⟩ := encoded
    obtain rfl := regs_eq_two counted isA isB
  all_goals
    simp (disch := first | assumption | omega) only [decodeOperands, format, hasLiteral, hasOffset,
      hasIndex, List.getD_cons_zero, List.getD_cons_succ, unitOfNibbles_eq, highByte_unitOfBytes,
      lowByte_unitOfBytes, lowNibble_pair, highNibble_pair, toNat_ofNat16, units32, word32_units,
      Opcode.literalShift_of_f21s, span_0, Int.natCast_one, Int.mul_one]

/-- An instruction that holds operands of an opcode, and no data table. -/
structure Held (opcode : Opcode) (operands : Operands) (units : List UInt16)
    (instruction : Instruction) : Prop where
  opcodeByte : instruction.opcodeByte = opcode.value
  format : instruction.format = opcode.format
  regs : instruction.regs = operands.regs
  literal : instruction.literal = operands.literal
  offset : instruction.offset = operands.offset
  kind : instruction.reference.map PoolRef.kind = opcode.reference
  index : instruction.reference.map PoolRef.index = operands.index
  payload : instruction.payload = none
  units : instruction.units = units

theorem decodeInstruction_held (suits : operands.Suits opcode.format.shape)
    (encoded : encode opcode operands = .ok units) (addr : Addr) :
    Held opcode operands units (decodeInstruction addr opcode units) := by
  obtain ⟨counted, laid⟩ := encode_eq_ok.mp encoded
  have read := decodeOperands_encodeFormat suits counted laid
  have together : operands.index.isSome = opcode.reference.isSome := by
    rw [suits.index, opcode.isSome_reference]
  constructor
  all_goals simp only [decodeInstruction, read]
  -- A kind is given exactly if an index is, so the reference has both.
  · cases isKind : opcode.reference with
    | none => rfl
    | some kind =>
        obtain ⟨index, isIndex⟩ := Option.isSome_iff_exists.mp (by rw [together, isKind]; rfl)
        rw [isIndex]
        rfl
  · cases isIndex : operands.index with
    | none => cases opcode.reference <;> rfl
    | some index =>
        obtain ⟨kind, isKind⟩ := Option.isSome_iff_exists.mp (by rw [← together, isIndex]; rfl)
        rw [isKind]
        rfl

/-! ## Streams of instructions -/

/-- Units of an instruction are not taken for a data table. -/
theorem not_opensPayload (encoded : encodeFormat opcode operands = .ok units) :
    ∃ high rest, bytesOfUnits units = opcode.value :: high :: rest ∧
      opensPayload opcode.value high = false := by
  obtain ⟨-, high, rest, rfl, only⟩ := encodeFormat_opens encoded
  have byte : opcode.value.toNat < 256 := opcode.value.toNat_lt
  refine ⟨UInt8.ofNat (highByte (unitOfBytes opcode.value.toNat high)), bytesOfUnits rest, ?_, ?_⟩
  · rw [bytesOfUnits_cons, lowByte_unitOfBytes high byte, UInt8.ofNat_toNat]
  · by_cases zero : opcode.value = 0
    · obtain rfl := Opcode.eq_nop_of_value zero
      rw [only rfl]
      rfl
    · simp [opensPayload, zero]

/-- Reading what an instruction is encoded to takes that instruction. -/
theorem decodeItems_encoded (encoded : encodeFormat opcode operands = .ok units)
    {total fuel : Nat} {rest : List UInt8} {items : List Item}
    (others : decodeItems total fuel rest = .ok items) :
    decodeItems total (fuel + 1) (bytesOfUnits units ++ rest) =
      .ok (.instruction (decodeInstruction
        ((total - (bytesOfUnits units ++ rest).length) / 2) opcode units) :: items) := by
  obtain ⟨counted, -⟩ := encodeFormat_opens encoded
  obtain ⟨high, after, opens, notTable⟩ := not_opensPayload encoded
  have long : (bytesOfUnits units).length = 2 * opcode.format.size := by
    rw [length_bytesOfUnits, counted]
  have enough : endsBefore (2 * opcode.format.size) (bytesOfUnits units ++ rest) = false := by
    simp [endsBefore, long]
  have taken : (bytesOfUnits units ++ rest).take (2 * opcode.format.size) = bytesOfUnits units := by
    rw [← long, List.take_left]
  have left : (bytesOfUnits units ++ rest).drop (2 * opcode.format.size) = rest := by
    rw [← long, List.drop_left]
  rw [opens, List.cons_append, List.cons_append] at enough taken left ⊢
  rw [decodeItems]
  simp only [notTable, Opcode.ofValue?_value, enough, taken, left, others]
  rw [← opens, unitsOfBytes_bytesOfUnits]
  rfl

end

/-- Instructions that are those of a stream, each after the sizes of those before it. -/
structure HoldsStream (start : Addr) (stream : List (Opcode × Operands))
    (encodings : List (List UInt16)) (instructions : List Instruction) : Prop where
  count : instructions.length = stream.length
  held : ∀ position opcode operands, stream[position]? = some (opcode, operands) →
    ∃ units instruction, encodings[position]? = some units ∧
      instructions[position]? = some instruction ∧
      instruction.addr =
        start + ((stream.take position).map fun earlier => earlier.1.format.size).sum ∧
      Held opcode operands units instruction

theorem HoldsStream.cons {start : Addr} {opcode : Opcode} {operands : Operands}
    {stream : List (Opcode × Operands)} {units : List UInt16} {encodings : List (List UInt16)}
    {instruction : Instruction} {instructions : List Instruction} (here : instruction.addr = start)
    (held : Held opcode operands units instruction)
    (later : HoldsStream (start + opcode.format.size) stream encodings instructions) :
    HoldsStream start ((opcode, operands) :: stream) (units :: encodings)
      (instruction :: instructions) where
  count := congrArg Nat.succ later.count
  held position other others found := by
    cases position with
    | zero =>
        obtain ⟨rfl, rfl⟩ := Prod.mk.inj (Option.some.inj found)
        exact ⟨units, instruction, rfl, rfl, here, held⟩
    | succ position =>
        obtain ⟨units', instruction', inEncodings, inInstructions, place, holds⟩ :=
          later.held position other others found
        refine ⟨units', instruction', inEncodings, inInstructions, ?_, holds⟩
        rw [place, List.take_succ_cons, List.map_cons, List.sum_cons, Nat.add_assoc]

/-- Items are read one by one from the bytes of encoded instructions. -/
theorem decodeItems_stream {stream : List (Opcode × Operands)} {encodings : List (List UInt16)}
    (suits : ∀ written ∈ stream, written.2.Suits written.1.format.shape)
    (encoded : List.Forall₂ (fun written units => encode written.1 written.2 = .ok units)
      stream encodings)
    (total fuel : Nat) (enough : stream.length ≤ fuel)
    (start : Nat) (place : total = 2 * start + 2 * encodings.flatten.length) :
    ∃ instructions, decodeItems total fuel (bytesOfUnits encodings.flatten) =
        .ok (instructions.map .instruction) ∧ HoldsStream start stream encodings instructions := by
  induction encoded generalizing start fuel with
  | nil =>
      refine ⟨[], ?_, rfl, fun position _ _ found => ?_⟩
      · cases fuel <;> rfl
      · cases found
  | @cons written units stream encodings first rest ih =>
      obtain ⟨opcode, operands⟩ := written
      obtain ⟨suit, suits⟩ := List.forall_mem_cons.mp suits
      obtain ⟨counted, laid⟩ := encode_eq_ok.mp first
      have size : units.length = opcode.format.size := (encodeFormat_opens laid).1
      obtain ⟨fewer, rfl⟩ : ∃ fewer, fuel = fewer + 1 :=
        Nat.exists_eq_succ_of_ne_zero (Nat.ne_of_gt (Nat.lt_of_lt_of_le (Nat.succ_pos _) enough))
      rw [List.flatten_cons, List.length_append] at place
      obtain ⟨instructions, others, holds⟩ :=
        ih suits fewer (Nat.le_of_succ_le_succ enough) (start + opcode.format.size) (by omega)
      have here : (total - (bytesOfUnits units ++ bytesOfUnits encodings.flatten).length) / 2 =
          start := by
        simp only [List.length_append, length_bytesOfUnits]
        omega
      have read := decodeItems_encoded laid others
      rw [here] at read
      refine ⟨decodeInstruction start opcode units :: instructions, ?_,
        holds.cons rfl (decodeInstruction_held suit first start)⟩
      rw [List.flatten_cons, bytesOfUnits_append, read, List.map_cons]

/-- Instructions without data tables around them stay without one. -/
theorem attachPayload_instructions {instructions : List Instruction} {instruction : Instruction}
    (without : instruction.payload = none) :
    attachPayload (instructions.map .instruction) instruction = instruction := by
  have nothing : ∀ target,
      (instructions.map Item.instruction).findSome? (Item.payloadAt? target) = none := by
    intro target
    rw [List.findSome?_map]
    exact List.findSome?_eq_none_iff.mpr fun _ _ => rfl
  unfold attachPayload
  split
  · obtain ⟨addr, opcodeByte, format, regs, literal, offset, reference, payload, units⟩ := instruction
    obtain rfl : payload = none := without
    cases Instruction.target _ with
    | none => rfl
    | some target => simp only [Option.bind_some, nothing]
  · rfl

/-- The bytes of one encoded instruction are decoded into that instruction. -/
theorem decode_single {opcode : Opcode} {operands : Operands} {units : List UInt16}
    (encoded : encode opcode operands = .ok units) :
    decode (bytesOfUnits units) = .ok [decodeInstruction 0 opcode units] := by
  obtain ⟨-, laid⟩ := encode_eq_ok.mp encoded
  have counted : units.length = opcode.format.size := (encodeFormat_opens laid).1
  have positive := opcode.format.size_pos
  obtain ⟨fuel, isFuel⟩ : ∃ fuel, (bytesOfUnits units).length = fuel + 1 := by
    refine ⟨(bytesOfUnits units).length - 1, ?_⟩
    rw [length_bytesOfUnits]
    omega
  have nothing : decodeItems (bytesOfUnits units).length fuel [] = .ok [] := by
    cases fuel <;> rfl
  have read := decodeItems_encoded laid nothing
  rw [List.append_nil, Nat.sub_self, Nat.zero_div, ← isFuel] at read
  have alone : attachPayload [.instruction (decodeInstruction 0 opcode units)]
      (decodeInstruction 0 opcode units) = decodeInstruction 0 opcode units :=
    @attachPayload_instructions [decodeInstruction 0 opcode units] _ rfl
  rw [decode, read]
  exact congrArg (fun instruction => Except.ok [instruction]) alone

theorem length_le_of_sizes {stream : List (Opcode × Operands)} {encodings : List (List UInt16)}
    (sizes : List.Forall₂ (fun written units => units.length = written.1.format.size)
      stream encodings) : stream.length ≤ encodings.flatten.length := by
  induction sizes with
  | nil => exact Nat.le_refl _
  | @cons written units stream encodings first rest ih =>
      have positive := written.1.format.size_pos
      simp only [List.length_cons, List.flatten_cons, List.length_append]
      omega

/-- The bytes of encoded instructions are decoded into those instructions. -/
theorem decode_stream {stream : List (Opcode × Operands)} {encodings : List (List UInt16)}
    (suits : ∀ written ∈ stream, written.2.Suits written.1.format.shape)
    (encoded : stream.mapM (fun written => encode written.1 written.2) = .ok encodings) :
    List.Forall₂ (fun written units => units.length = written.1.format.size) stream encodings ∧
      ∃ instructions, decode (bytesOfUnits encodings.flatten) = .ok instructions ∧
        HoldsStream 0 stream encodings instructions := by
  have each := mapM_eq_ok.mp encoded
  have sizes : List.Forall₂ (fun written units => units.length = written.1.format.size)
      stream encodings :=
    each.imp fun _ _ first => (encodeFormat_opens (encode_eq_ok.mp first).2).1
  have long := length_bytesOfUnits encodings.flatten
  have enough : stream.length ≤ (bytesOfUnits encodings.flatten).length := by
    have most := length_le_of_sizes sizes
    omega
  obtain ⟨instructions, read, holds⟩ :=
    decodeItems_stream suits each (bytesOfUnits encodings.flatten).length _ enough 0 (by omega)
  have without : ∀ instruction ∈ instructions,
      attachPayload (instructions.map .instruction) instruction = instruction := by
    intro instruction member
    obtain ⟨position, found⟩ := List.mem_iff_getElem?.mp member
    have inside : position < stream.length := by
      rw [← holds.count]
      exact (List.getElem?_eq_some_iff.mp found).1
    obtain ⟨_, other, -, isOther, -, held⟩ :=
      holds.held position _ _ (List.getElem?_eq_getElem inside)
    obtain rfl := Option.some.inj (found.symm.trans isOther)
    exact attachPayload_instructions held.payload
  have whole : (instructions.map Item.instruction).filterMap Item.instruction? = instructions := by
    rw [List.filterMap_map]
    exact List.filterMap_some
  refine ⟨sizes, instructions, ?_, holds⟩
  rw [decode, read]
  show Except.ok _ = _
  rw [whole, List.map_congr_left without, List.map_id']

/-- A negative shifted literal, five registers, an empty range, a switch without a table,
and the opcode whose byte also opens data tables. -/
def mixedStream : List (Opcode × Operands) :=
  [(.constWideHigh16, { regs := [.ofNat 255], literal := some (-0x7fff000000000000) }),
    (.filledNewArray, { regs := [.ofNat 1, .ofNat 2, .ofNat 3, .ofNat 4, .ofNat 15], index := some 7 }),
    (.invokeStaticRange, { index := some 65535 }),
    (.packedSwitch, { regs := [.ofNat 3], offset := some (-8) }),
    (.nop, {})]

def mixedUnits : List (List UInt16) :=
  [[0xff19, 0x8001], [0x5f24, 0x0007, 0x4321], [0x0077, 0xffff, 0x0000],
    [0x032b, 0xfff8, 0xffff], [0x0000]]

theorem decode_mixedStream :
    (∀ written ∈ mixedStream, written.2.Suits written.1.format.shape) ∧
      mixedStream.mapM (fun written => encode written.1 written.2) = .ok mixedUnits ∧
      ∃ instructions, decode (bytesOfUnits mixedUnits.flatten) = .ok instructions ∧
        HoldsStream 0 mixedStream mixedUnits instructions :=
  have suits : ∀ written ∈ mixedStream, written.2.Suits written.1.format.shape := by decide
  have encoded : mixedStream.mapM (fun written => encode written.1 written.2) = .ok mixedUnits := by
    decide
  ⟨suits, encoded, (decode_stream suits encoded).2⟩

end Binary

end Dalvik
