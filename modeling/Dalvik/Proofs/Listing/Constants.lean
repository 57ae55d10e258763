import Dalvik.Proofs.Binary.RoundTrip
import Dalvik.Proofs.Listing.Assembly
import Dalvik.Proofs.Listing.Grammar
import Dalvik.Proofs.Listing.Numerals
import Dalvik.Proofs.Scanning

/-!
# Lines that load an integer

A line that loads an integer is read for every mnemonic, register and spelling of the
integer.  When its method is closed, it is assembled to an instruction whose literal is
congruent to the integer, or refused as a fault of the line.
-/

namespace Dalvik.Listing

/-! ## Rules on what they take -/

/-- A run of characters is taken up to where it stops. -/
theorem takeRun_of_stops {member : Char → Bool} {run rest : List Char} (nonempty : run ≠ [])
    (each : ∀ c ∈ run, member c = true) (stops : Stops member rest) :
    takeRun member (run ++ rest) = some (run, rest) := by
  rw [takeRun, takeWhile_of_stops each stops, dropWhile_of_stops each stops]
  exact if_neg fun empty => nonempty (List.isEmpty_iff.mp empty)

theorem takeRun_eq_none {member : Char → Bool} {text : List Char} (stops : Stops member text) :
    takeRun member text = none := by
  cases text with
  | nil => rfl
  | cons c rest => simp [takeRun, stops c rfl]

def spacing : List Char := [' ', '\t']

theorem skipSpaces_append {spaces rest : List Char} (spaced : ∀ c ∈ spaces, c ∈ spacing)
    (stops : Stops (fun c => c == ' ' || c == '\t') rest) : skipSpaces (spaces ++ rest) = rest :=
  dropWhile_of_stops
    (fun c member => (show ∀ c ∈ spacing, (c == ' ' || c == '\t') = true from
      forall_mem_of_all (by decide)) c (spaced c member)) stops

/-- Blanks between two words are taken. -/
theorem blanks_append {spaces rest : List Char} (nonempty : spaces ≠ [])
    (spaced : ∀ c ∈ spaces, c ∈ spacing)
    (stops : Stops (fun c => c == ' ' || c == '\t') rest) : blanks (spaces ++ rest) = some rest := by
  obtain ⟨c, others, rfl⟩ := List.exists_cons_of_ne_nil nonempty
  obtain ⟨isSpace, spaced⟩ := List.forall_mem_cons.mp spaced
  have skipped := skipSpaces_append spaced stops
  simp only [spacing, List.mem_cons, List.not_mem_nil, or_false] at isSpace
  rcases isSpace with rfl | rfl <;> exact congrArg some skipped

/-- A comma is taken with the spaces around it. -/
theorem comma_append {before after rest : List Char} (spacedBefore : ∀ c ∈ before, c ∈ spacing)
    (spacedAfter : ∀ c ∈ after, c ∈ spacing)
    (stops : Stops (fun c => c == ' ' || c == '\t') rest) :
    comma (before ++ ',' :: (after ++ rest)) = some rest := by
  have skipped : skipSpaces (before ++ ',' :: (after ++ rest)) = ',' :: (after ++ rest) := by
    refine skipSpaces_append spacedBefore fun c isComma => ?_
    obtain rfl := Option.some.inj isComma
    rfl
  rw [comma, skipped]
  exact congrArg some (skipSpaces_append spacedAfter stops)

/-! ## Operands -/

def integerChars : List Char := '-' :: 'x' :: (decimalDigits ++ hexLetters ++ sizeLetters)

theorem Integer.mem_chars (integer : Integer) : ∀ c ∈ integer.chars, c ∈ integerChars := by
  intro c member
  have digits : c ∈ decimalDigits ++ hexLetters → c ∈ integerChars := fun isDigit =>
    List.mem_cons_of_mem _ (List.mem_cons_of_mem _ (List.mem_append_left _ isDigit))
  rcases List.mem_append.mp member with sign | body
  · split at sign
    · obtain rfl := List.mem_singleton.mp sign
      decide
    · cases sign
  rcases List.mem_append.mp body with isMagnitude | isLetter
  · cases isKind : integer.magnitude with
    | decimal numeral =>
        rw [isKind] at isMagnitude
        exact digits (numeral.each c isMagnitude).mem
    | hexadecimal numeral =>
        rw [isKind] at isMagnitude
        rcases List.mem_cons.mp isMagnitude with rfl | isRest
        · decide
        rcases List.mem_cons.mp isRest with rfl | isDigit
        · decide
        · exact digits (numeral.each c isDigit).mem
  · have isSize := isSizeLetter_iff.mp (integer.sized c isLetter)
    exact List.mem_cons_of_mem _ (List.mem_cons_of_mem _ (List.mem_append_right _ isSize))

/-- An integer starts with a sign or a digit. -/
theorem Integer.exists_first (integer : Integer) :
    ∃ c ∈ '-' :: decimalDigits, ∃ rest, integer.chars = c :: rest := by
  obtain ⟨c, isDigit, rest, opens⟩ := integer.magnitude.exists_digit
  unfold Integer.chars
  split
  · exact ⟨'-', List.mem_cons_self, _, rfl⟩
  · exact ⟨c, List.mem_cons_of_mem _ isDigit, rest ++ integer.letters, by rw [opens]; rfl⟩

/-- An integer is a whole run of its characters. -/
theorem Integer.takeRun_chars (integer : Integer) {member : Char → Bool}
    (each : ∀ c ∈ integerChars, member c = true) :
    takeRun member integer.chars = some (integer.chars, []) := by
  obtain ⟨c, -, rest, opens⟩ := integer.exists_first
  have nonempty : integer.chars ≠ [] := opens ▸ List.cons_ne_nil c rest
  have noMore : Stops member [] := nofun
  have taken := takeRun_of_stops nonempty
    (fun c inChars => each c (integer.mem_chars c inChars)) noMore
  rwa [List.append_nil] at taken

/-- What an integer is taken for: one that is too long is no number. -/
def Integer.token (integer : Integer) : Token :=
  integer.literal?.elim (.descriptor integer.chars) .literal

theorem takeNumber_integer (integer : Integer) :
    takeNumber integer.chars = integer.literal?.map fun literal => (literal, []) := by
  obtain ⟨c, isFirst, rest, opens⟩ := integer.exists_first
  have run : takeRun isNumberChar integer.chars = some (integer.chars, []) :=
    integer.takeRun_chars (forall_mem_of_all (by decide))
  have starts : startsNumber integer.chars = true := by
    rw [opens]
    exact (show ∀ c ∈ '-' :: decimalDigits, startsNumber [c] = true from
      forall_mem_of_all (by decide)) c isFirst
  rw [takeNumber, run]
  change (if startsNumber integer.chars = true then _ else _) = _
  rw [if_pos starts, readLiteral_chars]
  cases integer.literal? <;> rfl

/-- What starts with a sign or a digit is a number or a descriptor. -/
theorem takeOperand_first {c : Char} (isFirst : c ∈ '-' :: decimalDigits) (rest : List Char) :
    takeOperand (c :: rest) =
      ((takeNumber (c :: rest)).map fun taken => (Token.literal taken.1, taken.2)).or
        ((takeDescriptor (c :: rest)).map fun taken => (Token.descriptor taken.1, taken.2)) := by
  simp only [decimalDigits, List.mem_cons, List.not_mem_nil, or_false] at isFirst
  rcases isFirst with rfl | rfl | rfl | rfl | rfl | rfl | rfl | rfl | rfl | rfl | rfl <;> rfl

theorem takeOperand_integer (integer : Integer) :
    takeOperand integer.chars = some (integer.token, []) := by
  obtain ⟨c, isFirst, rest, opens⟩ := integer.exists_first
  have descriptor : takeDescriptor integer.chars = some (integer.chars, []) :=
    integer.takeRun_chars (forall_mem_of_all (by decide))
  have number := takeNumber_integer integer
  rw [opens] at descriptor number ⊢
  rw [takeOperand_first isFirst, number, descriptor, ← opens, Integer.token]
  cases integer.literal? <;> rfl

structure RegisterName where
  isParameter : Bool
  numeral : Numeral 10
  small : numeral.value < 65536

namespace RegisterName

def chars (register : RegisterName) : List Char :=
  (if register.isParameter then 'p' else 'v') :: register.numeral.digits

def name (register : RegisterName) : RegName :=
  ⟨register.isParameter, register.numeral.value⟩

end RegisterName

theorem takeRegister_chars (register : RegisterName) {rest : List Char}
    (stops : Stops Char.isDigit rest) :
    takeRegister (register.chars ++ rest) = some (register.name, rest) := by
  obtain ⟨isParameter, numeral, small⟩ := register
  have digits : takeRun Char.isDigit (numeral.digits ++ rest) = some (numeral.digits, rest) :=
    takeRun_of_stops numeral.nonempty (fun c member =>
      (show ∀ c ∈ decimalDigits, c.isDigit = true from forall_mem_of_all (by decide)) c
        (numeral.each c member).mem_decimal) stops
  have number : readUnsigned 10 65536 numeral.digits = some numeral.value := by
    rw [readUnsigned_digits, if_pos small]
  cases isParameter <;>
    simp [RegisterName.chars, RegisterName.name, takeRegister, digits, number]

def Ends (text : List Char) : Prop :=
  ∀ c ∈ text.head?, c ∈ ',' :: spacing

theorem Ends.stops {text : List Char} (ends : Ends text) {member : Char → Bool}
    (others : ∀ c ∈ ',' :: spacing, member c = false) : Stops member text :=
  fun c isFirst => others c (ends c isFirst)

theorem takeOperand_register (register : RegisterName) {rest : List Char} (ends : Ends rest) :
    takeOperand (register.chars ++ rest) = some (.reg register.name, rest) := by
  have lone : takeLoneRegister (register.chars ++ rest) = some (register.name, rest) := by
    have noDescriptor : Stops isDescriptorChar rest := ends.stops (forall_mem_of_all (by decide))
    have noDigit : Stops Char.isDigit rest := ends.stops (forall_mem_of_all (by decide))
    have noMore : takeDescriptor rest = none := takeRun_eq_none noDescriptor
    rw [takeLoneRegister, takeRegister_chars register noDigit]
    simp only [noMore]
    rfl
  have noBrace : takeBraced takeListBody (register.chars ++ rest) = none := by
    rw [RegisterName.chars]
    cases register.isParameter <;> rfl
  rw [takeOperand, Rule.or, noBrace, Option.none_or, Rule.or, Rule.map, lone]
  rfl

/-! ## Lines -/

/-- A line of a method that starts with neither a point nor a colon is an instruction. -/
theorem Progress.readLine_instruction {progress : Progress} {draft : Draft} {number : Nat}
    {text : List Char} (code : progress.skipping = false) (isOpen : progress.draft = some draft)
    (noTable : draft.pending = none) {c : Char}
    (opens : (Text.splitWord text).1.head? = some c) (notPoint : c ≠ '.') (notColon : c ≠ ':') :
    progress.readLine number text = (draft.addInstruction number text).map fun longer =>
      { progress with draft := some longer } := by
  have nonempty : text.isEmpty = false := by
    cases text with
    | nil => cases opens
    | cons first rest => rfl
  generalize split : Text.splitWord text = parts at opens
  obtain ⟨word, rest⟩ := parts
  have notWord : ∀ directive : List Char, directive.head? = some '.' → word ≠ directive := by
    rintro directive point rfl
    exact notPoint (Option.some.inj (opens.symm.trans point))
  have notName : ∀ directive : String, directive.toList.head? = some '.' →
      String.ofList word ≠ directive := by
    intro directive point same
    exact notWord _ point (by rw [← same, String.toList_ofList])
  have notIgnored : ignoredDirectives.contains (String.ofList word) = false := by
    refine Bool.eq_false_iff.mpr fun member => ?_
    have point := (show ∀ directive ∈ ignoredDirectives, directive.toList.head? = some '.' by decide)
      _ (List.contains_iff_mem.mp member)
    exact notName _ point rfl
  have line : draft.addLine number word rest text = draft.addInstruction number text := by
    rw [Draft.addLine,
      if_neg (not_or.mpr ⟨notWord _ (by decide), notWord _ (by decide)⟩),
      if_neg (not_or.mpr ⟨notWord _ (by decide), notWord _ (by decide)⟩),
      if_neg (notWord _ (by decide)), if_neg (notWord _ (by decide)), if_neg (notWord _ (by decide)),
      if_neg fun colon => notColon (Option.some.inj (opens.symm.trans colon)),
      if_neg fun point => notPoint (Option.some.inj (opens.symm.trans point))]
  rw [readLine, nonempty, code, isOpen]
  simp only [Bool.false_eq_true, if_false, noTable]
  rw [readPlainLine, split]
  simp only [notIgnored, isOpen, line, Bool.false_eq_true, if_false]
  rw [if_neg (notName _ (by decide)),
    if_neg (not_or.mpr ⟨notName _ (by decide), notName _ (by decide)⟩),
    if_neg (notName _ (by decide)), if_neg (notName _ (by decide))]
  cases draft.addInstruction number text with
  | error error => rfl
  | ok longer => simp only [bind, Except.bind, pure, Except.pure, Except.map, code]

/-- A line that loads an integer into a register, as a wide constant or a narrow one. -/
structure ConstantLine where
  isWide : Bool
  register : RegisterName
  integer : Integer
  gap : List Char
  before : List Char
  after : List Char
  separated : gap ≠ []
  spaced : ∀ c ∈ gap ++ before ++ after, c ∈ spacing

namespace ConstantLine

def opcode (line : ConstantLine) : Opcode :=
  if line.isWide then .constWide else .const

def bits (line : ConstantLine) : Nat :=
  if line.isWide then 64 else 32

def operands (line : ConstantLine) : List Char :=
  line.register.chars ++ (line.before ++ ',' :: (line.after ++ line.integer.chars))

def chars (line : ConstantLine) : List Char :=
  line.opcode.mnemonic.toList ++ (line.gap ++ line.operands)

def tokens (line : ConstantLine) : List Token :=
  [.reg line.register.name, line.integer.token]

variable (line : ConstantLine)

theorem opcode_eq : line.opcode = .constWide ∨ line.opcode = .const := by
  unfold opcode
  split
  · exact .inl rfl
  · exact .inr rfl

theorem spaced_parts : (∀ c ∈ line.gap, c ∈ spacing) ∧ (∀ c ∈ line.before, c ∈ spacing) ∧
    ∀ c ∈ line.after, c ∈ spacing := by
  simpa only [List.forall_mem_append, and_assoc] using line.spaced

theorem ends_register :
    Ends (line.before ++ ',' :: (line.after ++ line.integer.chars)) := by
  intro c isFirst
  cases isBefore : line.before with
  | nil =>
      rw [isBefore] at isFirst
      obtain rfl := Option.some.inj isFirst
      exact List.mem_cons_self
  | cons first others =>
      rw [isBefore] at isFirst
      obtain rfl := Option.some.inj isFirst
      exact List.mem_cons_of_mem _ (line.spaced_parts.2.1 _ (isBefore ▸ List.mem_cons_self))

/-- The operands are read one after the other. -/
theorem takeSeparated_operands :
    takeSeparated comma takeOperand line.operands = (line.tokens, []) := by
  obtain ⟨-, before, after⟩ := line.spaced_parts
  have first := takeOperand_register line.register line.ends_register
  have second : (comma (line.before ++ ',' :: (line.after ++ line.integer.chars))).bind takeOperand =
      some (line.integer.token, []) := by
    rw [comma_append before after, Option.bind_some, takeOperand_integer]
    obtain ⟨c, isFirst, rest, opens⟩ := line.integer.exists_first
    intro other same
    rw [opens] at same
    obtain rfl := Option.some.inj same
    exact (show ∀ c ∈ '-' :: decimalDigits, (c == ' ' || c == '\t') = false from
      forall_mem_of_all (by decide)) c isFirst
  have nothing : ∀ fuel, takeMore comma takeOperand fuel [] = ([], []) := by
    rintro (_ | fuel) <;> rfl
  obtain ⟨fuel, isFuel⟩ : ∃ fuel,
      (line.before ++ ',' :: (line.after ++ line.integer.chars)).length = fuel + 1 := by
    refine ⟨line.before.length + (line.after ++ line.integer.chars).length, ?_⟩
    rw [List.length_append, List.length_cons, Nat.add_assoc]
  rw [operands, takeSeparated, first]
  dsimp only
  rw [isFuel, takeMore, second]
  simp only [nothing]
  rfl

/-- The line goes on with a space behind the mnemonic. -/
theorem exists_gap : ∃ c ∈ spacing, ∃ rest, line.gap ++ line.operands = c :: rest := by
  obtain ⟨c, others, isGap⟩ := List.exists_cons_of_ne_nil line.separated
  exact ⟨c, line.spaced_parts.1 c (isGap ▸ List.mem_cons_self), others ++ line.operands,
    by rw [isGap]; rfl⟩

theorem stops_gap {member : Char → Bool} (others : ∀ c ∈ spacing, member c = false) :
    Stops member (line.gap ++ line.operands) := by
  obtain ⟨c, isSpace, rest, opens⟩ := line.exists_gap
  intro other same
  rw [opens] at same
  obtain rfl := Option.some.inj same
  exact others c isSpace

/-- The line is read as its opcode's mnemonic and its operands. -/
theorem takeInstruction_chars :
    Rule.all takeInstruction line.chars = some (line.opcode.mnemonic.toList, line.tokens) := by
  have word : takeRun isMnemonicChar line.chars =
      some (line.opcode.mnemonic.toList, line.gap ++ line.operands) := by
    refine takeRun_of_stops ?_ ?_ (line.stops_gap (forall_mem_of_all (by decide)))
    · rcases line.opcode_eq with isOpcode | isOpcode <;> rw [isOpcode] <;> decide
    · rcases line.opcode_eq with isOpcode | isOpcode <;> rw [isOpcode] <;>
        exact forall_mem_of_all (by decide)
  have gap : blanks (line.gap ++ line.operands) = some line.operands := by
    refine blanks_append line.separated line.spaced_parts.1 ?_
    rw [operands, RegisterName.chars]
    cases line.register.isParameter <;>
      exact fun c same => Option.some.inj same ▸ rfl
  simp only [Rule.all, takeInstruction, word, gap, takeSeparated_operands, bind, Option.bind]
  rfl

theorem ofMnemonic?_mnemonic :
    Opcode.ofMnemonic? (String.ofList line.opcode.mnemonic.toList) = some line.opcode := by
  rcases line.opcode_eq with isOpcode | isOpcode <;> rw [isOpcode] <;> decide +kernel

def pending (draft : Draft) (number : Nat) : DraftInstruction :=
  ⟨number, draft.addr, line.opcode, line.tokens⟩

def added (draft : Draft) (number : Nat) : Draft :=
  { draft with
    instructions := draft.instructions ++ [line.pending draft number]
    addr := draft.addr + line.opcode.format.size }

/-- The line is added to an open method, outside of data tables and annotations. -/
theorem readLine_chars {progress : Progress} {draft : Draft} (number : Nat)
    (code : progress.skipping = false) (isOpen : progress.draft = some draft)
    (noTable : draft.pending = none) :
    progress.readLine number line.chars =
      .ok { progress with draft := some (line.added draft number) } := by
  have added : draft.addInstruction number line.chars = .ok (line.added draft number) := by
    rw [Draft.addInstruction, line.takeInstruction_chars]
    simp only [line.ofMnemonic?_mnemonic]
    rfl
  have word : (Text.splitWord line.chars).1 = line.opcode.mnemonic.toList := by
    refine takeWhile_of_stops ?_ (line.stops_gap (forall_mem_of_all (by decide)))
    rcases line.opcode_eq with isOpcode | isOpcode <;> rw [isOpcode] <;>
      exact forall_mem_of_all (by decide)
  have opens : (Text.splitWord line.chars).1.head? = some 'c' := by
    rw [word]
    rcases line.opcode_eq with isOpcode | isOpcode <;> rw [isOpcode] <;> decide
  rw [Progress.readLine_instruction code isOpen noTable opens (by decide) (by decide), added]
  rfl

/-! ## Assembling -/

variable {draft : Draft} {frame : Frame} {pool : Pool} {number : Nat} {addr : Addr} {reg : Reg}

/-- The line is refused if its integer is. -/
theorem assembleInstruction_refused {fault : ListingFault}
    (resolves : frame.resolve number line.register.name = .ok reg)
    (refused : ∀ sofar, draft.gather frame number line.opcode sofar line.integer.token =
      fail number fault) :
    draft.assembleInstruction frame pool ⟨number, addr, line.opcode, line.tokens⟩ =
      fail number fault := by
  have first : draft.gather frame number line.opcode { pool } (.reg line.register.name) =
      .ok { pool, regs := [reg] } := by
    rw [Draft.gather, resolves]
    rfl
  have gathers : line.tokens.foldlM (draft.gather frame number line.opcode) { pool } =
      fail number fault := by
    rw [tokens, List.foldlM_cons, first]
    change (draft.gather frame number line.opcode _ line.integer.token >>= _) = _
    rw [refused]
    rfl
  rw [Draft.assembleInstruction, gathers]
  rfl

/-- A register and a literal that fit their fields are encoded. -/
theorem exists_encode {value : Int64} (small : reg.number < 256)
    (fits : line.isWide = false → -(2 ^ 31) ≤ value.toInt ∧ value.toInt < 2 ^ 31) :
    ∃ units, Binary.encode line.opcode { regs := [reg], literal := some value } = .ok units := by
  have register : reg.fits 8 = true := (reg.fits_iff 8).mpr (.inr small)
  have field : Binary.encodeReg [reg] 0 8 = .ok reg.number := if_pos register
  cases isKind : line.isWide with
  | true =>
      have isOpcode : line.opcode = .constWide := if_pos isKind
      rw [isOpcode]
      refine ⟨Binary.unitOfBytes 0x18 reg.number :: Binary.units64 (Binary.unsigned 64 value.toInt),
        Binary.encode_eq_ok.mpr ⟨rfl, ?_⟩⟩
      change (Binary.encodeReg [reg] 0 8 >>= _) = _
      rw [field]
      rfl
  | false =>
      have isOpcode : line.opcode = .const := if_neg (by simp [isKind])
      have literal : Binary.encodeSigned .literal 32 (some value.toInt) =
          .ok (Binary.unsigned 32 value.toInt) :=
        if_pos ((Binary.fitsSigned_iff 32 _).mpr (fits isKind))
      rw [isOpcode]
      refine ⟨Binary.unitOfBytes 0x14 reg.number :: Binary.units32 (Binary.unsigned 32 value.toInt),
        Binary.encode_eq_ok.mpr ⟨rfl, ?_⟩⟩
      change (Binary.encodeSigned .literal 32 (some value.toInt) >>= _) = _
      rw [literal]
      change (Binary.encodeReg [reg] 0 8 >>= _) = _
      rw [field]
      rfl

/-- What the operands come to otherwise. -/
theorem assembleInstruction_fitting {literal : Literal} {value : Int64}
    (resolves : frame.resolve number line.register.name = .ok reg) (small : reg.number < 256)
    (short : line.integer.literal? = some literal)
    (isValue : literalValue number line.opcode literal = .ok value)
    (fits : line.isWide = false → -(2 ^ 31) ≤ value.toInt ∧ value.toInt < 2 ^ 31) :
    ∃ instruction,
      draft.assembleInstruction frame pool ⟨number, addr, line.opcode, line.tokens⟩ =
        .ok (pool, instruction) ∧ instruction.literal = some value := by
  have token : line.integer.token = .literal literal := by
    rw [Integer.token, short]
    rfl
  obtain ⟨units, encoded⟩ := line.exists_encode small fits
  have gathers : line.tokens.foldlM (draft.gather frame number line.opcode) { pool } =
      .ok { pool, regs := [reg], literal := some value } := by
    simp only [tokens, token, List.foldlM_cons, List.foldlM_nil, Draft.gather, resolves, isValue,
      bind, Except.bind, pure, Except.pure, List.nil_append]
  have checks : Draft.checkOperands number line.opcode
      { pool, regs := [reg], literal := some value } = .ok () := by
    rcases line.opcode_eq with isOpcode | isOpcode <;> rw [isOpcode] <;> rfl
  refine ⟨{ addr, opcodeByte := line.opcode.value, format := line.opcode.format, regs := [reg],
            literal := some value, units }, ?_, rfl⟩
  rw [Draft.assembleInstruction, gathers]
  simp only [bind, Except.bind, checks, Option.mapM_none, pure, Except.pure, Option.map_none,
    encoded, atLine]
  rcases line.opcode_eq with isOpcode | isOpcode <;> rw [isOpcode] <;> rfl

theorem isWide_of_bits : line.isWide = true ∧ line.bits = 64 ∨ line.isWide = false ∧ line.bits = 32 := by
  unfold bits
  cases line.isWide with
  | true => exact .inl ⟨rfl, rfl⟩
  | false => exact .inr ⟨rfl, rfl⟩

/-- A wide opcode takes any word, a narrow one what is in the range of 32 bits. -/
theorem literalValue_wide {word : Int64} (isWide : line.isWide = true) :
    literalValue number line.opcode (.int word) = .ok word := by
  have isOpcode : line.opcode = .constWide := if_pos isWide
  rw [isOpcode]
  rfl

theorem literalValue_narrow {word : Int64} (isNarrow : line.isWide = false)
    (fits : InRange 32 word.toInt) :
    ∃ value, literalValue number line.opcode (.int word) = .ok value ∧
      value.toInt = word.toInt.bmod (2 ^ 32) := by
  have isOpcode : line.opcode = .const := if_neg (by simp [isNarrow])
  have narrow : narrow? word = some (Int32.ofInt word.toInt) := if_pos fits
  refine ⟨Int64.ofInt (Int32.ofInt word.toInt).toInt, ?_, ?_⟩
  · rw [isOpcode, literalValue, if_neg (by decide)]
    simp only [narrow]
  · have bounds := Int32.toInt_lt (Int32.ofInt word.toInt)
    have least := Int32.le_toInt (Int32.ofInt word.toInt)
    rw [Int64.toInt_ofInt_of_le (by omega) (by omega), Int32.toInt_ofInt]
    rfl

theorem literalValue_large {word : Int64} (isNarrow : line.isWide = false)
    (large : ¬InRange 32 word.toInt) :
    literalValue number line.opcode (.int word) =
      fail number (.largeLiteral word.toInt line.opcode) := by
  have isOpcode : line.opcode = .const := if_neg (by simp [isNarrow])
  have narrow : narrow? word = none := if_neg large
  rw [isOpcode, literalValue, if_neg (by decide)]
  simp only [narrow]

/-- An integer in range, or 2^64 away from one, is assembled. -/
theorem assembleInstruction_kept (resolves : frame.resolve number line.register.name = .ok reg)
    (small : reg.number < 256)
    (kept : InRange line.bits line.integer.value ∨ Wraps line.bits line.integer.value) :
    ∃ instruction literal,
      draft.assembleInstruction frame pool ⟨number, addr, line.opcode, line.tokens⟩ =
        .ok (pool, instruction) ∧ instruction.literal = some literal ∧
      literal.toInt = line.integer.value.bmod (2 ^ line.bits) := by
  rcases line.isWide_of_bits with ⟨isWide, isBits⟩ | ⟨isNarrow, isBits⟩
  · rw [isBits] at kept ⊢
    obtain ⟨word, short, value⟩ := line.integer.exists_word (inRange_or_wraps_64.mp kept)
    obtain ⟨instruction, assembled, isLiteral⟩ := line.assembleInstruction_fitting resolves small
      short (line.literalValue_wide isWide) (by simp [isWide])
    exact ⟨instruction, word, assembled, isLiteral, value⟩
  · rw [isBits] at kept ⊢
    obtain ⟨bounded, inRange⟩ := inRange_or_wraps_32.mp kept
    obtain ⟨word, short, value⟩ := line.integer.exists_word bounded
    rw [← value] at inRange
    obtain ⟨literal, isValue, congruent⟩ := line.literalValue_narrow isNarrow inRange
    rw [value, Int.bmod_bmod_of_dvd (by decide)] at congruent
    have fits : -(2 ^ 31) ≤ literal.toInt ∧ literal.toInt < 2 ^ 31 := by
      rw [congruent, Int.bmod_def]
      omega
    obtain ⟨instruction, assembled, isLiteral⟩ :=
      line.assembleInstruction_fitting resolves small short isValue fun _ => fits
    exact ⟨instruction, literal, assembled, isLiteral, congruent⟩

/-- Any other integer is refused. -/
theorem assembleInstruction_lost (resolves : frame.resolve number line.register.name = .ok reg)
    (lost : ¬(InRange line.bits line.integer.value ∨ Wraps line.bits line.integer.value)) :
    ∃ fault, draft.assembleInstruction frame pool ⟨number, addr, line.opcode, line.tokens⟩ =
      fail number fault := by
  by_cases bounded : -(2 ^ 64) < line.integer.value ∧ line.integer.value < 2 ^ 64
  · rcases line.isWide_of_bits with ⟨isWide, isBits⟩ | ⟨isNarrow, isBits⟩
    · rw [isBits, inRange_or_wraps_64] at lost
      exact absurd bounded lost
    · rw [isBits, inRange_or_wraps_32] at lost
      obtain ⟨word, short, value⟩ := line.integer.exists_word bounded
      have large : ¬InRange 32 word.toInt := fun inRange => lost ⟨bounded, value ▸ inRange⟩
      refine ⟨.largeLiteral word.toInt line.opcode,
        line.assembleInstruction_refused resolves fun sofar => ?_⟩
      rw [Integer.token, short]
      change (literalValue number line.opcode (.int word) >>= _) = _
      rw [line.literalValue_large isNarrow large]
      rfl
  · have long := line.integer.literal?_of_long bounded
    have noReference : line.opcode.reference = none := by
      rcases line.opcode_eq with isOpcode | isOpcode <;> rw [isOpcode] <;> rfl
    refine ⟨.unexpectedOperand (String.ofList line.integer.chars) line.opcode,
      line.assembleInstruction_refused resolves fun sofar => ?_⟩
    rw [Integer.token, long]
    change (internReference number sofar.pool line.opcode line.integer.chars >>= _) = _
    rw [internReference, noReference]
    rfl

/-- A line that loads an integer is added to its method.  When that is closed, the line is
assembled exactly if its integer is in the range of the register's bits, or 2^64 away from one in
that range; the literal is then the signed number congruent to the integer. -/
theorem constant_of_line {progress : Progress} (code : progress.skipping = false)
    (isOpen : progress.draft = some draft) (noTable : draft.pending = none) :
    progress.readLine number line.chars =
        .ok { progress with draft := some (line.added draft number) } ∧
      ∀ (closed : Draft) (frame : Frame) (pool : Pool) (reg : Reg),
        frame.resolve number line.register.name = .ok reg → reg.number < 256 →
        ((∃ later instruction, closed.assembleInstruction frame pool (line.pending draft number) =
            .ok (later, instruction)) ↔
          InRange line.bits line.integer.value ∨ Wraps line.bits line.integer.value) ∧
        ∀ outcome, closed.assembleInstruction frame pool (line.pending draft number) = outcome →
          match outcome with
          | .ok (_, instruction) => ∃ literal, instruction.literal = some literal ∧
              literal.toInt = line.integer.value.bmod (2 ^ line.bits)
          | .error error => ∃ fault, error = .listing number fault := by
  refine ⟨line.readLine_chars number code isOpen noTable, ?_⟩
  intro closed frame pool reg resolves small
  by_cases kept : InRange line.bits line.integer.value ∨ Wraps line.bits line.integer.value
  · obtain ⟨instruction, literal, assembled, isLiteral, value⟩ :=
      line.assembleInstruction_kept resolves small kept
    refine ⟨iff_of_true ⟨pool, instruction, assembled⟩ kept, ?_⟩
    rintro outcome rfl
    rw [pending, assembled]
    exact ⟨literal, isLiteral, value⟩
  · obtain ⟨fault, refused⟩ := line.assembleInstruction_lost resolves kept
    refine ⟨iff_of_false ?_ kept, ?_⟩
    · rintro ⟨later, instruction, assembled⟩
      cases refused.symm.trans assembled
    · rintro outcome rfl
      rw [pending, refused]
      exact ⟨fault, rfl⟩

end ConstantLine

/-- An unsigned mask of 32 bits, with a size letter. -/
def maskLine : ConstantLine where
  isWide := false
  register := ⟨false, ⟨['1'], by decide, forall_mem_of_all (by decide)⟩, by decide⟩
  integer := ⟨false, .hexadecimal ⟨List.replicate 8 'f', by decide, forall_mem_of_all (by decide)⟩,
    ['L'], forall_mem_of_all (by decide)⟩
  gap := [' ']
  before := []
  after := [' ']
  separated := by decide
  spaced := forall_mem_of_all (by decide)

def emptyDraft : Draft where
  line := 2
  method := ⟨.object "a/B", "f", ⟨[], .void⟩⟩
  flags := .empty

theorem constant_maskLine :
    ({ draft := some emptyDraft } : Progress).readLine 4 "const v1, 0xffffffffL".toList =
        .ok { draft := some (maskLine.added emptyDraft 4) } ∧
      ∃ pool instruction,
        emptyDraft.assembleInstruction ⟨2, 0⟩ {} (maskLine.pending emptyDraft 4) =
          .ok (pool, instruction) ∧
        ∃ literal, instruction.literal = some literal ∧ literal.toInt = -1 := by
  have value : maskLine.integer.value = 4294967295 := by decide +kernel
  obtain ⟨added, assembles⟩ :=
    @ConstantLine.constant_of_line maskLine emptyDraft 4 { draft := some emptyDraft } rfl rfl rfl
  obtain ⟨iff, outcome⟩ := assembles emptyDraft ⟨2, 0⟩ {} (.ofNat 1) rfl (by decide)
  obtain ⟨pool, instruction, assembled⟩ := iff.mpr (.inl (by rw [value]; decide))
  obtain ⟨literal, isLiteral, congruent⟩ := outcome _ assembled
  refine ⟨added, pool, instruction, assembled, literal, isLiteral, ?_⟩
  rw [congruent, value]
  decide

/-- The first integer below the range of 64 bits. -/
def belowLine : ConstantLine where
  isWide := true
  register := ⟨false, ⟨['0'], by decide, forall_mem_of_all (by decide)⟩, by decide⟩
  integer := ⟨true, .decimal ⟨"9223372036854775809".toList, by decide,
    forall_mem_of_all (by decide)⟩, [], forall_mem_of_all (by decide)⟩
  gap := [' ']
  before := []
  after := [' ']
  separated := by decide
  spaced := forall_mem_of_all (by decide)

def belowText : String :=
  ".class La/B;\n.method static f()V\n    .registers 2\n" ++
  "    const-wide v0, -9223372036854775809\n    return-void\n.end method\n"

/-- An integer that is out of range is loaded as one of the other sign. -/
theorem constant_belowLine :
    ¬InRange 64 belowLine.integer.value ∧ belowLine.chars ∈ writtenLines belowText ∧
      (∃ listing, read belowText = .ok listing ∧ listing.methods.length = 1) ∧
      ∃ assembled, emptyDraft.assembleInstruction ⟨2, 0⟩ {} (belowLine.pending emptyDraft 4) =
        .ok assembled ∧ assembled.2.literal = some 9223372036854775807 := by
  have value : belowLine.integer.value = -9223372036854775809 := by decide +kernel
  refine ⟨?_, by decide +kernel, exists_ok_of_decide (by decide +kernel),
    exists_ok_of_decide (by decide +kernel)⟩
  rw [value]
  decide

end Dalvik.Listing
