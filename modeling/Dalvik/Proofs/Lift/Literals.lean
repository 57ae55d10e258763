import Dalvik.Proofs.Lift.Casts
import Dalvik.Proofs.Lift.Segments

/-!
# Bits of literals

A `const` instruction loads a literal, all of its bits into a wide register and the low ones into
a narrow one.  In the body it assigns a constant of the kind of its class.  This has the bits
that are loaded unless they are of a wide literal and the kind is narrow.
-/

namespace Dalvik

namespace Constant

def bits? : Constant → Option UInt64
  | .int value => some value.toUInt32.toUInt64
  | .long value => some value.toUInt64
  | .float bits => some bits.toUInt64
  | .double bits => some bits
  | .null => some 0
  | .string _ | .type _ => none

theorem low_eq_self_iff {bits : UInt64} : bits.toUInt32.toUInt64 = bits ↔ bits.toNat < UInt32.size := by
  rw [← UInt64.toNat_inj, UInt32.toNat_toUInt64, UInt64.toNat_toUInt32]
  exact ⟨fun same => same ▸ Nat.mod_lt _ (by decide), Nat.mod_eq_of_lt⟩

/-- A constant has the bits it is made of if its kind has room for them. -/
theorem bits?_ofBits_iff {kind : Kind} {bits : UInt64} :
    (ofBits kind bits).bits? = some bits ↔ kind.width = .wide ∨ bits.toNat < UInt32.size := by
  have low : some bits.toUInt32.toUInt64 = some bits ↔ bits.toNat < UInt32.size :=
    Option.some_inj.trans low_eq_self_iff
  cases kind with
  | int | float => exact low.trans (or_iff_right (by decide)).symm
  | long | double => exact iff_of_true rfl (.inl rfl)
  | object =>
      refine Iff.trans ?_ (or_iff_right (by decide)).symm
      rw [ofBits]
      split
      · rename_i zero
        exact iff_of_true (congrArg some zero.symm) (zero ▸ by decide)
      · exact low

end Constant

/-- The bits that an opcode loads of a literal: all of them into a wide register, and the low
ones into a narrow one. -/
def Opcode.loadedBits (opcode : Opcode) (literal : Int64) : UInt64 :=
  match opcode.width with
  | .wide => literal.toUInt64
  | .narrow => literal.toUInt64.toUInt32.toUInt64

def Instruction.loadedBits? (instruction : Instruction) : Option UInt64 := do
  let opcode ← instruction.opcode
  let literal ← instruction.literal
  return opcode.loadedBits literal

/-- Each live instruction of the family `const` assigns a constant with the bits it loads. -/
def Body.KeepsLiterals (body : Body) (code : Code) (isLive : Addr → Bool) : Prop :=
  ∀ instruction ∈ code.instructions, isLive instruction.addr = true →
    instruction.opcode.map Opcode.family = some .const →
      ∃ bits dest constant rest, instruction.loadedBits? = some bits ∧
        body.statementsAt instruction.addr = .assign (.var dest) (.use (.constant constant)) :: rest ∧
          constant.bits? = some bits

namespace Lower

variable {context : LoweringContext} {current : Current} {before after : LoweringState}
  {statements : List (Statement Slot)}

theorem contract_of_const (family : current.opcode.family = .const) :
    (current.contract == .wide) = true ∧ current.opcode.width = .wide ∨
      (current.contract == .wide) = false ∧ current.opcode.width = .narrow := by
  rcases kind_of_const family with kind | kind <;> rw [Current.contract, Opcode.width, kind]
  · exact .inr (by decide)
  · exact .inl (by decide)

/-- What is loaded is what lowering makes of the literal. -/
theorem literalBits_of_const (family : current.opcode.family = .const) (literal : Int64) :
    (literalBits (current.contract == .wide) literal).1 = current.opcode.loadedBits literal := by
  rcases contract_of_const family with ⟨isWide, width⟩ | ⟨isNarrow, width⟩
  · rw [isWide, Opcode.loadedBits, width]
    rfl
  · rw [isNarrow, Opcode.loadedBits, width, literalBits, if_neg Bool.false_ne_true]
    split
    · rename_i zero
      rw [zero]
      rfl
    · rfl

/-- A `const` instruction assigns its literal to the register, to be typed as this is. -/
theorem const_statement (family : current.opcode.family = .const)
    (success : (const context current).run before = .ok (statements, after)) :
    ∃ literal wide dest, current.instruction.literal = some literal ∧
      statements = [.assign (.var dest) (.use (.literal (current.opcode.loadedBits literal) wide dest))] := by
  simp only [const, assign, bind_eq_ok, lift_eq_ok, pure_eq_ok, Prod.mk.injEq] at success
  obtain ⟨_, _, ⟨literal, given, rfl, rfl⟩, dest, _, -, rfl, rfl⟩ := success
  refine ⟨literal, current.contract == .wide, dest, ?_, ?_⟩
  · unfold Current.literal at given
    split at given
    · rename_i isLiteral
      exact isLiteral.trans (congrArg some (Except.ok.inj given))
    · cases given
  · rw [literalBits_of_const family]

end Lower

namespace Lift

open Lower

variable {isLive : Addr → Bool} {code : Code} {pool : Pool} {options : LiftOptions} {body : Body}
  {context : LoweringContext} {lowered : Lowered}

/-- The value that a `const` instruction defines, and the bits it loads. -/
structure Loads (context : LoweringContext) (isLive : Addr → Bool) (lowered : Lowered)
    (instruction : Instruction) (value : Nat) (bits : UInt64) : Prop where
  member : instruction ∈ context.code.instructions
  lives : isLive instruction.addr = true
  family : instruction.opcode.map Opcode.family = some .const
  loaded : instruction.loadedBits? = some bits
  defined : ∃ reg, instruction.regs[0]? = some reg ∧
    lowered.state.values.definedAt? (.at instruction.addr) reg = some value

namespace Loads

variable {instruction : Instruction} {value : Nat} {bits : UInt64}

theorem unique {other : Nat} {others : UInt64} (loads : Loads context isLive lowered instruction value bits)
    (otherLoads : Loads context isLive lowered instruction other others) :
    value = other ∧ bits = others := by
  obtain ⟨reg, first, defined⟩ := loads.defined
  obtain ⟨reg', first', defined'⟩ := otherLoads.defined
  obtain rfl := Option.some.inj (first.symm.trans first')
  exact ⟨Option.some.inj (defined.symm.trans defined'),
    Option.some.inj (loads.loaded.symm.trans otherLoads.loaded)⟩

/-- The value comes with a width that has room for the bits. -/
theorem comes (loads : Loads context isLive lowered instruction value bits) (sourced : context.Sourced) :
    ∃ width, Comes context lowered.state value width ∧ (width = .wide ∨ bits.toNat < UInt32.size) := by
  obtain ⟨reg, first, defined⟩ := loads.defined
  obtain ⟨opcode, isOpcode, isConst⟩ := Option.map_eq_some_iff.mp loads.family
  let current : Current := ⟨instruction, opcode, none⟩
  have listed : current.Listed context := ⟨isOpcode, loads.member, fun _ follows => by cases follows⟩
  have width : definedWidth current.opcode = some opcode.width := by
    rw [← current.width_contract]
    exact definedWidth_own (by simp [current, isConst])
  refine ⟨opcode.width, .defined defined (provides_own sourced listed first width), ?_⟩
  have loaded := loads.loaded
  simp only [Instruction.loadedBits?, isOpcode, Option.bind_eq_bind, Option.bind_some,
    Option.bind_eq_some_iff, Option.pure_def, Option.some.injEq] at loaded
  obtain ⟨literal, -, rfl⟩ := loaded
  cases isWidth : opcode.width with
  | wide => exact .inl rfl
  | narrow =>
      rw [Opcode.loadedBits, isWidth]
      exact .inr (UInt32.toNat_lt _)

end Loads

namespace Lifts

variable (lifts : Lifts code pool options body context lowered)
include lifts

/-- A live `const` instruction assigns the bits it loads as a constant of its class's kind. -/
theorem const_shown (distinct : (code.instructions.map Instruction.addr).Nodup)
    {instruction : Instruction} (listed : instruction ∈ code.instructions)
    (lives : options.keeps context.graph instruction.addr = true)
    (family : instruction.opcode.map Opcode.family = some .const) :
    ∃ value bits dest rest,
      Loads context (options.keeps context.graph) lowered instruction value bits ∧
        body.statementsAt instruction.addr =
          .assign (.var dest) (.use (.constant (.ofBits (lowered.solution.kindOf value) bits))) :: rest := by
  obtain ⟨isCode, -⟩ := contextOf_eq_ok.mp lifts.ofCode
  obtain ⟨next, isSegment⟩ := lifts.exists_segment distinct listed lives
  obtain ⟨statements, result, shown⟩ := isSegment.shown
  obtain ⟨before, after, success⟩ := result.runs
  obtain ⟨opcode, stands⟩ := result.stands
  have isOpcode : instruction.opcode = some opcode := stands.opcode
  have isConst : opcode.family = .const := by
    rw [isOpcode, Option.map_some] at family
    exact Option.some.inj family
  simp only [Lower.instruction, isOpcode, rule, isConst] at success
  obtain ⟨literal, wide, dest, isLiteral, rfl⟩ := const_statement isConst success
  obtain ⟨site, reg, defines, isDest⟩ := stands.writes _ List.mem_cons_self dest rfl
  obtain ⟨first, cast, shows, same⟩ := shown.of_singleton
  obtain ⟨var, rfl, -⟩ := shows.exists_defined
  rw [← isCode] at listed
  refine ⟨dest.value, opcode.loadedBits literal, var, cast.toList, ⟨listed, lives, ?_, ?_, ?_⟩, ?_⟩
  · rw [isOpcode, Option.map_some, isConst]
  · rw [Instruction.loadedBits?, isOpcode, isLiteral]
    rfl
  · cases defines with
    | own _ isFirst => exact ⟨reg, isFirst, isDest⟩
    | result passesOn _ _ => exact absurd passesOn (Bool.eq_false_iff.mp (keeps_of_family isConst rfl))
  · rw [body.statementsAt_of_placedAt same]
    rfl

/-- The constants of a body have the bits that are loaded exactly if those that do not fit a
narrow kind are in classes of wide ones. -/
theorem keepsLiterals_iff (distinct : (code.instructions.map Instruction.addr).Nodup) :
    body.KeepsLiterals code (options.keeps context.graph) ↔ ∀ instruction value bits,
      Loads context (options.keeps context.graph) lowered instruction value bits →
        (lowered.solution.kindOf value).width = .wide ∨ bits.toNat < UInt32.size := by
  obtain ⟨isCode, -⟩ := contextOf_eq_ok.mp lifts.ofCode
  constructor
  · intro keeps instruction value bits loads
    have listed := isCode ▸ loads.member
    obtain ⟨other, others, dest, rest, otherLoads, isShown⟩ :=
      lifts.const_shown distinct listed loads.lives loads.family
    obtain ⟨own, dest', constant, rest', isOwn, isAssigned, isBits⟩ :=
      keeps instruction listed loads.lives loads.family
    obtain ⟨rfl, rfl⟩ := loads.unique otherLoads
    obtain rfl := Option.some.inj (isOwn.symm.trans loads.loaded)
    rw [isShown, List.cons.injEq, Statement.assign.injEq, Expression.use.injEq,
      Operand.constant.injEq] at isAssigned
    exact Constant.bits?_ofBits_iff.mp (isAssigned.1.2 ▸ isBits)
  · intro fits instruction listed lives family
    obtain ⟨value, bits, dest, rest, loads, isShown⟩ := lifts.const_shown distinct listed lives family
    exact ⟨bits, dest, _, rest, loads.loaded, isShown,
      Constant.bits?_ofBits_iff.mpr (fits instruction value bits loads)⟩

/-- Kinds have the widths with which values come. -/
theorem width_kindOf_of_comes (fit : code.ResultsFit pool)
    (distinct : (code.instructions.map Instruction.addr).Nodup) (small : code.registers ≤ 65536)
    {value : Nat} {width : Width} (comes : Comes context lowered.state value width) :
    (lowered.solution.kindOf value).width = width := by
  have own := lifts.classWidth_of_comes fit distinct small comes
  cases conflict : lowered.solution.isConflicting value with
  | true =>
      rw [Lowered.solution, Solution.kindOf_eq_default lifts.inside comes.lt conflict, own]
      exact Solution.width_defaultKind width
  | false => exact (Solution.width_kindOf lifts.inside comes.lt conflict).trans own

/-- Where results fit, what is loaded fits the kind of its class. -/
theorem fits_of_loads (fit : code.ResultsFit pool)
    (distinct : (code.instructions.map Instruction.addr).Nodup) (small : code.registers ≤ 65536)
    {instruction : Instruction} {value : Nat} {bits : UInt64}
    (loads : Loads context (options.keeps context.graph) lowered instruction value bits) :
    (lowered.solution.kindOf value).width = .wide ∨ bits.toNat < UInt32.size := by
  obtain ⟨width, comes, room⟩ := loads.comes (sourced_of_contextOf lifts.ofCode)
  rw [lifts.width_kindOf_of_comes fit distinct small comes]
  exact room

end Lifts

/-- The constants of a body have the bits that are loaded exactly if those that do not fit a
narrow kind are in classes of wide ones, as they are where results are moved with the width of
what calls pass. -/
theorem literals_kept_iff (lifted : run code pool options = .ok body)
    (distinct : (code.instructions.map Instruction.addr).Nodup) (small : code.registers ≤ 65536) :
    ∃ context lowered, Lifts code pool options body context lowered ∧
      (body.KeepsLiterals code (options.keeps context.graph) ↔ ∀ instruction value bits,
        Loads context (options.keeps context.graph) lowered instruction value bits →
          (lowered.solution.kindOf value).width = .wide ∨ bits.toNat < UInt32.size) ∧
      (code.ResultsFit pool → body.KeepsLiterals code (options.keeps context.graph)) := by
  obtain ⟨context, lowered, lifts⟩ := exists_lifts lifted
  refine ⟨context, lowered, lifts, lifts.keepsLiterals_iff distinct, fun fit => ?_⟩
  exact (lifts.keepsLiterals_iff distinct).mpr fun _ _ _ loads =>
    lifts.fits_of_loads fit distinct small loads

end Lift

/-- A method that stores the result of another one or a wide literal. -/
def Code.storesEither : Code where
  method := 0
  flags := ⟨8⟩
  registers := 4
  instructions := [.ofOpcode 0 .ifEqz [.ofNat 3] (some 7) none,
    { Instruction.ofOpcode 2 .invokeStatic [] none none with reference := some ⟨.method, 1⟩ },
    .ofOpcode 5 .moveResultWide [.ofNat 0] none none, .ofOpcode 6 .goto [] (some 6) none,
    { Instruction.ofOpcode 7 .constWide [.ofNat 0] none none with literal := some 0x100000000 },
    .ofOpcode 12 .aputWide [.ofNat 0, .ofNat 2, .ofNat 3] none none, .ofOpcode 14 .returnVoid [] none none]
  tries := []

namespace Lift

/-- Beside the result of a method that returns a long the literal keeps its bits. -/
theorem keepsLiterals_storesEither_long : Code.storesEither.ResultsFit (.returning .long) ∧
    ∃ body context lowered, run .storesEither (.returning .long) {} = .ok body ∧
      Lifts .storesEither (.returning .long) {} body context lowered ∧
      body.KeepsLiterals .storesEither (LiftOptions.keeps {} context.graph) := by
  have fit : Code.storesEither.ResultsFit (.returning .long) := by decide
  have lowers : LowersTo .storesEither (.returning .long) ⟨4, [(.ofNat 2, .narrow), (.ofNat 3, .narrow)]⟩
      7 {} fun _ _ => True := by
    decide +kernel
  obtain ⟨body, _, _, lifted, -, -⟩ := @LowersTo.exists_lifts .storesEither
    (.returning .long) Argument.objectAndInt 7 {} _ _ (by decide) (by decide) rfl lowers
  obtain ⟨context, lowered, lifts, -, kept⟩ := literals_kept_iff lifted (by decide) (by decide)
  exact ⟨fit, body, context, lowered, lifted, lifts, kept fit⟩

/-- Beside the result of a method that returns an int a wide literal loses its high bits. -/
theorem not_keepsLiterals_storesEither_int : ∃ body context lowered,
    run .storesEither (.returning .int) {} = .ok body ∧
      Lifts .storesEither (.returning .int) {} body context lowered ∧
      ¬ body.KeepsLiterals .storesEither (LiftOptions.keeps {} context.graph) := by
  have lowers : LowersTo .storesEither (.returning .int) ⟨4, [(.ofNat 2, .narrow), (.ofNat 3, .narrow)]⟩
      7 {} fun _ lowered =>
        ((assemble .storesEither lowered lowered.solution).placedAt 7).head? =
          some (some 7, .assign (.var ⟨.long, 0⟩) (.use (.constant (.int 0)))) := by
    decide +kernel
  obtain ⟨body, context, lowered, lifted, lifts, isShown⟩ := @LowersTo.exists_lifts .storesEither
    (.returning .int) Argument.objectAndInt 7 {} _ _ (by decide) (by decide) rfl lowers
  refine ⟨body, context, lowered, lifted, lifts, fun kept => ?_⟩
  rw [← lifts.assembled] at isShown
  have present : body.placedAt 7 ≠ [] := fun nothing => by simp [nothing] at isShown
  have lives := lifts.lives_of_placedAt (by decide) present
  let loads : Instruction :=
    { Instruction.ofOpcode 7 .constWide [.ofNat 0] none none with literal := some 0x100000000 }
  obtain ⟨bits, dest, constant, rest, loaded, assigned, isBits⟩ :=
    kept loads (by decide) lives (by decide)
  rw [show loads.addr = 7 from rfl] at assigned
  rw [Body.placedAt, assigned, List.map_cons, List.head?_cons] at isShown
  cases isShown
  obtain rfl := Option.some.inj isBits
  exact absurd loaded (by decide)

end Lift

end Dalvik
