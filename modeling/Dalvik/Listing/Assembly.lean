import Dalvik.Binary.Encode
import Dalvik.Listing.Draft

/-!
# Assembling methods

A closed draft becomes code: labels become offsets, arguments become frame
registers, references are interned, and each instruction gets its code units.
-/

namespace Dalvik.Listing

/-- The register layout of a draft: the size of its frame and how many of its
last registers hold arguments. -/
structure Frame where
  registers : Nat
  arguments : Nat
  deriving DecidableEq, Repr

namespace Frame

def resolve (frame : Frame) (line : Nat) (name : RegName) : Except CodeError Reg :=
  if name.isParameter then
    if frame.arguments ≤ name.number ∨ frame.registers < frame.arguments then
      fail line (.parameterRegister name.number)
    else .ok (Reg.ofNat (frame.registers - frame.arguments + name.number))
  else .ok (Reg.ofNat name.number)

end Frame

def registerRange (first last : Reg) : List Reg :=
  (List.range (last.number + 1 - first.number)).map fun i => Reg.ofNat (first.number + i)

structure Gathered where
  pool : Pool
  regs : List Reg := []
  literal : Option Int64 := none
  target : Option Addr := none
  reference : Option PoolRef := none

/-- The value of a literal for an opcode.  A wide operand takes 64 bits; for a
narrow one the value must fit 32, and floating-point values are rounded to
single precision. -/
def literalValue (line : Nat) (opcode : Opcode) (literal : Literal) : Except CodeError Int64 :=
  let ofBits32 := fun bits : Nat => Int64.ofInt (Int32.ofNat bits).toInt
  if (opcode.kind.map OperandKind.isWide).getD false then
    match literal with
    | .int value => .ok value
    | .float bits => .ok (Int64.ofNat (FloatFormat.binary32.convert .binary64 bits))
    | .double bits => .ok (Int64.ofNat bits)
  else
    match literal with
    | .int value =>
        match narrow? value with
        | some narrow => .ok (Int64.ofInt narrow.toInt)
        | none => fail line (.largeLiteral value.toInt opcode)
    | .float bits => .ok (ofBits32 bits)
    | .double bits => .ok (ofBits32 (FloatFormat.binary64.convert .binary32 bits))

def splitAt? (word : List Char) : List Char → Option (List Char × List Char)
  | [] => none
  | c :: rest =>
      if word.isPrefixOf (c :: rest) then some ([], (c :: rest).drop word.length)
      else (splitAt? word rest).map fun (before, after) => (c :: before, after)

def splitMember (line : Nat) (kind : ReferenceKind) (text : List Char) :
    Except CodeError (List Char × List Char) :=
  match splitAt? ['-', '>'] text with
  | some parts => .ok parts
  | none => fail line (.reference kind (String.ofList text))

def internReference (line : Nat) (pool : Pool) (opcode : Opcode) (text : List Char) :
    Except CodeError (Pool × PoolRef) :=
  match opcode.reference with
  | some .type => do
      let type ← readDescriptor line text
      let (pool, index) := pool.internType type
      return (pool, ⟨.type, index⟩)
  | some .field => do
      let (owner, member) ← splitMember line .field text
      if ':' ∉ member then fail line (.reference .field (String.ofList text))
      let owner ← readDescriptor line owner
      let type ← readDescriptor line ((member.dropWhile (· ≠ ':')).drop 1)
      let name := String.ofList (member.takeWhile (· ≠ ':'))
      let (pool, index) := pool.internField ⟨owner, name, type⟩
      return (pool, ⟨.field, index⟩)
  | some .method => do
      let (owner, member) ← splitMember line .method text
      if '(' ∉ member then fail line (.reference .method (String.ofList text))
      let owner ← readDescriptor line owner
      let prototype ← atLine line (Prototype.read (member.dropWhile (· ≠ '(')))
      let name := String.ofList (member.takeWhile (· ≠ '('))
      let (pool, index) := pool.internMethod ⟨owner, name, prototype⟩
      return (pool, ⟨.method, index⟩)
  | some .string | none => fail line (.unexpectedOperand (String.ofList text) opcode)

namespace Draft

/-- Registers taken by the arguments, counted modulo the number of registers. -/
def argumentSlots (draft : Draft) : Nat :=
  (draft.method.prototype.slots + (if draft.flags.isStatic then 0 else 1)) % 65536

def frame (draft : Draft) : Except CodeError Frame :=
  let arguments := draft.argumentSlots
  match draft.registers, draft.locals with
  | some registers, _ => .ok ⟨registers, arguments⟩
  | none, some locals => .ok ⟨min (locals + arguments) 65535, arguments⟩
  | none, none => fail draft.line .missingFrame

def gather (draft : Draft) (frame : Frame) (line : Nat) (opcode : Opcode) (sofar : Gathered) :
    Token → Except CodeError Gathered
  | .reg name => do
      let reg ← frame.resolve line name
      return { sofar with regs := sofar.regs ++ [reg] }
  | .regs names => do
      let regs ← names.mapM (frame.resolve line)
      return { sofar with regs := sofar.regs ++ regs }
  | .range first last => do
      let first ← frame.resolve line first
      let last ← frame.resolve line last
      if last.number < first.number then fail line .emptyRange
      return { sofar with regs := sofar.regs ++ registerRange first last }
  | .label name => do
      let target ← draft.labelAddr line name
      return { sofar with target := some target }
  | .literal literal => do
      let value ← literalValue line opcode literal
      return { sofar with literal := some value }
  | .string text =>
      let (pool, index) := sofar.pool.internString text
      .ok { sofar with pool, reference := some ⟨.string, index⟩ }
  | .descriptor text => do
      let (pool, reference) ← internReference line sofar.pool opcode text
      return { sofar with pool, reference := some reference }

def offsetTo (line : Nat) (addr target : Addr) : Except CodeError Int32 :=
  let distance := addr.distanceTo target
  if -(span 31 : Int) ≤ distance ∧ distance < span 31 then .ok (Int32.ofInt distance)
  else fail line .offsetOverflow

def offsetToLabel (draft : Draft) (line : Nat) (addr : Addr) (name : String) :
    Except CodeError Int32 := do
  let target ← draft.labelAddr line name
  offsetTo line addr target

/-- A data table with its labels as offsets from the instruction at `addr`. -/
def resolvePayload (draft : Draft) (line : Nat) (addr : Addr) :
    DraftPayload → Except CodeError Payload
  | .packed firstKey labels => do
      let targets ← labels.mapM (draft.offsetToLabel line addr)
      return .packedSwitch firstKey targets
  | .sparse entries => do
      let targets ← entries.mapM fun entry => draft.offsetToLabel line addr entry.2
      return .sparseSwitch (entries.map Prod.fst) targets
  | .array width elements => .ok (.arrayData (UInt16.ofNat width) elements)

def payloadAt (draft : Draft) (line : Nat) (opcode : Opcode) (addr target : Addr) :
    Except CodeError Payload :=
  match draft.payloads.lookup target with
  | none => fail line (.noPayload target)
  | some payload => do
      let payload ← draft.resolvePayload line addr payload
      if (opcode.family == .switch) ≠ payload.isSwitch then fail line (.payloadKind opcode)
      return payload

def checkPresence (line : Nat) (opcode : Opcode) (kind : ListingOperand)
    (expected found : Bool) : Except CodeError Unit :=
  if expected = found then .ok () else fail line (.operand kind expected opcode)

def checkOperands (line : Nat) (opcode : Opcode) (gathered : Gathered) :
    Except CodeError Unit := do
  let shape := opcode.format.shape
  checkPresence line opcode .literal shape.literal gathered.literal.isSome
  checkPresence line opcode .label shape.offset gathered.target.isSome
  checkPresence line opcode .reference shape.reference gathered.reference.isSome
  match opcode.reference, gathered.reference with
  | some kind, some reference =>
      if reference.kind = .string ∧ kind ≠ .string then fail line (.referenceKind kind)
  | _, _ => return

/-- Assemble one instruction; references are interned into the pool. -/
def assembleInstruction (draft : Draft) (frame : Frame) (pool : Pool)
    (pending : DraftInstruction) : Except CodeError (Pool × Instruction) := do
  let line := pending.line
  let opcode := pending.opcode
  let gathered ← pending.tokens.foldlM (draft.gather frame line opcode) { pool }
  checkOperands line opcode gathered
  let offset ← gathered.target.mapM (offsetTo line pending.addr)
  let payload ← match opcode.format, gathered.target with
    | .f31t, some target => (draft.payloadAt line opcode pending.addr target).map some
    | _, _ => .ok none
  let units ← atLine line <| Binary.encode opcode
    { regs := gathered.regs
      literal := gathered.literal
      offset
      index := gathered.reference.map PoolRef.index }
  return (gathered.pool,
    { addr := pending.addr
      opcodeByte := opcode.value
      format := opcode.format
      regs := gathered.regs
      literal := gathered.literal
      offset
      reference := gathered.reference
      payload
      units })

def assembleInstructions (draft : Draft) (frame : Frame) :
    Pool → List DraftInstruction → Except CodeError (Pool × List Instruction)
  | pool, [] => .ok (pool, [])
  | pool, pending :: rest => do
      let (pool, instruction) ← draft.assembleInstruction frame pool pending
      let (pool, instructions) ← draft.assembleInstructions frame pool rest
      return (pool, instruction :: instructions)

/-- Add a handler to the try item of its range, which is opened if it is new. -/
def addHandler (start stop : Addr) (handler : Handler) : List TryItem → List TryItem
  | [] => [⟨start, stop, [handler]⟩]
  | item :: items =>
      if item.start = start ∧ item.stop = stop then
        { item with handlers := item.handlers ++ [handler] } :: items
      else item :: addHandler start stop handler items

def assembleCatch (draft : Draft) (sofar : Pool × List TryItem) (entry : DraftCatch) :
    Except CodeError (Pool × List TryItem) := do
  let start ← draft.labelAddr entry.line entry.start
  let stop ← draft.labelAddr entry.line entry.stop
  let (pool, exception) := match entry.exception with
    | some type =>
        let (pool, index) := sofar.1.internType type
        (pool, some index)
    | none => (sofar.1, none)
  let addr ← draft.labelAddr entry.line entry.handler
  return (pool, addHandler start stop ⟨exception, addr⟩ sofar.2)

def assemble (draft : Draft) (pool : Pool) : Except CodeError (Pool × Code) := do
  let frame ← draft.frame
  let (pool, instructions) ← draft.assembleInstructions frame pool draft.instructions
  let (pool, tries) ← draft.catches.foldlM draft.assembleCatch (pool, [])
  let (pool, method) := pool.internMethod draft.method
  return (pool, Code.ofInstructions method draft.flags frame.registers instructions tries)

end Draft

end Dalvik.Listing
