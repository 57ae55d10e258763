import Dalvik.Code
import Dalvik.Listing.Token

/-!
# Methods as they are written

A draft collects the lines of one method: instructions and data tables at the
addresses where they are written, the labels between them, and the catch
directives.  Labels are resolved once the method is closed.
-/

namespace Dalvik.Listing

/-- An instruction line, at the address it takes. -/
structure DraftInstruction where
  line : Nat
  addr : Addr
  opcode : Opcode
  tokens : List Token

/-- A data table whose targets are still labels. -/
inductive DraftPayload where
  | packed (firstKey : Int32) (labels : List String)
  | sparse (entries : List (Int32 × String))
  | array (width : Nat) (elements : List UInt64)

namespace DraftPayload

def size : DraftPayload → Nat
  | .packed _ labels => 4 + 2 * labels.length
  | .sparse entries => 2 + 4 * entries.length
  | .array width elements => 4 + (elements.length * width + 1) / 2

def closing : DraftPayload → String
  | .packed _ _ => ".end packed-switch"
  | .sparse _ => ".end sparse-switch"
  | .array _ _ => ".end array-data"

def elementBits (width : Nat) (literal : Literal) : UInt64 :=
  let bits := match literal with
    | .int value => Text.twosComplement 64 value.toInt
    | .float bits => bits
    | .double bits => bits
  UInt64.ofNat (bits % span (8 * width))

def addLine (payload : DraftPayload) (line : List Char) : Option DraftPayload :=
  match payload with
  | .packed firstKey labels =>
      (Rule.all takeLabel line).map fun label => .packed firstKey (labels ++ [label])
  | .sparse entries => do
      let (literal, label) ← Rule.all takeCase line
      match literal with
      | .int value => do
          let key ← narrow? value
          return .sparse (entries ++ [(key, label)])
      | _ => none
  | .array width elements =>
      (Rule.all takeElements line).map fun literals =>
        .array width (elements ++ literals.map (elementBits width))

end DraftPayload

structure DraftCatch where
  line : Nat
  exception : Option Descriptor
  start : String
  stop : String
  handler : String

structure Draft where
  line : Nat
  method : MethodRef
  flags : AccessFlags
  registers : Option Nat := none
  locals : Option Nat := none
  addr : Addr := 0
  labels : List (String × Addr) := []
  instructions : List DraftInstruction := []
  payloads : List (Addr × DraftPayload) := []
  catches : List DraftCatch := []
  pending : Option DraftPayload := none

def fail {α : Type} (line : Nat) (fault : ListingFault) : Except CodeError α :=
  .error (.listing line fault)

/-- An error of reading a part of a line, as a fault of that line. -/
def atLine {α : Type} (line : Nat) : Except CodeError α → Except CodeError α
  | .error (.conversion source target) => fail line (.conversion source target)
  | .error (.encoding opcode fault) => fail line (.encoding opcode fault)
  | result => result

def readDescriptor (line : Nat) (text : List Char) : Except CodeError Descriptor :=
  atLine line (Descriptor.read text)

def readCount (text : List Char) : Option Nat :=
  readUnsigned 10 65536 text

def readKey (text : List Char) : Option Int32 :=
  match Rule.all takeNumber text with
  | some (.int value) => narrow? value
  | _ => none

namespace Draft

def labelAddr (draft : Draft) (line : Nat) (name : String) : Except CodeError Addr :=
  match draft.labels.lookup name with
  | some addr => .ok addr
  | none => fail line (.unknownLabel name)

def addCatch (draft : Draft) (line : Nat) (word text : List Char) : Except CodeError Draft :=
  match Rule.all takeCatch text with
  | none => fail line (.invalidDirective (String.ofList word))
  | some directive => do
      let exception ← directive.exception.mapM (readDescriptor line)
      let entry := ⟨line, exception, directive.start, directive.stop, directive.handler⟩
      return { draft with catches := draft.catches ++ [entry] }

def addLabel (draft : Draft) (line : Nat) (word : List Char) : Except CodeError Draft :=
  let name := String.ofList (word.drop 1)
  if (draft.labels.lookup name).isSome then fail line (.duplicateLabel (String.ofList word))
  else .ok { draft with labels := draft.labels ++ [(name, draft.addr)] }

def addInstruction (draft : Draft) (line : Nat) (text : List Char) : Except CodeError Draft :=
  match Rule.all takeInstruction text with
  | none => fail line (.unreadable (String.ofList text))
  | some (mnemonic, tokens) =>
      match Opcode.ofMnemonic? (String.ofList mnemonic) with
      | none => fail line (.unknownInstruction (String.ofList mnemonic))
      | some opcode =>
          .ok { draft with
            instructions := draft.instructions ++ [⟨line, draft.addr, opcode, tokens⟩]
            addr := draft.addr + opcode.format.size }

/-- Add a line outside of data tables: its first word, what follows it, and the
line as a whole. -/
def addLine (draft : Draft) (line : Nat) (word rest text : List Char) : Except CodeError Draft :=
  if word = ".registers".toList ∨ word = ".locals".toList then
    match readCount rest with
    | none => fail line (.registerCount (String.ofList rest))
    | some count =>
        if word = ".registers".toList then .ok { draft with registers := some count }
        else .ok { draft with locals := some count }
  else if word = ".catch".toList ∨ word = ".catchall".toList then draft.addCatch line word text
  else if word = ".packed-switch".toList then
    match readKey rest with
    | none => fail line (.switchKey (String.ofList rest))
    | some key => .ok { draft with pending := some (.packed key []) }
  else if word = ".sparse-switch".toList then .ok { draft with pending := some (.sparse []) }
  else if word = ".array-data".toList then
    match (readCount rest).filter fun width => [1, 2, 4, 8].contains width with
    | none => fail line (.elementWidth (String.ofList rest))
    | some width => .ok { draft with pending := some (.array width []) }
  else if word.head? = some ':' then draft.addLabel line word
  else if word.head? = some '.' then fail line (.unknownDirective (String.ofList word))
  else draft.addInstruction line text

/-- Add a line of an open data table; its closing line places the table. -/
def addPayloadLine (draft : Draft) (payload : DraftPayload) (line : Nat) (text : List Char) :
    Except CodeError Draft :=
  if text = payload.closing.toList then
    .ok { draft with
      addr := draft.addr + payload.size
      payloads := draft.payloads ++ [(draft.addr, payload)]
      pending := none }
  else
    match payload.addLine text with
    | none => fail line (.payloadEntry (String.ofList text))
    | some payload => .ok { draft with pending := some payload }

end Draft

end Dalvik.Listing
