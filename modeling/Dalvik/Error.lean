import Dalvik.Listing.Fault

/-!
# Bytecode errors

The causes for which reading, writing or resolving bytecode fails, and the
message of each.
-/

namespace Dalvik

/-- The operands whose presence in an instruction a format fixes. -/
inductive InstructionOperand where
  | literal
  | offset
  | reference
  | payload
  deriving DecidableEq, Repr

def InstructionOperand.text : InstructionOperand → String
  | .literal => "literal"
  | .offset => "branch offset"
  | .reference => "pool reference"
  | .payload => "payload"

inductive ShapeFault where
  | format (found expected : Format)
  | registerCount (found : Nat) (expected : RegisterCount)
  | operand (kind : InstructionOperand) (expected : Bool)
  | payloadKind
  | referenceKind (expected : ReferenceKind)
  deriving DecidableEq, Repr

def ShapeFault.text : ShapeFault → String
  | .format found expected =>
      "decoded as format " ++ found.text ++ " instead of " ++ expected.text
  | .registerCount found expected => registerCountText found expected
  | .operand kind expected => (if expected then "missing " else "unexpected ") ++ kind.text
  | .payloadKind => "payload kind mismatch"
  | .referenceKind expected => "expected a " ++ expected.text ++ " reference"

/-- Why reading, writing or resolving bytecode failed.  `insideCharacter` is
for a descriptor list whose one-letter descriptors are cut inside a character
of several bytes. -/
inductive CodeError where
  | unprintable
  | decoding (remaining : Nat)
  | listing (line : Nat) (fault : ListingFault)
  | conversion (source : String) (target : ConversionTarget)
  | smallFrame (arguments registers : Nat)
  | unresolved (kind : ReferenceKind) (index : Nat)
  | encoding (opcode : Opcode) (fault : EncodingFault)
  | shape (fault : ShapeFault)
  | noInstruction (addr : Addr)
  | insideCharacter
  deriving DecidableEq, Repr

def CodeError.message : CodeError → String
  | .unprintable => "Formatting error: an error occurred when formatting an argument"
  | .decoding remaining => "decoding error (" ++ toString remaining ++ " bytes left): Eof"
  | .listing line fault => "syntax error (line " ++ toString line ++ "): " ++ fault.text
  | .conversion source target =>
      conversionText ("&str (" ++ Text.quote source ++ ")") target.text
  | .smallFrame arguments registers =>
      conversionText (toString arguments ++ " argument slots")
        ("a frame of " ++ toString registers ++ " registers")
  | .unresolved kind index =>
      "resource not found in constant pool: " ++ kind.text ++ " #" ++ toString index
  | .encoding opcode fault => encodingText opcode fault
  | .shape fault => "instruction shape mismatch: " ++ fault.text
  | .noInstruction addr => "Instruction not found (address: " ++ addr.text ++ ")"
  | .insideCharacter => "a descriptor ends inside a character"

end Dalvik
