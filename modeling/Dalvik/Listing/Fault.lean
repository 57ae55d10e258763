import Dalvik.Address
import Dalvik.Opcode
import Dalvik.Register
import Dalvik.Text.Quoted

/-!
# Faults of a listing

What can be wrong with a line of an assembly listing, and how each fault is
told.
-/

namespace Dalvik

inductive ConversionTarget where
  | descriptor
  | prototype
  | descriptorList
  deriving DecidableEq, Repr

def ConversionTarget.text : ConversionTarget → String
  | .descriptor => "Type"
  | .prototype => "Proto"
  | .descriptorList => "Vec<Type>"

def conversionText (source target : String) : String :=
  "could not convert " ++ source ++ " into " ++ target

inductive NumberField where
  | literal
  | offset
  deriving DecidableEq, Repr

def NumberField.text : NumberField → String
  | .literal => "literal"
  | .offset => "offset"

inductive EncodingFault where
  | registerCount (found : Nat) (expected : RegisterCount)
  | missingRegister (position : Nat)
  | largeRegister (reg : Reg) (bits : Nat)
  | missingNumber (field : NumberField)
  | largeNumber (field : NumberField) (value : Int) (bits : Nat)
  | lowBits (literal : Int)
  | missingReference
  | largeIndex (index bits : Nat)
  | longRange
  | brokenRange
  deriving DecidableEq, Repr

def registerCountText (found : Nat) (expected : RegisterCount) : String :=
  toString found ++ " register operand(s) instead of " ++ expected.text

def EncodingFault.text : EncodingFault → String
  | .registerCount found expected => registerCountText found expected
  | .missingRegister position => "missing register operand #" ++ toString position
  | .largeRegister reg bits => reg.text ++ " does not fit on " ++ toString bits ++ " bits"
  | .missingNumber field => "missing " ++ field.text
  | .largeNumber field value bits =>
      field.text ++ " " ++ toString value ++ " does not fit on " ++ toString bits ++ " bits"
  | .lowBits literal =>
      "literal " ++ Text.hexPrefixed (Text.twosComplement 64 literal) ++ " has non-zero low bits"
  | .missingReference => "missing pool reference"
  | .largeIndex index bits =>
      "pool index " ++ toString index ++ " does not fit on " ++ toString bits ++ " bits"
  | .longRange => "too many registers in range"
  | .brokenRange => "registers are not consecutive"

def encodingText (opcode : Opcode) (fault : EncodingFault) : String :=
  "cannot encode " ++ opcode.mnemonic ++ ": " ++ fault.text

inductive ListingOperand where
  | literal
  | label
  | reference
  deriving DecidableEq, Repr

def ListingOperand.text : ListingOperand → String
  | .literal => "literal"
  | .label => "label"
  | .reference => "reference"

inductive ListingFault where
  | unexpectedEnd (line : String)
  | outsideMethod (word : String)
  | nestedMethod
  | methodBeforeClass
  | missingSignature
  | unknownFlag (word : String)
  | missingPrototype
  | conversion (source : String) (target : ConversionTarget)
  | endOutsideMethod
  | unclosedMethod (name : String)
  | missingEnd (directive : String)
  | registerCount (text : String)
  | invalidDirective (word : String)
  | elementWidth (text : String)
  | duplicateLabel (word : String)
  | unknownDirective (word : String)
  | unreadable (line : String)
  | unknownInstruction (mnemonic : String)
  | payloadEntry (line : String)
  | unknownLabel (name : String)
  | missingFrame
  | parameterRegister (number : Nat)
  | emptyRange
  | operand (kind : ListingOperand) (expected : Bool) (opcode : Opcode)
  | referenceKind (expected : ReferenceKind)
  | offsetOverflow
  | encoding (opcode : Opcode) (fault : EncodingFault)
  | noPayload (target : Addr)
  | payloadKind (opcode : Opcode)
  | switchKey (text : String)
  | largeLiteral (value : Int) (opcode : Opcode)
  | reference (kind : ReferenceKind) (text : String)
  | unexpectedOperand (text : String) (opcode : Opcode)
  deriving DecidableEq, Repr

def ListingFault.text : ListingFault → String
  | .unexpectedEnd line => "unexpected " ++ line
  | .outsideMethod word => word ++ " outside of a method"
  | .nestedMethod => "nested .method"
  | .methodBeforeClass => ".method before .class"
  | .missingSignature => "missing method signature"
  | .unknownFlag word => "unknown access flag " ++ Text.quote word
  | .missingPrototype => "missing method prototype"
  | .conversion source target =>
      conversionText ("&str (" ++ Text.quote source ++ ")") target.text
  | .endOutsideMethod => ".end method outside of a method"
  | .unclosedMethod name => "method " ++ name ++ " is never closed"
  | .missingEnd directive => "missing " ++ directive
  | .registerCount text => "invalid register count " ++ Text.quote text
  | .invalidDirective word => "invalid " ++ word ++ " directive"
  | .elementWidth text => "invalid element width " ++ Text.quote text
  | .duplicateLabel word => "duplicate label " ++ word
  | .unknownDirective word => "unknown directive " ++ word
  | .unreadable line => "cannot parse " ++ Text.quote line
  | .unknownInstruction mnemonic => "unknown instruction " ++ Text.quote mnemonic
  | .payloadEntry line => "invalid payload entry " ++ Text.quote line
  | .unknownLabel name => "unknown label :" ++ name
  | .missingFrame => "missing .registers or .locals"
  | .parameterRegister number => "invalid parameter register p" ++ toString number
  | .emptyRange => "empty register range"
  | .operand kind expected opcode =>
      (if expected then "missing " else "unexpected ") ++ kind.text ++ " for " ++ opcode.mnemonic
  | .referenceKind expected => "expected a " ++ expected.text ++ " reference"
  | .offsetOverflow => "branch offset overflow"
  | .encoding opcode fault => encodingText opcode fault
  | .noPayload target => "no payload at " ++ target.text
  | .payloadKind opcode => "wrong payload kind for " ++ opcode.mnemonic
  | .switchKey text => "invalid switch key " ++ Text.quote text
  | .largeLiteral value opcode =>
      "literal " ++ Text.hexPrefixed (Text.twosComplement 64 value) ++ " too large for "
        ++ opcode.mnemonic
  | .reference kind text => "invalid " ++ kind.text ++ " reference " ++ Text.quote text
  | .unexpectedOperand text opcode =>
      "unexpected operand " ++ Text.quote text ++ " for " ++ opcode.mnemonic

end Dalvik
