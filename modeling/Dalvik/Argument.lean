import Dalvik.Body.Statement
import Dalvik.Code
import Dalvik.Reaching.Definition

/-!
# Arguments

The receiver, unless the method is static, and the parameters follow one
another in the last registers of the frame.
-/

namespace Dalvik

structure Argument where
  reg : Reg
  width : Width
  kind : Kind
  source : IdentitySource
  deriving DecidableEq, Repr

/-- The register a number of registers later; the last one stands for all past it. -/
def Reg.advance (reg : Reg) (slots : Nat) : Reg :=
  Reg.ofNat (min (reg.number + slots) 65535)

namespace Argument

/-- The arguments of parameters, from a register and a parameter number on;
`void` parameters have none. -/
def ofParams : Reg → Nat → List Descriptor → List Argument
  | _, _, [] => []
  | reg, index, type :: types =>
      match type.width, Kind.ofType type with
      | some width, some kind =>
          ⟨reg, width, kind, .parameter index type⟩
            :: ofParams (reg.advance width.slots) (index + 1) types
      | _, _ => ofParams reg (index + 1) types

def ofCode (code : Code) (pool : Pool) : Except CodeError (List Argument) := do
  let method ← pool.method code.method
  let first ← code.firstArgument pool
  return if code.isStatic then ofParams first 0 method.prototype.params
    else ⟨first, .narrow, .object, .this⟩ :: ofParams first.next 0 method.prototype.params

end Argument

def RegisterFrame.ofCode (code : Code) (pool : Pool) : Except CodeError RegisterFrame := do
  let arguments ← Argument.ofCode code pool
  return ⟨code.registers, arguments.map fun argument => (argument.reg, argument.width)⟩

end Dalvik
