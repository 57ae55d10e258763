import Dalvik.Body.Statement

/-!
# The text of statements

Statements are written with the items of the pool spelled out.  How values and
jump targets are written is given by the caller.
-/

namespace Dalvik

structure StatementStyle (α : Type) where
  pool : Pool
  value : α → String
  target : Addr → String

def plainTarget (addr : Addr) : String :=
  "@" ++ addr.text

namespace StatementStyle

variable {α : Type} (style : StatementStyle α)

def operand : Operand α → Except CodeError String
  | .var value => .ok (style.value value)
  | .constant constant => constant.text style.pool
  | .literal bits wide _ =>
      .ok ("#" ++ Text.hexPrefixed bits.toNat ++ (if wide then "L" else ""))
  | .cast value _ target .reinterpret =>
      .ok ("reinterpret(" ++ style.value value ++ " as " ++ target.text ++ ")")
  | .cast value _ target (.coerce _) =>
      .ok ("coerce(" ++ style.value value ++ " as " ++ target.text ++ ")")

def operands (list : List (Operand α)) : Except CodeError String := do
  let texts ← list.mapM style.operand
  return ", ".intercalate texts

def typeName (type : Nat) : Except CodeError String :=
  (style.pool.type type).map Descriptor.sourceName

def elementText (array index : Operand α) : Except CodeError String := do
  let array ← style.operand array
  let index ← style.operand index
  return array ++ "[" ++ index ++ "]"

def staticFieldText (field : Nat) : Except CodeError String := do
  let field ← style.pool.field field
  return "<" ++ field.text ++ ">"

def instanceFieldText (object : Operand α) (field : Nat) : Except CodeError String := do
  let object ← style.operand object
  let field ← style.staticFieldText field
  return object ++ "." ++ field

def expression : Expression α → Except CodeError String
  | .use operand => style.operand operand
  | .binary op left right => do
      let left ← style.operand left
      let right ← style.operand right
      return left ++ " " ++ op.text ++ " " ++ right
  | .negate operand => do
      let operand ← style.operand operand
      return "neg " ++ operand
  | .convert value target => do
      let value ← style.operand value
      return "(" ++ target.sourceName ++ ") " ++ value
  | .checkCast value type => do
      let type ← style.typeName type
      let value ← style.operand value
      return "(" ++ type ++ ") " ++ value
  | .instanceOf value type => do
      let value ← style.operand value
      let type ← style.typeName type
      return value ++ " instanceof " ++ type
  | .length array => do
      let array ← style.operand array
      return "lengthof " ++ array
  | .newInstance type => do
      let type ← style.typeName type
      return "new " ++ type
  | .newArray type size => do
      let type ← style.pool.type type
      let size ← style.operand size
      return "newarray (" ++ (type.element?.getD .void).sourceName ++ ")[" ++ size ++ "]"
  | .newFilledArray type elements => do
      let type ← style.typeName type
      let elements ← style.operands elements
      return "newfilledarray " ++ type ++ " \x7b" ++ elements ++ "\x7d"
  | .element array index => style.elementText array index
  | .instanceField object field => style.instanceFieldText object field
  | .staticField field => style.staticFieldText field
  | .invoke kind method receiver arguments => do
      let receiver ← match receiver with
        | some receiver => (style.operand receiver).map (· ++ ".")
        | none => .ok ""
      let method ← style.pool.method method
      let arguments ← style.operands arguments
      return kind.text ++ " " ++ receiver ++ "<" ++ method.text ++ ">(" ++ arguments ++ ")"

def destination : Destination α → Except CodeError String
  | .var value => .ok (style.value value)
  | .element array index => style.elementText array index
  | .instanceField object field => style.instanceFieldText object field
  | .staticField field => style.staticFieldText field

end StatementStyle

def IdentitySource.text : IdentitySource → String
  | .this => "@this"
  | .parameter index type => "@parameter" ++ toString index ++ ": " ++ type.sourceName
  | .caughtException => "@caughtexception"

namespace StatementStyle

variable {α : Type} (style : StatementStyle α)

def statement : Statement α → Except CodeError String
  | .nop => .ok "nop"
  | .identity dest source => .ok (style.value dest ++ " := " ++ source.text)
  | .assign dest value => do
      let dest ← style.destination dest
      let value ← style.expression value
      return dest ++ " = " ++ value
  | .invoke call => style.expression call
  | .branch op left right target => do
      let left ← style.operand left
      let right ← style.operand right
      return "if " ++ left ++ " " ++ op.text ++ " " ++ right ++ " goto " ++ style.target target
  | .goto target => .ok ("goto " ++ style.target target)
  | .switch key cases default => do
      let key ← style.operand key
      let cases := cases.map fun (key, target) =>
        " case " ++ toString key.toInt ++ ": goto " ++ style.target target ++ ";"
      return "lookupswitch(" ++ key ++ ") \x7b" ++ String.join cases ++ " default: goto "
        ++ style.target default ++ "; \x7d"
  | .exit none => .ok "return"
  | .exit (some value) => do
      let value ← style.operand value
      return "return " ++ value
  | .throw value => do
      let value ← style.operand value
      return "throw " ++ value
  | .enterMonitor object => do
      let object ← style.operand object
      return "entermonitor " ++ object
  | .exitMonitor object => do
      let object ← style.operand object
      return "exitmonitor " ++ object
  | .fillArray array width elements => do
      let array ← style.operand array
      let elements ← elements.mapM (Constant.text style.pool)
      return "fillarray " ++ array ++ " (" ++ toString width ++ " bytes) \x7b"
        ++ (if elements.isEmpty then "" else " ") ++ ", ".intercalate elements ++ " \x7d"

end StatementStyle

end Dalvik
