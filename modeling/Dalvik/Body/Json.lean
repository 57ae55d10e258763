import Dalvik.Body
import Dalvik.Text.Json

/-!
# Bodies as JSON

An alternative without contents is written as its name, one with contents as
an object that has the name as its only field.
-/

namespace Dalvik

namespace Json

def tagged (name : String) (contents : Json) : Json :=
  .object [(name, contents)]

def record (name : String) (fields : List (String × Json)) : Json :=
  tagged name (.object fields)

end Json

def Descriptor.json : Descriptor → Json
  | .void => .string "Void"
  | .boolean => .string "Boolean"
  | .byte => .string "Byte"
  | .short => .string "Short"
  | .char => .string "Char"
  | .int => .string "Int"
  | .long => .string "Long"
  | .float => .string "Float"
  | .double => .string "Double"
  | .array dimensions element => .tagged "Array" (.array [.ofNat dimensions, element.json])
  | .object name => .tagged "Class" (.string name)

def Kind.json : Kind → Json
  | .int => .string "Int"
  | .long => .string "Long"
  | .float => .string "Float"
  | .double => .string "Double"
  | .object => .string "Object"

def BinaryOp.json : BinaryOp → Json
  | .add => .string "Add"
  | .sub => .string "Sub"
  | .mul => .string "Mul"
  | .div => .string "Div"
  | .rem => .string "Rem"
  | .and => .string "And"
  | .or => .string "Or"
  | .xor => .string "Xor"
  | .shl => .string "Shl"
  | .shr => .string "Shr"
  | .ushr => .string "Ushr"
  | .cmp => .string "Cmp"
  | .cmpl => .string "Cmpl"
  | .cmpg => .string "Cmpg"

def Comparison.json : Comparison → Json
  | .eq => .string "Eq"
  | .ne => .string "Ne"
  | .lt => .string "Lt"
  | .ge => .string "Ge"
  | .gt => .string "Gt"
  | .le => .string "Le"

def InvokeKind.json : InvokeKind → Json
  | .virtual => .string "Virtual"
  | .super => .string "Super"
  | .direct => .string "Direct"
  | .static => .string "Static"
  | .interface => .string "Interface"

def DiagnosticKind.json : DiagnosticKind → Json
  | .conflict => .string "Conflict"
  | .unconstrained => .string "Unconstrained"
  | .ambiguous => .string "Ambiguous"

def Constant.json : Constant → Json
  | .int value => .tagged "Int" (.number value.toInt)
  | .long value => .tagged "Long" (.number value.toInt)
  | .float bits => .tagged "Float" (.ofNat bits.toNat)
  | .double bits => .tagged "Double" (.ofNat bits.toNat)
  | .null => .string "Null"
  | .string index => .tagged "String" (.ofNat index)
  | .type index => .tagged "Class" (.ofNat index)

def Local.json (var : Local) : Json :=
  .object [("kind", var.kind.json), ("index", .ofNat var.index)]

def CastMode.json : CastMode → Json
  | .reinterpret => .string "Reinterpret"
  | .coerce diagnostic => .record "Coerce" [("diagnostic", .ofOption .ofNat diagnostic)]

def Operand.json : Operand Local → Json
  | .var value => .tagged "Local" value.json
  | .constant value => .tagged "Constant" value.json
  | .literal bits wide peer =>
      .record "Literal" [("bits", .ofNat bits.toNat), ("wide", .bool wide), ("peer", peer.json)]
  | .cast value source target mode =>
      .record "Cast"
        [("value", value.json), ("from", source.json), ("to", target.json), ("mode", mode.json)]

def elementFields (array index : Operand Local) : List (String × Json) :=
  [("array", array.json), ("index", index.json)]

def instanceFields (object : Operand Local) (field : Nat) : List (String × Json) :=
  [("object", object.json), ("field", .ofNat field)]

def Expression.json : Expression Local → Json
  | .use operand => .tagged "Use" operand.json
  | .binary op left right =>
      .record "Binop" [("op", op.json), ("lhs", left.json), ("rhs", right.json)]
  | .negate operand => .tagged "Neg" operand.json
  | .convert value target => .record "Convert" [("value", value.json), ("to", target.json)]
  | .checkCast value type => .record "CheckCast" [("value", value.json), ("type_", .ofNat type)]
  | .instanceOf value type =>
      .record "InstanceOf" [("value", value.json), ("type_", .ofNat type)]
  | .length array => .tagged "Length" array.json
  | .newInstance type => .tagged "NewInstance" (.ofNat type)
  | .newArray type size => .record "NewArray" [("type_", .ofNat type), ("size", size.json)]
  | .newFilledArray type elements =>
      .record "NewFilledArray"
        [("type_", .ofNat type), ("elements", .array (elements.map Operand.json))]
  | .element array index => .record "ArrayRef" (elementFields array index)
  | .instanceField object field => .record "InstanceField" (instanceFields object field)
  | .staticField field => .tagged "StaticField" (.ofNat field)
  | .invoke kind method receiver arguments =>
      .record "Invoke"
        [("kind", kind.json), ("method", .ofNat method),
          ("receiver", .ofOption Operand.json receiver),
          ("args", .array (arguments.map Operand.json))]

def Destination.json : Destination Local → Json
  | .var value => .tagged "Local" value.json
  | .element array index => .record "ArrayElem" (elementFields array index)
  | .instanceField object field => .record "InstanceField" (instanceFields object field)
  | .staticField field => .tagged "StaticField" (.ofNat field)

def IdentitySource.json : IdentitySource → Json
  | .this => .string "This"
  | .parameter index type => .record "Parameter" [("index", .ofNat index), ("type_", type.json)]
  | .caughtException => .string "CaughtException"

def Statement.json : Statement Local → Json
  | .nop => .string "Nop"
  | .identity dest source => .record "Identity" [("dest", dest.json), ("source", source.json)]
  | .assign dest value => .record "Assign" [("dest", dest.json), ("expr", value.json)]
  | .invoke call => .tagged "Invoke" call.json
  | .branch op left right target =>
      .record "If"
        [("op", op.json), ("lhs", left.json), ("rhs", right.json), ("target", .ofNat target)]
  | .goto target => .tagged "Goto" (.ofNat target)
  | .switch key cases default =>
      .record "Switch"
        [("key", key.json),
          ("cases", .array (cases.map fun (key, target) =>
            .array [.number key.toInt, .ofNat target])),
          ("default", .ofNat default)]
  | .exit value => .tagged "Return" (.ofOption Operand.json value)
  | .throw value => .tagged "Throw" value.json
  | .enterMonitor object => .tagged "EnterMonitor" object.json
  | .exitMonitor object => .tagged "ExitMonitor" object.json
  | .fillArray array width elements =>
      .record "FillArray"
        [("array", array.json), ("width", .ofNat width),
          ("elements", .array (elements.map Constant.json))]

def Diagnostic.json (diagnostic : Diagnostic) : Json :=
  .object
    [("kind", diagnostic.kind.json), ("register", .ofNat diagnostic.register.number),
      ("addrs", .array (diagnostic.addrs.map .ofNat)), ("resolved", diagnostic.resolved.json),
      ("message", .string diagnostic.finding.text)]

def Trap.json (trap : Trap) : Json :=
  .object
    [("exception", .ofOption .ofNat trap.exception), ("begin", .ofNat trap.start),
      ("end", .ofNat trap.stop), ("handler", .ofNat trap.handler)]

def Body.json (body : Body) : Json :=
  .object
    [("method", .ofNat body.method), ("locals", .array (body.locals.map Local.json)),
      ("stmts", .array (body.statements.map fun (addr, statement) =>
        .array [.ofOption .ofNat addr, statement.json])),
      ("labels", .object (body.labels.map fun (addr, index) => (toString addr, .ofNat index))),
      ("traps", .array (body.traps.map Trap.json)),
      ("diagnostics", .array (body.diagnostics.map Diagnostic.json))]

end Dalvik
