/-!
# Operators

The operators of lifted statements, each named by the leading part of the
mnemonics it comes from.
-/

namespace Dalvik

inductive BinaryOp where
  | add | sub | mul | div | rem | and | or | xor | shl | shr | ushr | cmp | cmpl | cmpg
  deriving DecidableEq, Repr

namespace BinaryOp

/-- The operator of an arithmetic mnemonic: the part before the first `-` or `/`. -/
def ofMnemonic? (mnemonic : String) : Option BinaryOp :=
  match String.ofList (mnemonic.toList.takeWhile fun c => c ≠ '-' ∧ c ≠ '/') with
  | "add" => some .add
  | "sub" | "rsub" => some .sub
  | "mul" => some .mul
  | "div" => some .div
  | "rem" => some .rem
  | "and" => some .and
  | "or" => some .or
  | "xor" => some .xor
  | "shl" => some .shl
  | "shr" => some .shr
  | "ushr" => some .ushr
  | "cmp" => some .cmp
  | "cmpl" => some .cmpl
  | "cmpg" => some .cmpg
  | _ => none

def isShift : BinaryOp → Bool
  | .shl | .shr | .ushr => true
  | _ => false

def text : BinaryOp → String
  | .add => "+"
  | .sub => "-"
  | .mul => "*"
  | .div => "/"
  | .rem => "%"
  | .and => "&"
  | .or => "|"
  | .xor => "^"
  | .shl => "<<"
  | .shr => ">>"
  | .ushr => ">>>"
  | .cmp => "cmp"
  | .cmpl => "cmpl"
  | .cmpg => "cmpg"

end BinaryOp

def afterWord? (word text : List Char) : Option (List Char) :=
  if word.isPrefixOf text then some (text.drop word.length) else none

def withoutEnd (word text : List Char) : List Char :=
  if word.isSuffixOf text then text.take (text.length - word.length) else text

inductive Comparison where
  | eq | ne | lt | ge | gt | le
  deriving DecidableEq, Repr

namespace Comparison

/-- The comparison of an `if` mnemonic, with or without a final `z`. -/
def ofMnemonic? (mnemonic : String) : Option Comparison := do
  let condition ← afterWord? "if-".toList mnemonic.toList
  match String.ofList (withoutEnd ['z'] condition) with
  | "eq" => some .eq
  | "ne" => some .ne
  | "lt" => some .lt
  | "ge" => some .ge
  | "gt" => some .gt
  | "le" => some .le
  | _ => none

/-- Whether references can be compared so. -/
def isEquality : Comparison → Bool
  | .eq | .ne => true
  | _ => false

def text : Comparison → String
  | .eq => "=="
  | .ne => "!="
  | .lt => "<"
  | .ge => ">="
  | .gt => ">"
  | .le => "<="

end Comparison

inductive InvokeKind where
  | virtual | super | direct | static | interface
  deriving DecidableEq, Repr

namespace InvokeKind

/-- The call of an `invoke` mnemonic, with or without a final `/range`. -/
def ofMnemonic? (mnemonic : String) : Option InvokeKind := do
  let kind ← afterWord? "invoke-".toList mnemonic.toList
  match String.ofList (withoutEnd "/range".toList kind) with
  | "virtual" => some .virtual
  | "super" => some .super
  | "direct" => some .direct
  | "static" => some .static
  | "interface" => some .interface
  | _ => none

def hasReceiver : InvokeKind → Bool
  | .static => false
  | _ => true

def text : InvokeKind → String
  | .virtual => "virtualinvoke"
  | .super | .direct => "specialinvoke"
  | .static => "staticinvoke"
  | .interface => "interfaceinvoke"

end InvokeKind

end Dalvik
