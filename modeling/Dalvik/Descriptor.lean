import Dalvik.Error

/-!
# Type descriptors

A descriptor is one letter for `void` and the primitive types, `L`, a name and
`;` for a class, and a `[` for each dimension before an array's element type.
Reading accepts up to 254 dimensions and no array of `void`.
-/

namespace Dalvik

inductive Descriptor where
  | void | boolean | byte | short | char | int | long | float | double
  | array (dimensions : Nat) (element : Descriptor)
  | object (name : String)
  deriving DecidableEq, Repr

namespace Descriptor

def chars : Descriptor → List Char
  | .void => ['V']
  | .boolean => ['Z']
  | .byte => ['B']
  | .short => ['S']
  | .char => ['C']
  | .int => ['I']
  | .long => ['J']
  | .float => ['F']
  | .double => ['D']
  | .array dimensions element => List.replicate dimensions '[' ++ element.chars
  | .object name => 'L' :: name.toList ++ [';']

def text (descriptor : Descriptor) : String :=
  String.ofList descriptor.chars

def sourceName : Descriptor → String
  | .void => "void"
  | .boolean => "boolean"
  | .byte => "byte"
  | .short => "short"
  | .char => "char"
  | .int => "int"
  | .long => "long"
  | .float => "float"
  | .double => "double"
  | .array dimensions element =>
      element.sourceName ++ String.join (List.replicate dimensions "[]")
  | .object name => String.ofList (name.toList.map fun c => if c = '/' then '.' else c)

def isReference : Descriptor → Bool
  | .array _ _ | .object _ => true
  | _ => false

/-- How many registers a value of the type takes; `void` has none. -/
def width : Descriptor → Option Width
  | .void => none
  | .long | .double => some .wide
  | _ => some .narrow

def slots (descriptor : Descriptor) : Nat :=
  descriptor.width.elim 0 Width.slots

def element? : Descriptor → Option Descriptor
  | .array dimensions element =>
      if dimensions = 1 then some element else some (.array (dimensions - 1) element)
  | _ => none

def ofScalarChars? : List Char → Option Descriptor
  | ['Z'] => some .boolean
  | ['B'] => some .byte
  | ['S'] => some .short
  | ['C'] => some .char
  | ['I'] => some .int
  | ['J'] => some .long
  | ['F'] => some .float
  | ['D'] => some .double
  | 'L' :: name =>
      if 2 ≤ name.length ∧ name.getLast? = some ';' then
        some (.object (String.ofList name.dropLast))
      else none
  | _ => none

def ofChars? (chars : List Char) : Option Descriptor :=
  if chars = ['V'] then some .void
  else
    let dimensions := (chars.takeWhile (· = '[')).length
    if 255 ≤ dimensions then none
    else
      (ofScalarChars? (chars.dropWhile (· = '['))).map fun scalar =>
        if dimensions = 0 then scalar else .array dimensions scalar

def read (chars : List Char) : Except CodeError Descriptor :=
  match ofChars? chars with
  | some descriptor => .ok descriptor
  | none => .error (.conversion (String.ofList chars) .descriptor)

/-- How many characters the first descriptor of a list takes.  The cut goes by
the first letter after the dimensions; it is not yet a check. -/
def firstLength (list rest : List Char) : Except CodeError Nat :=
  let dimensions := (rest.takeWhile (· = '[')).length
  match rest.dropWhile (· = '[') with
  | [] => .error (.conversion (String.ofList list) .descriptorList)
  | 'L' :: name =>
      if ';' ∈ name then .ok (dimensions + (name.takeWhile (· ≠ ';')).length + 2)
      else .error (.conversion (String.ofList list) .descriptorList)
  | letter :: _ => if letter.toNat < 0x80 then .ok (dimensions + 1) else .error .insideCharacter

/-- Read the descriptors that follow one another in `rest`, the end of `list`;
`fuel` bounds their number. -/
def readSome (list : List Char) : Nat → List Char → Except CodeError (List Descriptor)
  | _, [] => .ok []
  | 0, _ => .ok []
  | fuel + 1, rest => do
      let length ← firstLength list rest
      let first ← read (rest.take length)
      let others ← readSome list fuel (rest.drop length)
      return first :: others

def readAll (list : List Char) : Except CodeError (List Descriptor) :=
  readSome list list.length list

end Descriptor

structure Prototype where
  params : List Descriptor
  ret : Descriptor
  deriving DecidableEq, Repr

namespace Prototype

/-- Registers taken by the parameters, without the receiver. -/
def slots (prototype : Prototype) : Nat :=
  prototype.params.foldr (fun type slots => type.slots + slots) 0

def chars (prototype : Prototype) : List Char :=
  '(' :: prototype.params.flatMap Descriptor.chars ++ ')' :: prototype.ret.chars

def text (prototype : Prototype) : String :=
  String.ofList prototype.chars

/-- Read a prototype; its parameters end at the first closing parenthesis. -/
def read : List Char → Except CodeError Prototype
  | '(' :: inner =>
      if ')' ∈ inner then do
        let params ← Descriptor.readAll (inner.takeWhile (· ≠ ')'))
        let ret ← Descriptor.read ((inner.dropWhile (· ≠ ')')).drop 1)
        return ⟨params, ret⟩
      else .error (.conversion (String.ofList ('(' :: inner)) .prototype)
  | chars => .error (.conversion (String.ofList chars) .prototype)

end Prototype

end Dalvik
