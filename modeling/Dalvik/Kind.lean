import Dalvik.Descriptor

/-!
# Kinds

A local holds values of one kind: ints (and the types below them), longs,
floats, doubles, or object references.  A set of kinds says which kinds an
operand allows.
-/

namespace Dalvik

inductive Kind where
  | int | long | float | double | object
  deriving DecidableEq, Repr

namespace Kind

/-- All kinds; the earlier of two possible kinds is preferred. -/
def all : List Kind := [.int, .long, .float, .double, .object]

def width : Kind → Width
  | .long | .double => .wide
  | .int | .float | .object => .narrow

def letter : Kind → Char
  | .int => 'i'
  | .long => 'l'
  | .float => 'f'
  | .double => 'd'
  | .object => 'r'

def text : Kind → String
  | .int => "int"
  | .long => "long"
  | .float => "float"
  | .double => "double"
  | .object => "object"

def ofText? (text : String) : Option Kind :=
  all.find? (·.text == text)

/-- The kind of the values of a type; `void` has none. -/
def ofType : Descriptor → Option Kind
  | .void => none
  | .boolean | .byte | .short | .char | .int => some .int
  | .long => some .long
  | .float => some .float
  | .double => some .double
  | .array _ _ | .object _ => some .object

/-- Whether the bits of a value of one kind are a value of the other. -/
def bitCompatible : Kind → Kind → Bool
  | .int, .int | .int, .float | .float, .int | .float, .float => true
  | .long, .long | .long, .double | .double, .long | .double, .double => true
  | _, _ => false

end Kind

structure KindSet where
  int : Bool := false
  long : Bool := false
  float : Bool := false
  double : Bool := false
  object : Bool := false
  deriving DecidableEq, Repr

namespace KindSet

def empty : KindSet := {}

def narrow : KindSet := { int := true, float := true, object := true }

def wide : KindSet := { long := true, double := true }

/-- The kinds of untyped 32-bit numbers. -/
def narrowNumber : KindSet := { int := true, float := true }

def contains (set : KindSet) : Kind → Bool
  | .int => set.int
  | .long => set.long
  | .float => set.float
  | .double => set.double
  | .object => set.object

def ofKind : Kind → KindSet
  | .int => { int := true }
  | .long => { long := true }
  | .float => { float := true }
  | .double => { double := true }
  | .object => { object := true }

def inter (first second : KindSet) : KindSet :=
  { int := first.int && second.int
    long := first.long && second.long
    float := first.float && second.float
    double := first.double && second.double
    object := first.object && second.object }

def ofWidth : Width → KindSet
  | .narrow => narrow
  | .wide => wide

/-- The set of a bit mask; other bits are dropped. -/
def ofBits (bits : Nat) : KindSet :=
  { int := bits.testBit 0
    long := bits.testBit 1
    float := bits.testBit 2
    double := bits.testBit 3
    object := bits.testBit 4 }

def bits (set : KindSet) : Nat :=
  set.int.toNat + 2 * set.long.toNat + 4 * set.float.toNat + 8 * set.double.toNat
    + 16 * set.object.toNat

/-- The kinds of the set, the preferred one first. -/
def kinds (set : KindSet) : List Kind :=
  Kind.all.filter set.contains

def isEmpty (set : KindSet) : Bool :=
  set == empty

def single (set : KindSet) : Option Kind :=
  match set.kinds with
  | [kind] => some kind
  | _ => none

def preferred (set : KindSet) : Option Kind :=
  set.kinds.head?

/-- The width of the set's values: wide if there are kinds and all are wide. -/
def width (set : KindSet) : Width :=
  if set.inter wide = set ∧ set ≠ empty then .wide else .narrow

/-- Whether the set says no more than a width. -/
def isWidthOnly (set : KindSet) : Bool :=
  set == narrow || set == wide

/-- The kinds an operand of a declared kind allows. -/
def ofOperand : OperandKind → KindSet
  | .int | .boolean | .byte | .char | .short => ofKind .int
  | .long => ofKind .long
  | .float => ofKind .float
  | .double => ofKind .double
  | .object => ofKind .object
  | .narrow => narrowNumber
  | .wide => wide

def text (set : KindSet) : String :=
  "\x7b" ++ ", ".intercalate (set.kinds.map Kind.text) ++ "\x7d"

end KindSet

end Dalvik
