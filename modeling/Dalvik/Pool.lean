import Dalvik.Descriptor

/-!
# The constant pool

Strings, types, fields and methods are interned: equal items share one index,
and a new item takes the next one.  Instructions refer to items by section and
index.
-/

namespace Dalvik

structure FieldRef where
  owner : Descriptor
  name : String
  type : Descriptor
  deriving DecidableEq, Repr

def FieldRef.text (field : FieldRef) : String :=
  field.owner.text ++ "->" ++ field.name ++ ":" ++ field.type.text

structure MethodRef where
  owner : Descriptor
  name : String
  prototype : Prototype
  deriving DecidableEq, Repr

def MethodRef.text (method : MethodRef) : String :=
  method.owner.text ++ "->" ++ method.name ++ method.prototype.text

structure PoolRef where
  kind : ReferenceKind
  index : Nat
  deriving DecidableEq, Repr

/-- One section of the pool: its items by index, and the index of each item. -/
structure PoolSection (α : Type) where
  items : List α := []
  ids : List (α × Nat) := items.zipIdx

namespace PoolSection

variable {α : Type}

def get? (sect : PoolSection α) (index : Nat) : Option α :=
  sect.items[index]?

def idOf? [BEq α] (sect : PoolSection α) (item : α) : Option Nat :=
  sect.ids.lookup item

/-- The index of an item, which is added if it is new. -/
def intern [BEq α] (sect : PoolSection α) (item : α) : PoolSection α × Nat :=
  match sect.idOf? item with
  | some index => (sect, index)
  | none =>
      let index := sect.items.length
      (⟨sect.items ++ [item], (item, index) :: sect.ids⟩, index)

end PoolSection

structure Pool where
  strings : PoolSection String := {}
  types : PoolSection Descriptor := {}
  fields : PoolSection FieldRef := {}
  methods : PoolSection MethodRef := {}

namespace Pool

def empty : Pool := {}

def internString (pool : Pool) (text : String) : Pool × Nat :=
  let (strings, index) := pool.strings.intern text
  ({ pool with strings }, index)

def internType (pool : Pool) (type : Descriptor) : Pool × Nat :=
  let (types, index) := pool.types.intern type
  ({ pool with types }, index)

def internField (pool : Pool) (field : FieldRef) : Pool × Nat :=
  let (fields, index) := pool.fields.intern field
  ({ pool with fields }, index)

def internMethod (pool : Pool) (method : MethodRef) : Pool × Nat :=
  let (methods, index) := pool.methods.intern method
  ({ pool with methods }, index)

def required {α : Type} (kind : ReferenceKind) (index : Nat) (item : Option α) :
    Except CodeError α :=
  match item with
  | some item => .ok item
  | none => .error (.unresolved kind index)

def string (pool : Pool) (index : Nat) : Except CodeError String :=
  required .string index (pool.strings.get? index)

def type (pool : Pool) (index : Nat) : Except CodeError Descriptor :=
  required .type index (pool.types.get? index)

def field (pool : Pool) (index : Nat) : Except CodeError FieldRef :=
  required .field index (pool.fields.get? index)

def method (pool : Pool) (index : Nat) : Except CodeError MethodRef :=
  required .method index (pool.methods.get? index)

def textOf (pool : Pool) (reference : PoolRef) : Except CodeError String :=
  match reference.kind with
  | .string => (pool.string reference.index).map Text.quote
  | .type => (pool.type reference.index).map Descriptor.text
  | .field => (pool.field reference.index).map FieldRef.text
  | .method => (pool.method reference.index).map MethodRef.text

end Pool

end Dalvik
