import Dalvik.Body.Constant
import Dalvik.Body.Operator

/-!
# Statements

A lifted method is a list of three-address statements.  They are generic over
what stands for a value: a slot while kinds are still open, a typed local in
the end.
-/

namespace Dalvik

/-- A value as one instruction sees it, with the kinds that instruction allows
it to have. -/
structure Slot where
  value : Nat
  contract : KindSet
  deriving DecidableEq, Repr

def Slot.text (slot : Slot) : String :=
  "$" ++ toString slot.value ++ slot.contract.text

structure Local where
  kind : Kind
  index : Nat
  deriving DecidableEq, Repr

def Local.text (var : Local) : String :=
  String.ofList [var.kind.letter] ++ toString var.index

/-- How a value of one kind is used as another: by its bits, or, where a
conflict was reported, as a placeholder. -/
inductive CastMode where
  | reinterpret
  | coerce (diagnostic : Option Nat)
  deriving DecidableEq, Repr

/-- What a statement reads.  A literal takes the kind of its peer. -/
inductive Operand (α : Type) where
  | var (value : α)
  | constant (constant : Constant)
  | literal (bits : UInt64) (wide : Bool) (peer : α)
  | cast (value : α) (source target : Kind) (mode : CastMode)
  deriving DecidableEq, Repr

/-- What a value at the start of a method or handler is. -/
inductive IdentitySource where
  | this
  | parameter (index : Nat) (type : Descriptor)
  | caughtException
  deriving DecidableEq, Repr

inductive Expression (α : Type) where
  | use (operand : Operand α)
  | binary (op : BinaryOp) (left right : Operand α)
  | negate (operand : Operand α)
  | convert (value : Operand α) (target : Descriptor)
  | checkCast (value : Operand α) (type : Nat)
  | instanceOf (value : Operand α) (type : Nat)
  | length (array : Operand α)
  | newInstance (type : Nat)
  | newArray (type : Nat) (size : Operand α)
  | newFilledArray (type : Nat) (elements : List (Operand α))
  | element (array index : Operand α)
  | instanceField (object : Operand α) (field : Nat)
  | staticField (field : Nat)
  | invoke (kind : InvokeKind) (method : Nat) (receiver : Option (Operand α))
      (arguments : List (Operand α))
  deriving DecidableEq, Repr

inductive Destination (α : Type) where
  | var (value : α)
  | element (array index : Operand α)
  | instanceField (object : Operand α) (field : Nat)
  | staticField (field : Nat)
  deriving DecidableEq, Repr

inductive Statement (α : Type) where
  | nop
  | identity (dest : α) (source : IdentitySource)
  | assign (dest : Destination α) (value : Expression α)
  | invoke (call : Expression α)
  | branch (op : Comparison) (left right : Operand α) (target : Addr)
  | goto (target : Addr)
  | switch (key : Operand α) (cases : List (Int32 × Addr)) (default : Addr)
  | exit (value : Option (Operand α))
  | throw (value : Operand α)
  | enterMonitor (object : Operand α)
  | exitMonitor (object : Operand α)
  | fillArray (array : Operand α) (width : Nat) (elements : List Constant)
  deriving DecidableEq, Repr

namespace Statement

def targets {α : Type} : Statement α → List Addr
  | .branch _ _ _ target => [target]
  | .goto target => [target]
  | .switch _ cases default => cases.map Prod.snd ++ [default]
  | _ => []

end Statement

end Dalvik
