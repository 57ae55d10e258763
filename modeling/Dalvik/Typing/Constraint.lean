import Dalvik.Address
import Dalvik.Kind

/-!
# Typing constraints

What an instruction or a declaration says about the kinds of values.
-/

namespace Dalvik

inductive Constraint where
  | exactly (value : Nat) (kind : Kind)
  | sameAs (value other : Nat)
  | oneOf (value : Nat) (kinds : KindSet)
  deriving DecidableEq, Repr

namespace Constraint

/-- The constraint that a value has one of the kinds; a set that only says a
width needs none. -/
def restricting (value : Nat) (kinds : KindSet) : Option Constraint :=
  if kinds.isWidthOnly then none
  else
    match kinds.single with
    | some kind => some (.exactly value kind)
    | none => some (.oneOf value kinds)

def owner : Constraint → Nat
  | .exactly value _ | .sameAs value _ | .oneOf value _ => value

def kinds : Constraint → Option KindSet
  | .exactly _ kind => some (.ofKind kind)
  | .oneOf _ kinds => some kinds
  | .sameAs _ _ => none

def valueText (value : Nat) : String :=
  "$" ++ toString value

def text : Constraint → String
  | .exactly value kind => valueText value ++ " is " ++ kind.text
  | .sameAs value other => valueText value ++ " same kind as " ++ valueText other
  | .oneOf value kinds => valueText value ++ " one of " ++ kinds.text

end Constraint

/-- Whether a constraint follows from an opcode or from a declared type. -/
inductive Origin where
  | opcode
  | anchor
  deriving DecidableEq, Repr

/-- A constraint with the instruction it comes from; the method's signature has
no address. -/
structure Recorded where
  addr : Option Addr
  constraint : Constraint
  origin : Origin
  deriving DecidableEq, Repr

end Dalvik
