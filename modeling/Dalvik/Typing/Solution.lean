import Dalvik.Body.Diagnostic
import Dalvik.SortedSet
import Dalvik.Typing.Constraint
import Dalvik.Typing.Partition
import Dalvik.Typing.Value

/-!
# Solving constraints

Values that must have one kind form a class.  The kinds of a class are those
of its width that all its constraints allow.  The first constraint that leaves
no kind makes the class conflicting, as do values of two widths in one class.
-/

namespace Dalvik

/-- The kind of classes that constraints do not determine. -/
def defaultKind : Width → Kind
  | .narrow => .int
  | .wide => .long

inductive Narrowing where
  | mixed
  | remaining (kinds : KindSet) (constrained : Bool)
  | emptied (left : KindSet) (culprit : Nat)
  deriving DecidableEq, Repr

namespace Narrowing

/-- Take the constraint at a position into account; a conflict stays. -/
def restrict (position : Nat) (allowed : KindSet) : Narrowing → Narrowing
  | .remaining kinds _ =>
      if kinds.inter allowed = .empty then .emptied kinds position
      else .remaining (kinds.inter allowed) true
  | conflict => conflict

/-- Take the constraints from a position on into account, as far as they are
about one of the members. -/
def restrictAll (isMember : Nat → Bool) : Narrowing → Nat → List Recorded → Narrowing
  | narrowing, _, [] => narrowing
  | narrowing, position, entry :: rest =>
      let narrowing := match entry.constraint.kinds with
        | some allowed =>
            if isMember entry.constraint.owner then narrowing.restrict position allowed
            else narrowing
        | none => narrowing
      restrictAll isMember narrowing (position + 1) rest

def isConflict : Narrowing → Bool
  | .remaining _ _ => false
  | .mixed | .emptied _ _ => true

def resolved (width : Width) : Narrowing → Kind
  | .remaining kinds true => kinds.preferred.getD (defaultKind width)
  | .remaining _ false | .mixed | .emptied _ _ => defaultKind width

end Narrowing

structure ValueClass where
  members : List Nat
  kind : Kind
  conflicting : Bool
  diagnostic : Option Nat
  deriving DecidableEq, Repr

structure Solution where
  classOf : List Nat
  classes : List ValueClass
  diagnostics : List Diagnostic
  deriving DecidableEq, Repr

namespace Solution

def class? (solution : Solution) (value : Nat) : Option ValueClass :=
  solution.classOf[value]?.bind fun number => solution.classes[number]?

def kindOf (solution : Solution) (value : Nat) : Kind :=
  (solution.class? value).elim .int ValueClass.kind

def isConflicting (solution : Solution) (value : Nat) : Bool :=
  (solution.class? value).elim false ValueClass.conflicting

def diagnosticOf (solution : Solution) (value : Nat) : Option Nat :=
  (solution.class? value).bind ValueClass.diagnostic

def conflicts (solution : Solution) : List Diagnostic :=
  solution.diagnostics.filter Diagnostic.isConflict

def sameKinds (recorded : List Recorded) : List (Nat × Nat) :=
  recorded.filterMap fun entry =>
    match entry.constraint with
    | .sameAs value other => some (value, other)
    | _ => none

def partition (values : List ProvisionalValue) (recorded : List Recorded) : Partition :=
  (Partition.discrete values.length).unionAll (sameKinds recorded)

def definitionAddrs (values : List ProvisionalValue) (members : List Nat) : List Addr :=
  (SortedSet.ofList <| members.filterMap fun member =>
    match values[member]?.bind ProvisionalValue.site with
    | some (.at addr) => some addr
    | _ => none).elements

def narrowing (values : List ProvisionalValue) (recorded : List Recorded) (width : Width)
    (members : List Nat) : Narrowing :=
  let widths := members.filterMap fun member => values[member]?.map ProvisionalValue.width
  let first := if widths.all (· == width) then Narrowing.remaining (.ofWidth width) false
    else .mixed
  first.restrictAll members.contains 0 recorded

def registerOf (values : List ProvisionalValue) (value : Nat) : Reg :=
  values[value]?.elim (Reg.ofNat 0) ProvisionalValue.reg

/-- The constraints up to a position that restrict a member. -/
def restrictionsUpTo (recorded : List Recorded) (members : List Nat) (position : Nat) :
    List Recorded :=
  (recorded.take (position + 1)).filter fun entry =>
    entry.constraint.kinds.isSome && members.contains entry.constraint.owner

/-- Whether a constraint before a position follows from a declared type. -/
def isDeclared (recorded : List Recorded) (members : List Nat) (position : Nat) : Bool :=
  (recorded.take position).any fun entry =>
    entry.origin == .anchor && members.contains entry.constraint.owner

def report (values : List ProvisionalValue) (recorded : List Recorded) (members : List Nat)
    (resolved : Kind) : Narrowing → Option Diagnostic
  | .mixed =>
      some ⟨.mixedWidths, registerOf values (members.headD 0), definitionAddrs values members,
        resolved⟩
  | .emptied left culprit =>
      let entry := recorded[culprit]?
      let required := (entry.bind fun entry => entry.constraint.kinds).getD .empty
      let owner := entry.elim 0 fun entry => entry.constraint.owner
      let addrs := (restrictionsUpTo recorded members culprit).filterMap Recorded.addr
      some ⟨.emptied required left (isDeclared recorded members culprit),
        registerOf values owner, (SortedSet.ofList addrs).elements, resolved⟩
  | .remaining _ false =>
      some ⟨.noConstraint, registerOf values (members.headD 0), definitionAddrs values members,
        resolved⟩
  | .remaining kinds true =>
      if kinds.single.isSome then none
      else
        some ⟨.severalKinds kinds, registerOf values (members.headD 0),
          definitionAddrs values members, resolved⟩

/-- A class and its diagnostic, which is number `number`. -/
def solveClass (values : List ProvisionalValue) (recorded : List Recorded) (number : Nat)
    (members : List Nat) : ValueClass × Option Diagnostic :=
  let width := (values[members.headD 0]?).elim .narrow ProvisionalValue.width
  let narrowing := narrowing values recorded width members
  let kind := narrowing.resolved width
  let report := report values recorded members kind narrowing
  (⟨members, kind, narrowing.isConflict, report.map fun _ => number⟩, report)

def solveClasses (values : List ProvisionalValue) (recorded : List Recorded) :
    Nat → List (List Nat) → List ValueClass × List Diagnostic
  | _, [] => ([], [])
  | number, members :: rest =>
      let (first, report) := solveClass values recorded number members
      let (classes, diagnostics) :=
        solveClasses values recorded (number + report.toList.length) rest
      (first :: classes, report.toList ++ diagnostics)

def solve (values : List ProvisionalValue) (recorded : List Recorded) : Solution :=
  let partition := partition values recorded
  let leaders := partition.leaders
  let (classes, diagnostics) :=
    solveClasses values recorded 0 (leaders.map partition.members)
  { classOf := partition.labels.map leaders.idxOf, classes, diagnostics }

end Solution

end Dalvik
