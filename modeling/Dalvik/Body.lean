import Dalvik.Body.Diagnostic
import Dalvik.Body.Printer
import Dalvik.Code
import Dalvik.SortedSet

/-!
# Lifted bodies

A body is a method's statements over typed locals, with the labels of the
lowered instructions, the exception traps and the diagnostics.
-/

namespace Dalvik

/-- A handler for the statements from `start` up to but not including `stop`,
given by statement numbers. -/
structure Trap where
  exception : Option Nat
  start : Nat
  stop : Nat
  handler : Nat
  deriving DecidableEq, Repr

structure Body where
  method : Nat
  locals : List Local
  statements : List (Option Addr × Statement Local)
  labels : List (Addr × Nat)
  traps : List Trap
  diagnostics : List Diagnostic
  deriving DecidableEq

namespace Body

def statementIndex (body : Body) (addr : Addr) : Option Nat :=
  body.labels.lookup addr

def statementsAt (body : Body) (addr : Addr) : List (Statement Local) :=
  body.statements.filterMap fun (place, statement) =>
    if place = some addr then some statement else none

def definedLocal : Statement Local → Option Local
  | .assign (.var dest) _ => some dest
  | .identity dest _ => some dest
  | _ => none

def localDefinedAt (body : Body) (addr : Addr) : Option Local :=
  (body.statementsAt addr).findSome? definedLocal

/-- The numbers of the statements that a jump or a trap refers to. -/
def shownLabels (body : Body) : SortedSet Nat :=
  let jumps := (body.statements.flatMap fun (_, statement) => statement.targets).filterMap
    body.statementIndex
  let traps := body.traps.flatMap fun trap => [trap.start, trap.stop, trap.handler]
  SortedSet.ofList (jumps ++ traps)

def labelText (index : Nat) : String :=
  "label" ++ toString index

def style (body : Body) (pool : Pool) : StatementStyle Local where
  pool
  value := Local.text
  target := fun addr =>
    match body.statementIndex addr with
    | some index => labelText index
    | none => plainTarget addr

/-- The class that handlers of every exception catch. -/
def anyException : Descriptor := .object "java/lang/Throwable"

def trapText (pool : Pool) (trap : Trap) : Except CodeError String := do
  let exception ← match trap.exception with
    | some type => pool.type type
    | none => .ok anyException
  return "    catch " ++ exception.sourceName ++ " from " ++ labelText trap.start ++ " to "
    ++ labelText trap.stop ++ " with " ++ labelText trap.handler ++ ";\n"

def statementLines (style : StatementStyle Local) (shown : SortedSet Nat) :
    Nat → List (Statement Local) → Except CodeError (List String)
  | index, [] => .ok (if shown.contains index then ["  " ++ labelText index ++ ":\n"] else [])
  | index, statement :: rest => do
      let label := if shown.contains index then "  " ++ labelText index ++ ":\n" else ""
      let text ← style.statement statement
      let lines ← statementLines style shown (index + 1) rest
      return (label ++ "    " ++ text ++ ";\n") :: lines

def text (pool : Pool) (body : Body) : Except CodeError String := do
  let method ← pool.method body.method
  let locals := body.locals.map fun var => "    " ++ var.kind.text ++ " " ++ var.text ++ ";\n"
  let gap := if body.locals.isEmpty then "" else "\n"
  let statements ←
    statementLines (body.style pool) body.shownLabels 0 (body.statements.map Prod.snd)
  let traps ← body.traps.mapM (trapText pool)
  return method.text ++ " \x7b\n" ++ String.join locals ++ gap ++ String.join statements
    ++ String.join traps ++ "\x7d"

end Body

end Dalvik
