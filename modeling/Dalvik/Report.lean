import Dalvik.Body.Json
import Dalvik.Flow.Dot
import Dalvik.Lift
import Dalvik.Listing

/-!
# Reports on listings

What is printed and saved about the methods of a listing.  A method that fails
does not keep the others from being reported.
-/

namespace Dalvik

/-- One thing that a report does: print a line, or save a file in a directory
that is made if it is missing. -/
inductive Action where
  | print (line : String)
  | save (directory name contents : String)
  deriving DecidableEq, Repr

structure Report where
  actions : List Action := []
  failed : Bool := false
  deriving DecidableEq, Repr

namespace Report

def append (first second : Report) : Report :=
  ⟨first.actions ++ second.actions, first.failed || second.failed⟩

def ofLines (lines : List String) : Report :=
  ⟨lines.map .print, false⟩

def concat (reports : List Report) : Report :=
  reports.foldl append {}

def coloured (code text : String) : String :=
  "\x1b[" ++ code ++ "m" ++ text ++ "\x1b[0m"

def red (text : String) : String := coloured "31" text

def yellow (text : String) : String := coloured "33" text

def indented (line : String) : String := "    " ++ line

def title (name : String) : String := "[*] " ++ name

end Report

structure Lifted where
  code : Code
  name : String
  result : Except LiftError Body

def Listing.lift (listing : Listing) (select : String → Bool) (options : LiftOptions) :
    List Lifted :=
  let named := listing.methods.map fun code => (code, code.name listing.pool)
  (named.filter fun (_, name) => select name).map fun (code, name) =>
    ⟨code, name, Lift.run code listing.pool options⟩

namespace Lifted

def isFailure (lifted : Lifted) : Bool :=
  match lifted.result with
  | .ok _ => false
  | .error _ => true

/-- The line of a diagnostic: conflicts are red. -/
def diagnosticLine (diagnostic : Diagnostic) : String :=
  let comment := "// " ++ diagnostic.text
  Report.indented (if diagnostic.isConflict then Report.red comment else Report.yellow comment)

def lines (pool : Pool) (lifted : Lifted) : Except CodeError (List String) :=
  match lifted.result with
  | .ok body => do
      let text ← body.text pool
      return Report.title lifted.name :: text :: body.diagnostics.map diagnosticLine
  | .error error =>
      return [Report.title lifted.name, Report.indented (Report.red ("// " ++ error.message))]

def json (lifted : Lifted) : Json :=
  let outcome := match lifted.result with
    | .ok body => ("body", body.json)
    | .error error => ("error", .string error.message)
  .object [("method", .string lifted.name), outcome]

end Lifted

namespace Report

def ofLifted (pool : Pool) (lifted : List Lifted) : Except CodeError Report := do
  let lines ← lifted.mapM (Lifted.lines pool)
  return { ofLines lines.flatten with failed := lifted.any Lifted.isFailure }

def ofLiftedJson (lifted : List Lifted) : Report :=
  { ofLines [(Json.array (lifted.map Lifted.json)).text] with
    failed := lifted.any Lifted.isFailure }

def rule : String := indented "------------------------------"

def blockLines (pool : Pool) (block : Block) : Except CodeError (List String) := do
  let text ← block.text pool
  return ((Listing.lines text.toList).map fun line => indented (String.ofList line)) ++ [rule]

def ofGraph (pool : Pool) (graph : FlowGraph) : Except CodeError Report := do
  let blocks ← graph.blocksByAddress.mapM (blockLines pool)
  return ofLines (rule :: blocks.flatten)

/-- A prototype as a part of a file name. -/
def fileText (prototype : Prototype) : String :=
  String.ofList (prototype.chars.map fun c => if c = '/' ∨ c = ';' then '_' else c)

def ofDrawing (pool : Pool) (directory : String) (code : Code) (graph : FlowGraph) :
    Except CodeError Report := do
  let method ← pool.method code.method
  let drawing ← graph.drawing pool
  let file := method.name ++ fileText method.prototype ++ ".dot"
  return ⟨[.save (directory ++ "/" ++ method.owner.sourceName) file drawing], false⟩

/-- The report on the flow graph of a method; graphs are printed unless there
is a directory for them. -/
def ofMethodGraph (pool : Pool) (directory : Option String) (code : Code) (name : String) :
    Except CodeError Report := do
  let heading := ofLines [title name]
  match FlowGraph.build code pool with
  | .error _ => return { heading with failed := true }
  | .ok graph =>
      let report ← match directory with
        | some directory => ofDrawing pool directory code graph
        | none => ofGraph pool graph
      return heading.append report

def ofGraphs (listing : Listing) (select : String → Bool) (directory : Option String) :
    Except CodeError Report := do
  let named := listing.methods.map fun code => (code, code.name listing.pool)
  let reports ← (named.filter fun (_, name) => select name).mapM fun (code, name) =>
    ofMethodGraph listing.pool directory code name
  return concat reports

end Report

end Dalvik
