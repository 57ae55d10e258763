import Dalvik.Listing.Assembly

/-!
# Assembly listings

A listing is read line by line.  It names a class and holds methods; methods
without instructions are left out.  Directives about sources, fields and
debugging are accepted and ignored, annotations are skipped.
-/

namespace Dalvik

structure Listing where
  pool : Pool := {}
  methods : List Code := []

namespace Listing

structure Progress where
  listing : Listing := {}
  owner : Option Descriptor := none
  draft : Option Draft := none
  skipping : Bool := false

def ignoredDirectives : List String :=
  [".super", ".source", ".implements", ".field", ".line", ".prologue", ".epilogue", ".local",
    ".restart", ".param"]

def annotationEnd : String := ".end annotation"

namespace Progress

def readFlags (line : Nat) : List (List Char) → Except CodeError AccessFlags
  | [] => .ok .empty
  | word :: words =>
      match AccessFlags.ofKeyword? (String.ofList word) with
      | none => fail line (.unknownFlag (String.ofList word))
      | some flag => do
          let flags ← readFlags line words
          return flag.union flags

def openMethod (progress : Progress) (line : Nat) (rest : List Char) :
    Except CodeError Progress := do
  if progress.draft.isSome then fail line .nestedMethod
  let some owner := progress.owner | fail line .methodBeforeClass
  let words := Text.words rest
  let some signature := words.getLast? | fail line .missingSignature
  let flags ← readFlags line words.dropLast
  if '(' ∉ signature then fail line .missingPrototype
  let prototype ← atLine line (Prototype.read (signature.dropWhile (· ≠ '(')))
  let name := String.ofList (signature.takeWhile (· ≠ '('))
  return { progress with draft := some { line, method := ⟨owner, name, prototype⟩, flags } }

def closeMethod (progress : Progress) (line : Nat) : Except CodeError Progress :=
  match progress.draft with
  | none => fail line .endOutsideMethod
  | some draft =>
      if draft.instructions.isEmpty then .ok { progress with draft := none }
      else do
        let (pool, code) ← draft.assemble progress.listing.pool
        return { progress with
          draft := none
          listing := ⟨pool, progress.listing.methods ++ [code]⟩ }

/-- Read a line outside of data tables and annotations. -/
def readPlainLine (progress : Progress) (line : Nat) (text : List Char) :
    Except CodeError Progress := do
  let (word, rest) := Text.splitWord text
  let name := String.ofList word
  if name = ".class" then
    let owner ← readDescriptor line ((Text.words rest).getLast?.getD [])
    return { progress with owner := some owner }
  else if ignoredDirectives.contains name then return progress
  else if name = ".annotation" ∨ name = ".subannotation" then
    return { progress with skipping := true }
  else if name = ".end" then
    match String.ofList rest with
    | "method" => progress.closeMethod line
    | "field" | "param" | "local" => return progress
    | _ => fail line (.unexpectedEnd (String.ofList text))
  else if name = ".method" then progress.openMethod line rest
  else
    match progress.draft with
    | none => fail line (.outsideMethod name)
    | some draft => do
        let draft ← draft.addLine line word rest text
        return { progress with draft := some draft }

/-- Read a line without its comment and the blanks around it. -/
def readLine (progress : Progress) (line : Nat) (text : List Char) :
    Except CodeError Progress :=
  if text.isEmpty then .ok progress
  else if progress.skipping then
    .ok { progress with skipping := text ≠ annotationEnd.toList }
  else
    match progress.draft with
    | some draft =>
        match draft.pending with
        | some payload => do
            let draft ← draft.addPayloadLine payload line text
            return { progress with draft := some draft }
        | none => progress.readPlainLine line text
    | none => progress.readPlainLine line text

def readLines (progress : Progress) : Nat → List (List Char) → Except CodeError Progress
  | _, [] => .ok progress
  | line, text :: rest => do
      let progress ← progress.readLine line (Text.trim (stripComment text))
      progress.readLines (line + 1) rest

def finish (progress : Progress) (lastLine : Nat) : Except CodeError Listing :=
  match progress.draft with
  | some draft => fail draft.line (.unclosedMethod draft.method.name)
  | none =>
      if progress.skipping then fail lastLine (.missingEnd annotationEnd)
      else .ok progress.listing

end Progress

def read (text : String) : Except CodeError Listing := do
  let lines := lines text.toList
  let progress ← Progress.readLines {} 1 lines
  progress.finish lines.length

end Listing

end Dalvik
