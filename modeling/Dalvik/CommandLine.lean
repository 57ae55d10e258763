import Dalvik.Report
import Dalvik.Text.Pattern.Reading

/-!
# The command line

There are two commands: `lift` prints the lifted bodies of a listing's methods,
`cfg` their flow graphs.  Options are given by a letter after one dash or by a
name after two.
-/

namespace Dalvik

structure OptionRule where
  name : String
  letter : Option Char := none
  takesValue : Bool := false
  deriving DecidableEq, Repr

structure GivenOption where
  name : String
  value : Option String := none
  deriving DecidableEq, Repr

inductive UsageFault where
  | missingCommand
  | unknownCommand (name : String)
  | unknownOption (text : String)
  | unexpectedArgument (text : String)
  | unexpectedValue (name : String)
  | missingValue (name : String)
  | repeatedOption (name : String)
  | missingOption (name : String)
  | badNumber (text : String)
  deriving DecidableEq, Repr

def UsageFault.message : UsageFault → String
  | .missingCommand => "missing subcommand"
  | .unknownCommand name => "unrecognized subcommand '" ++ name ++ "'"
  | .unknownOption text | .unexpectedArgument text => "unexpected argument '" ++ text ++ "'"
  | .unexpectedValue name => "unexpected value for '--" ++ name ++ "'"
  | .missingValue name => "a value is required for '--" ++ name ++ "'"
  | .repeatedOption name => "the argument '--" ++ name ++ "' cannot be used multiple times"
  | .missingOption name => "the argument '--" ++ name ++ "' is required"
  | .badNumber text => "invalid number '" ++ text ++ "'"

/-- A missing command is a failure of the run, anything else a wrong use. -/
def UsageFault.exitCode : UsageFault → UInt32
  | .missingCommand => 1
  | _ => 2

namespace CommandLine

def commonRules : List OptionRule :=
  [⟨"debug", some 'd', false⟩, ⟨"verbose", some 'v', false⟩, ⟨"ecslog", some 'e', false⟩,
    ⟨"input", some 'i', true⟩, ⟨"filter-method", none, true⟩]

def liftRules : List OptionRule :=
  commonRules ++ [⟨"jobs", some 'j', true⟩, ⟨"strict", none, false⟩,
    ⟨"keep-dead-code", none, false⟩, ⟨"json", none, false⟩]

def graphRules : List OptionRule :=
  commonRules ++ [⟨"output", some 'o', true⟩]

/-- The letters after one dash: options without a value may be joined, and the
rest after an option with a value is its value.  An option that still needs its
value comes without one. -/
def readLetters (rules : List OptionRule) (word : String) :
    List Char → Except UsageFault (List GivenOption)
  | [] => .ok []
  | letter :: rest =>
      match rules.find? (·.letter == some letter) with
      | none => .error (.unknownOption word)
      | some rule =>
          if rule.takesValue then
            match rest with
            | [] => .ok [⟨rule.name, none⟩]
            | '=' :: value | value => .ok [⟨rule.name, some (String.ofList value)⟩]
          else do
            let others ← readLetters rules word rest
            return ⟨rule.name, none⟩ :: others

/-- The name after two dashes, with a value after an equals sign. -/
def readName (rules : List OptionRule) (word : String) (chars : List Char) :
    Except UsageFault (List GivenOption) :=
  let name := String.ofList (chars.takeWhile (· ≠ '='))
  match rules.find? (·.name == name), chars.dropWhile (· ≠ '=') with
  | none, _ => .error (.unknownOption word)
  | some rule, [] => .ok [⟨rule.name, none⟩]
  | some rule, _ :: value =>
      if rule.takesValue then .ok [⟨rule.name, some (String.ofList value)⟩]
      else .error (.unexpectedValue rule.name)

/-- Whether a word is an option or the end of options, not a value. -/
def isOption (word : String) : Bool :=
  match word.toList with
  | '-' :: _ :: _ => true
  | _ => false

def readWord (rules : List OptionRule) (word : String) : Except UsageFault (List GivenOption) :=
  match word.toList with
  | '-' :: '-' :: name => readName rules word name
  | '-' :: letter :: rest => readLetters rules word (letter :: rest)
  | _ => .error (.unexpectedArgument word)

def lacksValue (rules : List OptionRule) (given : GivenOption) : Bool :=
  given.value.isNone && rules.any fun rule => rule.name == given.name && rule.takesValue

/-- Read words from left to right.  `pending` is the name of an option that
takes the next word as its value. -/
def readWords (rules : List OptionRule) :
    Option String → List String → Except UsageFault (List GivenOption)
  | none, [] => .ok []
  | some name, [] => .error (.missingValue name)
  | some name, word :: words =>
      if isOption word then .error (.missingValue name)
      else do
        let others ← readWords rules none words
        return ⟨name, some word⟩ :: others
  | none, word :: words =>
      if word = "--" then
        match words with
        | [] => .ok []
        | argument :: _ => .error (.unexpectedArgument argument)
      else do
        let given ← readWord rules word
        match given.getLast? with
        | some last =>
            if lacksValue rules last then
              let others ← readWords rules (some last.name) words
              return given.dropLast ++ others
            else
              let others ← readWords rules none words
              return given ++ others
        | none => readWords rules none words

def firstRepeated : List GivenOption → Option String
  | [] => none
  | given :: rest =>
      if rest.any (·.name == given.name) then some given.name else firstRepeated rest

/-- The options of a command; each is given at most once. -/
def readOptions (rules : List OptionRule) (words : List String) :
    Except UsageFault (List GivenOption) := do
  let given ← readWords rules none words
  match firstRepeated given with
  | some name => throw (.repeatedOption name)
  | none => return given

def has (given : List GivenOption) (name : String) : Bool :=
  given.any (·.name == name)

def value? (given : List GivenOption) (name : String) : Option String :=
  (given.find? (·.name == name)).bind GivenOption.value

def required (given : List GivenOption) (name : String) : Except UsageFault String :=
  match value? given name with
  | some value => .ok value
  | none => .error (.missingOption name)

/-- A number of workers: digits, perhaps after a plus sign, of a number below
2^64. -/
def isNumber (text : String) : Bool :=
  let digits := match text.toList with
    | '+' :: digits => digits
    | digits => digits
  !digits.isEmpty && digits.all Char.isDigit && Nat.ofDigitChars 10 digits 0 < span 64

/-- The number of workers has no effect, but it has to be one. -/
def checkJobs (given : List GivenOption) : Except UsageFault Unit :=
  match value? given "jobs" with
  | some text => if isNumber text then .ok () else .error (.badNumber text)
  | none => .ok ()

end CommandLine

inductive Task where
  | lift (options : LiftOptions) (json : Bool)
  | graphs (directory : Option String)

/-- A command: its task, the file of the listing, and the pattern of the names
of the methods it is about. -/
structure Command where
  task : Task
  input : String
  filter : Option String

inductive CommandFault where
  | code (error : CodeError)
  | filter (text : String)
  deriving DecidableEq, Repr

def CommandFault.message : CommandFault → String
  | .code error => error.message
  | .filter text => "invalid pattern '" ++ text ++ "'"

namespace Command

open CommandLine

def ofOptions (rules : List OptionRule) (task : List GivenOption → Task) (words : List String) :
    Except UsageFault Command := do
  let given ← readOptions rules words
  checkJobs given
  let input ← required given "input"
  return ⟨task given, input, value? given "filter-method"⟩

def liftTask (given : List GivenOption) : Task :=
  .lift { strict := has given "strict", prune := !has given "keep-dead-code" } (has given "json")

def graphTask (given : List GivenOption) : Task :=
  .graphs (value? given "output")

def read : List String → Except UsageFault Command
  | [] => .error .missingCommand
  | "lift" :: words => ofOptions liftRules liftTask words
  | "cfg" :: words => ofOptions graphRules graphTask words
  | word :: _ => .error (if isOption word then .unknownOption word else .unknownCommand word)

/-- Which names a filter selects; without a filter all. -/
def selection : Option String → Except CommandFault (String → Bool)
  | none => .ok fun _ => true
  | some text =>
      match Pattern.read text with
      | some pattern => .ok pattern.occursIn
      | none => .error (.filter text)

def taskReport (listing : Listing) (select : String → Bool) : Task → Except CodeError Report
  | .lift options json =>
      let lifted := listing.lift select options
      if json then .ok (Report.ofLiftedJson lifted) else Report.ofLifted listing.pool lifted
  | .graphs directory => Report.ofGraphs listing select directory

def report (command : Command) (text : String) : Except CommandFault Report := do
  let listing ← (Listing.read text).mapError CommandFault.code
  let select ← selection command.filter
  (taskReport listing select command.task).mapError CommandFault.code

end Command

end Dalvik
