import Dalvik.Listing.Number
import Dalvik.Text.Alphanumeric
import Dalvik.Text.Blank

/-!
# Lexical rules of a listing

The operands of a line: registers, register lists and ranges, labels, string
and numeric literals, and descriptors.  Each rule takes its text from the
front and returns what is left.
-/

namespace Dalvik.Listing

/-- A register by its number, or by its place among the arguments. -/
structure RegName where
  isParameter : Bool
  number : Nat
  deriving DecidableEq, Repr

inductive Token where
  | reg (name : RegName)
  | regs (names : List RegName)
  | range (first last : RegName)
  | label (name : String)
  | literal (literal : Literal)
  | string (text : String)
  | descriptor (text : List Char)
  deriving DecidableEq, Repr

/-- A rule that takes a value from the front of a text. -/
abbrev Rule (α : Type) := List Char → Option (α × List Char)

namespace Rule

variable {α β : Type}

def map (f : α → β) (rule : Rule α) : Rule β := fun text =>
  (rule text).map fun (value, rest) => (f value, rest)

def or (first second : Rule α) : Rule α := fun text =>
  (first text).or (second text)

def all (rule : Rule α) (text : List Char) : Option α :=
  match rule text with
  | some (value, []) => some value
  | _ => none

end Rule

def skipSpaces (text : List Char) : List Char :=
  text.dropWhile fun c => c == ' ' || c == '\t'

def expect (word text : List Char) : Option (List Char) :=
  if word.isPrefixOf text then some (text.drop word.length) else none

def takeRun (member : Char → Bool) : Rule (List Char) := fun text =>
  let run := text.takeWhile member
  if run.isEmpty then none else some (run, text.dropWhile member)

/-- Two values with a mark between them, which spaces may surround. -/
def takePair {α β : Type} (first : Rule α) (mark : List Char) (second : Rule β) :
    Rule (α × β) := fun text => do
  let (left, text) ← first text
  let text ← expect mark (skipSpaces text)
  let (right, text) ← second (skipSpaces text)
  return ((left, right), text)

/-- Further values, each after a separator; a separator without a value after
it is left.  `fuel` bounds their number. -/
def takeMore {α : Type} (separator : List Char → Option (List Char)) (item : Rule α) :
    Nat → List Char → List α × List Char
  | 0, text => ([], text)
  | fuel + 1, text =>
      match (separator text).bind item with
      | some (value, rest) =>
          let (values, rest) := takeMore separator item fuel rest
          (value :: values, rest)
      | none => ([], text)

def takeSeparated {α : Type} (separator : List Char → Option (List Char)) (item : Rule α)
    (text : List Char) : List α × List Char :=
  match item text with
  | some (value, rest) =>
      let (values, rest) := takeMore separator item rest.length rest
      (value :: values, rest)
  | none => ([], text)

def comma (text : List Char) : Option (List Char) :=
  (expect [','] (skipSpaces text)).map skipSpaces

def blanks (text : List Char) : Option (List Char) :=
  match text with
  | ' ' :: rest | '\t' :: rest => some (skipSpaces rest)
  | _ => none

def takeRegister : Rule RegName
  | c :: rest =>
      if c = 'v' ∨ c = 'p' then do
        let (digits, rest) ← takeRun Char.isDigit rest
        let number ← readUnsigned 10 65536 digits
        return (⟨c = 'p', number⟩, rest)
      else none
  | [] => none

def takeListBody : Rule Token := fun text =>
  match takePair takeRegister ['.', '.'] takeRegister text with
  | some ((first, last), rest) => some (.range first last, rest)
  | none =>
      let (names, rest) := takeSeparated comma takeRegister text
      some (.regs names, rest)

def takeBraced {α : Type} (body : Rule α) : Rule α := fun text => do
  let text ← expect ['\x7b'] text
  let (value, text) ← body (skipSpaces text)
  let text ← expect ['\x7d'] (skipSpaces text)
  return (value, text)

def isLabelChar (c : Char) : Bool :=
  Text.isAlphanumeric c || c == '_' || c == '$'

def takeLabel : Rule String
  | ':' :: rest => (takeRun isLabelChar rest).map fun (name, rest) => (String.ofList name, rest)
  | _ => none

def isNumberChar (c : Char) : Bool :=
  c.isAlphanum || c == '-' || c == '+' || c == '.'

def startsNumber : List Char → Bool
  | c :: _ => c == '-' || c.isDigit || c == 'I' || c == 'N'
  | [] => false

def takeNumber : Rule Literal := fun text => do
  let (run, rest) ← takeRun isNumberChar text
  if startsNumber run then
    let literal ← readLiteral run
    return (literal, rest)
  else none

def escaped? : Char → Option Char
  | 'n' => some '\n'
  | 't' => some '\t'
  | 'r' => some '\r'
  | 'b' => some '\x08'
  | 'f' => some '\x0c'
  | '0' => some '\x00'
  | '"' => some '"'
  | '\'' => some '\''
  | '\\' => some '\\'
  | _ => none

/-- The character of a code point; surrogates have none. -/
def charOfCode? (code : Nat) : Option Char :=
  if h : code.isValidChar then some (Char.ofNatAux code h) else none

def takeStringBody : Rule (List Char)
  | [] => none
  | '"' :: rest => some ([], rest)
  | '\\' :: 'u' :: a :: b :: c :: d :: rest => do
      let code ← readUnsigned 16 65536 [a, b, c, d]
      let char ← charOfCode? code
      let (chars, rest) ← takeStringBody rest
      return (char :: chars, rest)
  | '\\' :: c :: rest => do
      let char ← escaped? c
      let (chars, rest) ← takeStringBody rest
      return (char :: chars, rest)
  | '\\' :: [] => none
  | c :: rest => do
      let (chars, rest) ← takeStringBody rest
      return (c :: chars, rest)

def takeString : Rule String
  | '"' :: rest => (takeStringBody rest).map fun (chars, rest) => (String.ofList chars, rest)
  | _ => none

def isDescriptorChar (c : Char) : Bool :=
  !(Text.isBlank c || c == ',' || c == '\x7b' || c == '\x7d')

def takeDescriptor : Rule (List Char) :=
  takeRun isDescriptorChar

/-- A register that no further descriptor character follows. -/
def takeLoneRegister : Rule RegName := fun text =>
  match takeRegister text with
  | some (name, rest) => if (takeDescriptor rest).isSome then none else some (name, rest)
  | none => none

def takeOperand : Rule Token :=
  (takeBraced takeListBody).or <|
  (takeLoneRegister.map .reg).or <|
  (Rule.map .label takeLabel).or <|
  (Rule.map .string takeString).or <|
  (Rule.map .literal takeNumber).or <|
  Rule.map .descriptor takeDescriptor

def isMnemonicChar (c : Char) : Bool :=
  c.isAlphanum || c == '-' || c == '/'

def takeInstruction : Rule (List Char × List Token) := fun text => do
  let (mnemonic, rest) ← takeRun isMnemonicChar text
  match blanks rest with
  | none => return ((mnemonic, []), rest)
  | some operands =>
      let (tokens, rest) := takeSeparated comma takeOperand operands
      return ((mnemonic, tokens), skipSpaces rest)

structure CatchLine where
  exception : Option (List Char)
  start : String
  stop : String
  handler : String
  deriving DecidableEq, Repr

def takeCatchHead : Rule (Option (List Char)) := fun text =>
  let typed := do
    let rest ← expect ".catch".toList text
    let rest ← blanks rest
    let (exception, rest) ← takeDescriptor rest
    return (some exception, rest)
  typed.or ((expect ".catchall".toList text).map fun rest => (none, rest))

def takeCatch : Rule CatchLine := fun text => do
  let (exception, rest) ← takeCatchHead text
  let ((start, stop), rest) ←
    takeBraced (takePair takeLabel ['.', '.'] takeLabel) (skipSpaces rest)
  let (handler, rest) ← takeLabel (skipSpaces rest)
  return (⟨exception, start, stop, handler⟩, rest)

/-- A key and a label, the entry of a sparse switch table. -/
def takeCase : Rule (Literal × String) :=
  takePair takeNumber ['-', '>'] takeLabel

def takeElements : Rule (List Literal) := fun text =>
  match takeSeparated blanks takeNumber text with
  | ([], _) => none
  | (literals, rest) => some (literals, rest)

/-- A line without the comment at its end.  A comment starts at a `#` outside
of quotes. -/
def stripCommentFrom : Bool → Bool → List Char → List Char
  | _, _, [] => []
  | quoted, true, c :: rest => c :: stripCommentFrom quoted false rest
  | quoted, false, c :: rest =>
      if c = '\\' ∧ quoted then c :: stripCommentFrom quoted true rest
      else if c = '"' then c :: stripCommentFrom (!quoted) false rest
      else if c = '#' ∧ !quoted then []
      else c :: stripCommentFrom quoted false rest

def stripComment (line : List Char) : List Char :=
  stripCommentFrom false false line

/-- The lines of a text; each ends at a line feed, with the carriage return
before it if there is one. -/
def lines : List Char → List (List Char)
  | [] => []
  | '\n' :: rest => [] :: lines rest
  | '\r' :: '\n' :: rest => [] :: lines rest
  | c :: rest =>
      match rest, lines rest with
      | [], _ => [[c]]
      | _, [] => [[c]]
      | _, line :: others => (c :: line) :: others

end Dalvik.Listing
