import Dalvik.Text.Pattern

/-!
# Reading patterns

A character stands for itself, unless it has a meaning: `.` is any character,
`^` and `$` are the ends of the text, brackets hold a class of characters,
parentheses group, `|` separates alternatives, and `*`, `+` and `?` repeat.  A
backslash takes the meaning from the punctuation mark after it.  Named classes
and counted repetition are refused.
-/

namespace Dalvik

namespace Pattern

def isEscapable (c : Char) : Bool :=
  0x20 ≤ c.toNat && c.toNat < 0x7f && !c.isAlphanum && c != '<' && c != '>'

def readRanges : List Char → Option (List (Char × Char) × List Char)
  | [] => none
  | ']' :: rest => some ([], rest)
  | '[' :: _ | '\\' :: _ => none
  | first :: '-' :: ']' :: rest => some ([(first, first), ('-', '-')], rest)
  | first :: '-' :: last :: rest =>
      if first ≤ last then
        (readRanges rest).map fun (ranges, rest) => ((first, last) :: ranges, rest)
      else none
  | first :: rest => (readRanges rest).map fun (ranges, rest) => ((first, first) :: ranges, rest)

/-- A class after its opening bracket; a closing bracket at its start belongs
to it. -/
def readClass (negated : Bool) : List Char → Option (Pattern × List Char)
  | ']' :: rest =>
      (readRanges rest).map fun (ranges, rest) =>
        (.one (.chars { ranges := (']', ']') :: ranges, negated }), rest)
  | rest =>
      (readRanges rest).map fun (ranges, rest) => (.one (.chars { ranges, negated }), rest)

/-- The text after a `?` that asks for the shortest match; it changes nothing
about whether there is a match. -/
def skipLazy : List Char → List Char
  | '?' :: rest => rest
  | rest => rest

def repeated (pattern : Pattern) : Char → Option Pattern
  | '*' => some (.many pattern)
  | '+' => some (.sequence pattern (.many pattern))
  | '?' => some (.choice pattern .nothing)
  | _ => none

/-- A pattern with the repetitions that follow it; `fuel` bounds their number. -/
def readRepeats : Nat → Pattern → List Char → Pattern × List Char
  | fuel + 1, pattern, mark :: rest =>
      match repeated pattern mark with
      | some pattern => readRepeats fuel pattern (skipLazy rest)
      | none => (pattern, mark :: rest)
  | _, pattern, rest => (pattern, rest)

mutual

/-- Alternatives; `fuel` bounds the depth of reading. -/
def readChoice : Nat → List Char → Option (Pattern × List Char)
  | 0, _ => none
  | fuel + 1, chars => do
      let (first, rest) ← readSequence fuel chars
      match rest with
      | '|' :: rest => do
          let (second, rest) ← readChoice fuel rest
          return (.choice first second, rest)
      | _ => return (first, rest)

/-- Patterns that follow one another, up to a closing parenthesis, the next
alternative or the end. -/
def readSequence : Nat → List Char → Option (Pattern × List Char)
  | 0, _ => none
  | fuel + 1, chars =>
      match chars with
      | [] | ')' :: _ | '|' :: _ => some (.nothing, chars)
      | _ => do
          let (item, rest) ← readItem fuel chars
          let (first, rest) := readRepeats rest.length item rest
          let (second, rest) ← readSequence fuel rest
          return (.sequence first second, rest)

def readItem : Nat → List Char → Option (Pattern × List Char)
  | 0, _ => none
  | fuel + 1, chars =>
      match chars with
      | '(' :: '?' :: ':' :: rest | '(' :: rest => do
          let (inner, rest) ← readChoice fuel rest
          match rest with
          | ')' :: rest => return (inner, rest)
          | _ => none
      | '[' :: '^' :: rest => readClass true rest
      | '[' :: rest => readClass false rest
      | '.' :: rest => some (anyChar, rest)
      | '^' :: rest => some (.one .start, rest)
      | '$' :: rest => some (.one .stop, rest)
      | '\\' :: c :: rest => if isEscapable c then some (char c, rest) else none
      | '\\' :: [] | '*' :: _ | '+' :: _ | '?' :: _ | '\x7b' :: _ | [] => none
      | c :: rest => some (char c, rest)

end

def read (text : String) : Option Pattern :=
  match readChoice (3 * text.length + 3) text.toList with
  | some (pattern, []) => some pattern
  | _ => none

end Pattern

end Dalvik
