/-!
# Text patterns

Regular expressions, matched by derivatives: after a first symbol, a text
matches if its rest matches the derivative by that symbol.  The two ends of a
text are symbols too, so that patterns can refer to them.
-/

namespace Dalvik

/-- A character of a text, or one of its ends. -/
inductive Symbol where
  | start
  | char (c : Char)
  | stop
  deriving DecidableEq, Repr

/-- The characters in some ranges, or all others. -/
structure CharClass where
  ranges : List (Char × Char)
  negated : Bool := false
  deriving DecidableEq, Repr

def CharClass.contains (chars : CharClass) (c : Char) : Bool :=
  (chars.ranges.any fun range => range.1 ≤ c && c ≤ range.2) != chars.negated

inductive SymbolTest where
  | any
  | start
  | stop
  | chars (allowed : CharClass)
  deriving DecidableEq, Repr

def SymbolTest.accepts : SymbolTest → Symbol → Bool
  | .any, _ => true
  | .start, symbol => symbol == .start
  | .stop, symbol => symbol == .stop
  | .chars allowed, .char c => allowed.contains c
  | .chars _, _ => false

inductive Pattern where
  | never
  | nothing
  | one (test : SymbolTest)
  | sequence (first second : Pattern)
  | choice (first second : Pattern)
  | many (inner : Pattern)
  deriving DecidableEq, Repr

namespace Pattern

def char (c : Char) : Pattern := .one (.chars { ranges := [(c, c)] })

def anyChar : Pattern := .one (.chars { ranges := [('\n', '\n')], negated := true })

def matchesNothing : Pattern → Bool
  | .never | .one _ => false
  | .nothing | .many _ => true
  | .sequence first second => first.matchesNothing && second.matchesNothing
  | .choice first second => first.matchesNothing || second.matchesNothing

/-- One pattern after another, in short form. -/
def followedBy : Pattern → Pattern → Pattern
  | .never, _ => .never
  | _, .never => .never
  | .nothing, second => second
  | first, second => .sequence first second

/-- Either of two patterns, in short form. -/
def orElse : Pattern → Pattern → Pattern
  | .never, second => second
  | first, .never => first
  | first, second => if first = second then first else .choice first second

/-- What has to match after a symbol. -/
def derivative (symbol : Symbol) : Pattern → Pattern
  | .never | .nothing => .never
  | .one test => if test.accepts symbol then .nothing else .never
  | .sequence first second =>
      let rest := (first.derivative symbol).followedBy second
      if first.matchesNothing then rest.orElse (second.derivative symbol) else rest
  | .choice first second => (first.derivative symbol).orElse (second.derivative symbol)
  | .many inner => (inner.derivative symbol).followedBy (.many inner)

def matchesAll (pattern : Pattern) (symbols : List Symbol) : Bool :=
  (symbols.foldl (fun rest symbol => rest.derivative symbol) pattern).matchesNothing

def occursIn (pattern : Pattern) (text : String) : Bool :=
  let anything := Pattern.many (.one .any)
  matchesAll (.sequence anything (.sequence pattern anything))
    (.start :: text.toList.map .char ++ [.stop])

end Pattern

end Dalvik
