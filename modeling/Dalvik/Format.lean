/-!
# Instruction formats

A format is the layout of an instruction in code units.  Its first digit is
the size in code units, the second the number of registers, and the letter the
further operand: none (`x`), a literal (`n`, `s`, `h`, `b`, `i`, `l`), a branch
offset (`t`), a constant pool reference (`c`), or a register range and a
reference (`rc`).
-/

namespace Dalvik

inductive Format where
  | f10x | f12x | f11n | f11x | f10t
  | f20t | f22x | f21t | f21s | f21h | f21c | f23x | f22b | f22t | f22s | f22c
  | f32x | f30t | f31t | f31i | f31c | f35c | f3rc
  | f51l
  deriving DecidableEq, Repr

inductive RegisterCount where
  | exactly (count : Nat)
  | upTo (count : Nat)
  | any
  deriving DecidableEq, Repr

namespace RegisterCount

def accepts : RegisterCount → Nat → Bool
  | .exactly expected, count => count == expected
  | .upTo limit, count => count ≤ limit
  | .any, _ => true

def text : RegisterCount → String
  | .exactly count => toString count
  | .upTo count => "at most " ++ toString count
  | .any => "any number of"

end RegisterCount

structure Shape where
  registers : RegisterCount
  literal : Bool := false
  offset : Bool := false
  reference : Bool := false
  payload : Bool := false
  deriving DecidableEq, Repr

namespace Format

def all : List Format :=
  [.f10x, .f12x, .f11n, .f11x, .f10t, .f20t, .f22x, .f21t, .f21s, .f21h, .f21c, .f23x, .f22b,
    .f22t, .f22s, .f22c, .f32x, .f30t, .f31t, .f31i, .f31c, .f35c, .f3rc, .f51l]

def size : Format → Nat
  | .f10x | .f12x | .f11n | .f11x | .f10t => 1
  | .f20t | .f22x | .f21t | .f21s | .f21h | .f21c | .f23x | .f22b | .f22t | .f22s | .f22c => 2
  | .f32x | .f30t | .f31t | .f31i | .f31c | .f35c | .f3rc => 3
  | .f51l => 5

def shape : Format → Shape
  | .f10x => { registers := .exactly 0 }
  | .f12x | .f22x | .f32x => { registers := .exactly 2 }
  | .f11n | .f21s | .f21h | .f31i | .f51l => { registers := .exactly 1, literal := true }
  | .f11x => { registers := .exactly 1 }
  | .f10t | .f20t | .f30t => { registers := .exactly 0, offset := true }
  | .f21t => { registers := .exactly 1, offset := true }
  | .f21c | .f31c => { registers := .exactly 1, reference := true }
  | .f23x => { registers := .exactly 3 }
  | .f22b | .f22s => { registers := .exactly 2, literal := true }
  | .f22t => { registers := .exactly 2, offset := true }
  | .f22c => { registers := .exactly 2, reference := true }
  | .f31t => { registers := .exactly 1, offset := true, payload := true }
  | .f35c => { registers := .upTo 5, reference := true }
  | .f3rc => { registers := .any, reference := true }

def text : Format → String
  | .f10x => "10x"
  | .f12x => "12x"
  | .f11n => "11n"
  | .f11x => "11x"
  | .f10t => "10t"
  | .f20t => "20t"
  | .f22x => "22x"
  | .f21t => "21t"
  | .f21s => "21s"
  | .f21h => "21h"
  | .f21c => "21c"
  | .f23x => "23x"
  | .f22b => "22b"
  | .f22t => "22t"
  | .f22s => "22s"
  | .f22c => "22c"
  | .f32x => "32x"
  | .f30t => "30t"
  | .f31t => "31t"
  | .f31i => "31i"
  | .f31c => "31c"
  | .f35c => "35c"
  | .f3rc => "3rc"
  | .f51l => "51l"

def ofText? (text : String) : Option Format :=
  all.find? (·.text == text)

end Format

end Dalvik
