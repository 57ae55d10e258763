import Dalvik.Reaching.Definition

/-!
# Reaching definitions at one point

For each register of the frame, the definitions that may have put its value
there.  Writing a register ends what was there; a wide value of which one half
is overwritten is lost as a whole.
-/

namespace Dalvik

/-- The definitions that reach a point, for each register. -/
structure Reaching where
  regs : List (SortedSet Def)
  deriving DecidableEq

namespace Reaching

def empty (registers : Nat) : Reaching :=
  ⟨List.replicate registers .empty⟩

def at? (state : Reaching) (number : Nat) : Option (SortedSet Def) :=
  state.regs[number]?

/-- The definitions whose value can be read from a register: narrow ones, or
wide ones of which both halves are in place. -/
def readable (state : Reaching) (reg : Reg) (width : Width) : List Def :=
  match state.at? reg.number with
  | none => []
  | some defs =>
      match width with
      | .narrow => defs.elements.filter (·.half == .narrow)
      | .wide =>
          match state.at? (reg.number + 1) with
          | none => []
          | some next =>
              defs.elements.filter fun d => d.half == .low && next.contains { d with half := .high }

def isUndefined (state : Reaching) (reg : Reg) : Bool :=
  (state.at? reg.number).elim true SortedSet.isEmpty

def drop (half : Half) (number : Nat) (regs : List (SortedSet Def)) : List (SortedSet Def) :=
  regs.modify number fun defs => defs.filter (·.half != half)

/-- The state after a value is written; a write past the frame has no effect. -/
def write (state : Reaching) (site : Site) (reg : Reg) (width : Width) : Reaching :=
  let number := reg.number
  if state.regs.length < number + width.slots then state
  else
    let regs := if number = 0 then state.regs else drop .low (number - 1) state.regs
    let regs := drop .high (number + width.slots) regs
    match width with
    | .narrow => ⟨regs.set number (.singleton ⟨site, reg, .narrow⟩)⟩
    | .wide =>
        ⟨(regs.set number (.singleton ⟨site, reg, .low⟩)).set (number + 1)
          (.singleton ⟨site, reg, .high⟩)⟩

def init (frame : RegisterFrame) : Reaching :=
  frame.params.foldl (fun state param => state.write .param param.1 param.2)
    (empty frame.registers)

def joinRegs : List (SortedSet Def) → List (SortedSet Def) → List (SortedSet Def)
  | [], second => second
  | first, [] => first
  | defs :: first, others :: second => defs.union others :: joinRegs first second

def join (first second : Reaching) : Reaching :=
  ⟨joinRegs first.regs second.regs⟩

def transfer (state : Reaching) (instruction : Instruction) : Reaching :=
  match instruction.definition with
  | some (reg, width) => state.write (.at instruction.addr) reg width
  | none => state

def lines : Nat → List (SortedSet Def) → List String
  | _, [] => []
  | number, defs :: rest =>
      if defs.isEmpty then lines (number + 1) rest
      else
        ("v" ++ toString number ++ ":" ++ String.join (defs.elements.map (" " ++ ·.text)))
          :: lines (number + 1) rest

def text (state : Reaching) : String :=
  "\n".intercalate (lines 0 state.regs)

end Reaching

end Dalvik
