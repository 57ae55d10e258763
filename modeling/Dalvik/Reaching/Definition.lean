import Dalvik.Instruction
import Dalvik.SortedSet

/-!
# Definitions

A definition is a value put into a register by an instruction or by the
caller.  A wide definition has a low half in its register and a high half in
the next one.
-/

namespace Dalvik

inductive Site where
  | param
  | at (addr : Addr)
  deriving DecidableEq, Repr

namespace Site

/-- Arguments come before all instructions. -/
def key : Site → Nat
  | .param => 0
  | .at addr => addr + 1

theorem key_injective {first second : Site} (same : first.key = second.key) : first = second := by
  cases first <;> cases second <;> simp_all [key]

def text : Site → String
  | .param => "param"
  | .at addr => "@" ++ addr.text

end Site

/-- The part of a definition that one register holds. -/
inductive Half where
  | narrow
  | low
  | high
  deriving DecidableEq, Repr

namespace Half

def key : Half → Nat
  | .narrow => 0
  | .low => 1
  | .high => 2

theorem key_lt (half : Half) : half.key < 3 := by
  cases half <;> decide

theorem key_injective {first second : Half} (same : first.key = second.key) : first = second := by
  cases first <;> cases second <;> simp_all [key]

def text : Half → String
  | .narrow => ""
  | .low => "(lo)"
  | .high => "(hi)"

end Half

/-- A definition as one register holds it; `reg` is the first register that was
written. -/
structure Def where
  site : Site
  reg : Reg
  half : Half
  deriving DecidableEq, Repr

namespace Def

/-- Definitions are ordered by site, then register, then half. -/
def key (d : Def) : Nat :=
  (d.site.key * 65536 + d.reg.number) * 3 + d.half.key

theorem key_injective {first second : Def} (same : first.key = second.key) : first = second := by
  obtain ⟨site, reg, half⟩ := first
  obtain ⟨site', reg', half'⟩ := second
  simp only [key] at same
  have halfLt := half.key_lt
  have halfLt' := half'.key_lt
  have regLt : reg.number < 65536 := reg.index.isLt
  have regLt' : reg'.number < 65536 := reg'.index.isLt
  have sites : site = site' := Site.key_injective (by omega)
  have halves : half = half' := Half.key_injective (by omega)
  have numbers : reg.number = reg'.number := by omega
  have regs : reg = reg' := by
    cases reg
    cases reg'
    exact congrArg Reg.mk (Fin.ext numbers)
  rw [sites, regs, halves]

instance : Keyed Def := ⟨key, key_injective⟩

def text (d : Def) : String :=
  d.site.text ++ d.half.text

end Def

structure RegisterFrame where
  registers : Nat
  params : List (Reg × Width)
  deriving DecidableEq, Repr

/-- The width of the value that opcodes of a family define, if they define one.
Calls define nothing: a `move-result` defines their result. -/
def definedWidth (opcode : Opcode) : Option Width :=
  let ofKind := fun kind : Option OperandKind =>
    if (kind.map OperandKind.isWide).getD false then Width.wide else Width.narrow
  match opcode.family with
  | .move | .moveResult | .const | .aget | .iget | .sget | .neg | .not | .binop | .binop2addr
  | .binopLit => some (ofKind opcode.kind)
  | .convert => some (ofKind opcode.targetKind)
  | .moveException | .constString | .constClass | .checkCast | .instanceOf | .arrayLength
  | .newInstance | .newArray | .cmp => some .narrow
  | .nop | .returnVoid | .returnValue | .monitorEnter | .monitorExit | .filledNewArray
  | .fillArrayData | .throw | .goto | .switch | .branch | .branchZero | .aput | .iput | .sput
  | .invoke => none

def Instruction.definition (instruction : Instruction) : Option (Reg × Width) := do
  let opcode ← instruction.opcode
  let dest ← instruction.regs.head?
  let width ← definedWidth opcode
  return (dest, width)

end Dalvik
