import Dalvik.Power

/-!
# Registers

A frame has up to 65536 registers of 32 bits.  A wide value takes a register
and the one after it.
-/

namespace Dalvik

structure Reg where
  index : Fin 65536
  deriving DecidableEq, Repr

namespace Reg

/-- The register of a number, taken modulo the number of registers. -/
def ofNat (number : Nat) : Reg :=
  ⟨Fin.ofNat 65536 number⟩

def number (reg : Reg) : Nat :=
  reg.index.val

/-- The following register; the last one follows itself. -/
def next (reg : Reg) : Reg :=
  if reg.number = 65535 then reg else ofNat (reg.number + 1)

def fits (reg : Reg) (bits : Nat) : Bool :=
  16 ≤ bits || reg.number < span bits

def text (reg : Reg) : String :=
  "v" ++ toString reg.number

end Reg

inductive Width where
  | narrow
  | wide
  deriving DecidableEq, Repr

namespace Width

def slots : Width → Nat
  | .narrow => 1
  | .wide => 2

def text : Width → String
  | .narrow => "narrow"
  | .wide => "wide"

def ofText? : String → Option Width
  | "narrow" => some .narrow
  | "wide" => some .wide
  | _ => none

end Width

end Dalvik
