import Dalvik.Reaching.Solve

/-!
# Provisional values

There is one value for each definition and one for each read that no
definition reaches.  The values of a register are numbered in the order in
which they come up.
-/

namespace Dalvik

/-- A value of a register; `site` is missing for reads without a definition. -/
structure ProvisionalValue where
  reg : Reg
  generation : Nat
  site : Option Site
  width : Width
  deriving DecidableEq, Repr

def ProvisionalValue.isOf (value : ProvisionalValue) (site : Site) (reg : Reg) : Bool :=
  value.site == some site && value.reg == reg

theorem ProvisionalValue.isOf_iff {value : ProvisionalValue} {site : Site} {reg : Reg} :
    value.isOf site reg = true ↔ value.site = some site ∧ value.reg = reg := by
  simp [isOf]

/-- The values so far; a value's number is its position.  Beside them are the number of the
value of each definition, and how many values each register has. -/
structure ValueFile where
  values : List ProvisionalValue := []
  numbers : List ((Site × Reg) × Nat) := []
  counts : List (Reg × Nat) := []
  numbered : ∀ site reg, numbers.lookup (site, reg) = values.findIdx? (·.isOf site reg) := by
    exact fun _ _ => rfl
  counted : ∀ reg, (counts.lookup reg).getD 0 = values.countP (·.reg == reg) := by
    exact fun _ => rfl
  deriving DecidableEq, Repr

namespace ValueFile

def empty : ValueFile := {}

def size (file : ValueFile) : Nat :=
  file.values.length

def get? (file : ValueFile) (value : Nat) : Option ProvisionalValue :=
  file.values[value]?

def generations (file : ValueFile) (reg : Reg) : Nat :=
  (file.counts.lookup reg).getD 0

def definedAt? (file : ValueFile) (site : Site) (reg : Reg) : Option Nat :=
  file.numbers.lookup (site, reg)

theorem definedAt?_eq_findIdx? (file : ValueFile) (site : Site) (reg : Reg) :
    file.definedAt? site reg = file.values.findIdx? (·.isOf site reg) :=
  file.numbered site reg

theorem generations_eq_countP (file : ValueFile) (reg : Reg) :
    file.generations reg = file.values.countP (·.reg == reg) :=
  file.counted reg

theorem numbered_append (file : ValueFile) (value : ProvisionalValue) (site : Site) (reg : Reg) :
    (file.numbers ++ value.site.toList.map fun site => ((site, value.reg), file.size)).lookup
        (site, reg) =
      (file.values ++ [value]).findIdx? (·.isOf site reg) := by
  rw [List.lookup_append, file.numbered, List.findIdx?_append]
  congr 1
  obtain ⟨register, generation, origin, width⟩ := value
  cases origin with
  | none => simp [ProvisionalValue.isOf]
  | some origin =>
      simp only [Option.toList_some, List.map_cons, List.map_nil, List.findIdx?_singleton,
        ProvisionalValue.isOf, size]
      grind

theorem counted_append (file : ValueFile) (value : ProvisionalValue) (reg : Reg) :
    (((value.reg, file.generations value.reg + 1) :: file.counts).lookup reg).getD 0 =
      (file.values ++ [value]).countP (·.reg == reg) := by
  rw [List.countP_append, List.countP_singleton, ← file.counted, List.lookup_cons]
  by_cases same : reg = value.reg
  · simp [same, generations]
  · have other : (reg == value.reg) = false := beq_false_of_ne same
    simp [other, Ne.symm same]

def add (file : ValueFile) (reg : Reg) (site : Option Site) (width : Width) : ValueFile × Nat :=
  let value := ⟨reg, file.generations reg, site, width⟩
  ({ values := file.values ++ [value]
     numbers := file.numbers ++ site.toList.map fun site => ((site, reg), file.size)
     counts := (reg, file.generations reg + 1) :: file.counts
     numbered := file.numbered_append value
     counted := file.counted_append value },
   file.size)

/-- The value that a site puts into a register, which is added if it is new. -/
def define (file : ValueFile) (site : Site) (reg : Reg) (width : Width) : ValueFile × Nat :=
  match file.definedAt? site reg with
  | some value => (file, value)
  | none => file.add reg (some site) width

def defineAll (width : Width) : ValueFile → List Def → ValueFile × List Nat
  | file, [] => (file, [])
  | file, d :: rest =>
      let (file, value) := file.define d.site d.reg width
      let (file, values) := defineAll width file rest
      (file, value :: values)

/-- A value that is read, and the values of the other definitions that reach
the read. -/
structure Resolved where
  value : Nat
  aliases : List Nat
  deriving DecidableEq, Repr

/-- The values of a register that the instruction at an address reads. -/
def resolve (file : ValueFile) (states : Dataflow) (reg : Reg) (addr : Addr) (width : Width) :
    ValueFile × Resolved :=
  let defs := ((states.entryAt addr).map fun state => state.readable reg width).getD []
  match file.defineAll width defs with
  | (file, value :: aliases) => (file, ⟨value, aliases⟩)
  | (file, []) =>
      let (file, value) := file.add reg none width
      (file, ⟨value, []⟩)

end ValueFile

end Dalvik
