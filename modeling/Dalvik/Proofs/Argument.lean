import Dalvik.Argument
import Dalvik.Proofs.Register
import Dalvik.Proofs.Success
import Mathlib.Data.List.Nodup

/-!
# Where arguments are

The arguments of a method are in registers of their own, one after another and inside
the frame, and no two of them have the same source.
-/

namespace Dalvik

/-- A register that a frame has, some registers later. -/
theorem Reg.number_advance {reg : Reg} {slots : Nat} (inside : reg.number + slots < 65536) :
    (reg.advance slots).number = reg.number + slots := by
  rw [advance, number_ofNat, Nat.mod_eq_of_lt] <;> omega

namespace Argument

/-- Whether one argument comes before another. -/
structure Precedes (first second : Argument) : Prop where
  regs : first.reg.number + first.width.slots ≤ second.reg.number
  sources : first.source ≠ second.source

theorem slots_pos (width : Width) : 0 < width.slots := by
  cases width <;> decide

/-- The arguments of parameters for which there is room follow one another from a register
on, which is the given one unless it is past the last register. -/
theorem ofParams_spec {types : List Descriptor} {start limit : Nat} {reg : Reg} {index : Nat}
    (small : limit ≤ 65536) (isStart : start < 65536 → reg.number = start)
    (room : start + types.foldr (fun type slots => type.slots + slots) 0 ≤ limit) :
    (∀ argument ∈ ofParams reg index types, start ≤ argument.reg.number ∧
      argument.reg.number + argument.width.slots ≤ limit ∧
      ∃ number type, argument.source = .parameter number type ∧ index ≤ number) ∧
    (ofParams reg index types).Pairwise Precedes := by
  induction types generalizing start reg index with
  | nil => simp [ofParams]
  | cons type types ih =>
      rw [List.foldr_cons] at room
      rw [ofParams]
      split
      · rename_i width kind isWidth isKind
        have taken : type.slots = width.slots := by rw [Descriptor.slots, isWidth, Option.elim_some]
        rw [taken] at room
        have positive := slots_pos width
        have here : reg.number = start := isStart (by omega)
        have next : start + width.slots < 65536 →
            (reg.advance width.slots).number = start + width.slots := by
          intro inside
          rw [Reg.number_advance (by omega), here]
        obtain ⟨places, ordered⟩ := @ih (start + width.slots) _ (index + 1) next (by omega)
        have inside : reg.number + width.slots ≤ limit := by omega
        constructor
        · refine List.forall_mem_cons.mpr ⟨⟨Nat.le_of_eq here.symm, inside, index, type, rfl,
            Nat.le_refl _⟩, fun argument member => ?_⟩
          obtain ⟨after, inside, number, type', source, later⟩ := places argument member
          exact ⟨by omega, inside, number, type', source, by omega⟩
        · refine List.pairwise_cons.mpr ⟨fun argument member => ?_, ordered⟩
          obtain ⟨after, -, number, type', source, later⟩ := places argument member
          refine ⟨here ▸ after, ?_⟩
          rw [source]
          simp only [ne_eq, IdentitySource.parameter.injEq, not_and]
          omega
      · obtain ⟨places, ordered⟩ := @ih start reg (index + 1) isStart (by omega)
        refine ⟨fun argument member => ?_, ordered⟩
        obtain ⟨after, inside, number, type', source, later⟩ := places argument member
        exact ⟨after, inside, number, type', source, by omega⟩

theorem firstArgument_eq_ok {code : Code} {pool : Pool} {method : MethodRef} {first : Reg}
    (known : pool.method code.method = .ok method) (success : code.firstArgument pool = .ok first) :
    ∃ start, (start < 65536 → first.number = start) ∧
      start + (method.prototype.slots + if code.isStatic then 0 else 1) = code.registers := by
  simp only [Code.firstArgument, Code.argumentSlots, known, bind_eq_ok, pure_eq_ok] at success
  obtain ⟨slots, ⟨_, ⟨⟩, rfl⟩, fits⟩ := success
  generalize (method.prototype.slots + if code.isStatic then 0 else 1) = slots at fits ⊢
  split at fits
  · cases fits
  · rename_i enough
    rw [← pure_eq_ok.mp fits]
    exact ⟨code.registers - slots, fun inFile => Nat.mod_eq_of_lt inFile, by omega⟩

/-- The arguments of a method follow one another inside the frame. -/
theorem ofCode_spec {code : Code} {pool : Pool} {arguments : List Argument}
    (success : ofCode code pool = .ok arguments) (small : code.registers ≤ 65536) :
    (∀ argument ∈ arguments, argument.reg.number + argument.width.slots ≤ code.registers) ∧
      arguments.Pairwise Precedes := by
  simp only [ofCode, bind_eq_ok, pure_eq_ok] at success
  obtain ⟨method, known, first, starts, rfl⟩ := success
  obtain ⟨start, isStart, room⟩ := firstArgument_eq_ok known starts
  rw [Prototype.slots] at room
  split
  · rename_i static
    rw [if_pos static] at room
    obtain ⟨places, ordered⟩ := @ofParams_spec method.prototype.params start code.registers first 0
      small isStart (by omega)
    exact ⟨fun argument member => (places argument member).2.1, ordered⟩
  · rename_i dynamic
    rw [if_neg dynamic] at room
    have here : first.number = start := isStart (by omega)
    have next : start + 1 < 65536 → first.next.number = start + 1 := by
      intro inside
      rw [Reg.number_next (by omega), here]
    obtain ⟨places, ordered⟩ := @ofParams_spec method.prototype.params (start + 1) code.registers
      first.next 0 small next (by omega)
    have inside : first.number + Width.narrow.slots ≤ code.registers := by
      simp only [Width.slots]
      omega
    constructor
    · exact List.forall_mem_cons.mpr
        ⟨inside, fun argument member => (places argument member).2.1⟩
    · refine List.pairwise_cons.mpr ⟨fun argument member => ?_, ordered⟩
      obtain ⟨after, -, number, type, source, -⟩ := places argument member
      refine ⟨here ▸ after, ?_⟩
      rw [source]
      exact nofun

/-- Arguments are in registers of their own. -/
theorem nodup_regs {code : Code} {pool : Pool} {arguments : List Argument}
    (success : ofCode code pool = .ok arguments) (small : code.registers ≤ 65536) :
    ((arguments.map fun argument => (argument.reg, argument.width)).map Prod.fst).Nodup := by
  rw [List.map_map, List.Nodup, List.pairwise_map]
  refine (ofCode_spec success small).2.imp fun {first second} precedes same => ?_
  have above := precedes.regs
  have numbers : first.reg.number = second.reg.number := congrArg Reg.number same
  have positive := slots_pos first.width
  omega

/-! ## The registers taken -/

def regs (argument : Argument) : List Reg :=
  (List.range' argument.reg.number argument.width.slots).map Reg.ofNat

/-- Where the arguments of parameters come from, and how wide they are; `void` has none. -/
def origins (index : Nat) (types : List Descriptor) : List (IdentitySource × Width) :=
  (types.zipIdx index).filterMap fun param =>
    param.1.width.map fun width => (.parameter param.2 param.1, width)

/-- A parameter has an argument unless it is `void`. -/
theorem ofParams_cases (reg : Reg) (index : Nat) (type : Descriptor) (types : List Descriptor) :
    type.width = none ∧ ofParams reg index (type :: types) = ofParams reg (index + 1) types ∨
    ∃ width kind, type.width = some width ∧ ofParams reg index (type :: types) =
      ⟨reg, width, kind, .parameter index type⟩ ::
        ofParams (reg.advance width.slots) (index + 1) types := by
  cases type with
  | void => exact .inl ⟨rfl, rfl⟩
  | _ => exact .inr ⟨_, _, rfl, rfl⟩

theorem origins_ofParams (reg : Reg) (index : Nat) (types : List Descriptor) :
    (ofParams reg index types).map (fun argument => (argument.source, argument.width)) =
      origins index types := by
  induction types generalizing reg index with
  | nil => rfl
  | cons type types ih =>
      rw [origins, List.zipIdx_cons, List.filterMap_cons]
      dsimp only
      rcases ofParams_cases reg index type types with ⟨noWidth, same⟩ | ⟨width, kind, isWidth, same⟩
      · rw [same, ih, noWidth]
        rfl
      · rw [same, List.map_cons, ih, isWidth]
        rfl

/-- The arguments of parameters for which there is room take all registers in a row. -/
theorem regs_ofParams {types : List Descriptor} {start limit : Nat} {reg : Reg} {index : Nat}
    (small : limit ≤ 65536) (isStart : start < 65536 → reg.number = start)
    (room : start + types.foldr (fun type slots => type.slots + slots) 0 ≤ limit) :
    (ofParams reg index types).flatMap regs =
      (List.range' start (types.foldr (fun type slots => type.slots + slots) 0)).map Reg.ofNat := by
  induction types generalizing start reg index with
  | nil => rfl
  | cons type types ih =>
      rw [List.foldr_cons] at room ⊢
      rcases ofParams_cases reg index type types with ⟨noWidth, same⟩ | ⟨width, kind, isWidth, same⟩
      · have taken : type.slots = 0 := by rw [Descriptor.slots, noWidth, Option.elim_none]
        rw [taken, Nat.zero_add] at room ⊢
        rw [same]
        exact ih isStart room
      · have taken : type.slots = width.slots := by rw [Descriptor.slots, isWidth, Option.elim_some]
        rw [taken] at room ⊢
        have positive := slots_pos width
        have here : reg.number = start := isStart (by omega)
        have next : start + width.slots < 65536 →
            (reg.advance width.slots).number = start + width.slots := by
          intro inside
          rw [Reg.number_advance (by omega), here]
        rw [same, List.flatMap_cons, ih next (by omega), regs, here, ← List.map_append,
          List.range'_append_1]

/-- Arguments that take the last registers of a frame, one after the other. -/
structure Fill (arguments : List Argument) (first registers : Nat) : Prop where
  regs : arguments.flatMap regs = (List.range' first (registers - first)).map Reg.ofNat
  disjoint : (arguments.flatMap Argument.regs).Nodup
  covers : ∀ reg, reg ∈ arguments.flatMap Argument.regs ↔
    first ≤ reg.number ∧ reg.number < registers

theorem fill_of_regs {arguments : List Argument} {first registers : Nat}
    (small : registers ≤ 65536)
    (taken : arguments.flatMap regs = (List.range' first (registers - first)).map Reg.ofNat) :
    Fill arguments first registers := by
  have inFile : ∀ number ∈ List.range' first (registers - first),
      first ≤ number ∧ number < registers ∧ (Reg.ofNat number).number = number := by
    intro number member
    rw [List.mem_range'_1] at member
    exact ⟨member.1, by omega, Nat.mod_eq_of_lt (by omega)⟩
  refine ⟨taken, ?_, fun reg => ?_⟩
  · rw [taken, List.nodup_map_iff_inj_on List.nodup_range']
    intro one inRange other inRange' same
    rw [← (inFile one inRange).2.2, same, (inFile other inRange').2.2]
  · rw [taken, List.mem_map]
    constructor
    · rintro ⟨number, member, rfl⟩
      obtain ⟨above, below, same⟩ := inFile number member
      rw [same]
      exact ⟨above, below⟩
    · rintro ⟨above, below⟩
      exact ⟨reg.number, List.mem_range'_1.mpr ⟨above, by omega⟩, Reg.ofNat_number reg⟩

theorem fill_of_ofCode {code : Code} {pool : Pool} {method : MethodRef} {arguments : List Argument}
    (known : pool.method code.method = .ok method) (success : ofCode code pool = .ok arguments)
    (small : code.registers < 65536) :
    ∃ first, code.firstArgument pool = .ok first ∧
      first.number + (method.prototype.slots + if code.isStatic then 0 else 1) = code.registers ∧
      arguments.map (fun argument => (argument.source, argument.width)) =
        (if code.isStatic then [] else [(.this, .narrow)]) ++ origins 0 method.prototype.params ∧
      Fill arguments first.number code.registers := by
  simp only [ofCode, bind_eq_ok, pure_eq_ok] at success
  obtain ⟨named, isMethod, first, starts, rfl⟩ := success
  obtain rfl : method = named := Except.ok.inj (known.symm.trans isMethod)
  obtain ⟨start, isStart, room⟩ := firstArgument_eq_ok known starts
  obtain rfl : first.number = start := isStart (by omega)
  refine ⟨first, starts, room, ?_, fill_of_regs (Nat.le_of_lt small) ?_⟩
  · split
    · exact origins_ofParams first 0 _
    · rw [List.map_cons, origins_ofParams]
      rfl
  · rw [Prototype.slots] at room
    split
    · rename_i static
      rw [if_pos static, Nat.add_zero] at room
      rw [regs_ofParams (Nat.le_of_lt small) (fun _ => rfl) (Nat.le_of_eq room), ← room,
        Nat.add_sub_cancel_left]
    · rename_i dynamic
      rw [if_neg dynamic] at room
      rw [List.flatMap_cons, regs_ofParams (Nat.le_of_lt small) Reg.number_next (by omega), regs,
        ← List.map_append]
      have taken : code.registers - first.number =
          1 + method.prototype.params.foldr (fun type slots => type.slots + slots) 0 := by
        omega
      rw [taken, ← List.range'_append_1]
      rfl

end Argument

end Dalvik
