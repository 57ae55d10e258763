import Dalvik.Proofs.Reaching.Result

/-!
# Pairs of registers stay whole

A wide value is in two registers.  A write that takes one of them ends the other half too,
wherever it starts and however wide it is, so in each state that instructions and joins
make of an initial one a low half is never without its high half.
-/

namespace Dalvik

namespace Reaching

/-- The states that instructions and joins make of the empty and the initial state of a
frame. -/
inductive Arises (frame : RegisterFrame) : Reaching → Prop where
  | empty : Arises frame (.empty frame.registers)
  | init : Arises frame (.init frame)
  | transfer {state : Reaching} (arises : Arises frame state) (instruction : Instruction) :
      Arises frame (state.transfer instruction)
  | join {first second : Reaching} (one : Arises frame first) (two : Arises frame second) :
      Arises frame (first.join second)

/-- Whether all halves of a state are in the register of their part of the value, and each
low half has its high half in the next register. -/
structure Whole (state : Reaching) : Prop where
  first : ∀ number d, state.Holds number d → d.half ≠ .high → d.reg.number = number
  second : ∀ number d, state.Holds number d → d.half = .high → d.reg.number + 1 = number
  paired : ∀ number site reg,
    state.Holds number ⟨site, reg, .low⟩ ↔ state.Holds (number + 1) ⟨site, reg, .high⟩

theorem whole_empty (registers : Nat) : (empty registers).Whole where
  first _ _ holds := absurd holds not_holds_empty
  second _ _ holds := absurd holds not_holds_empty
  paired _ _ _ := iff_of_false not_holds_empty not_holds_empty

/-- A write keeps both halves of a pair or none: the low half is lost from the register
before the first to the last that is written, which is the high half from the first to the
register after the last. -/
theorem kept_low_iff {reg : Reg} {width : Width} {number : Nat} {site : Site} {own : Reg} :
    Kept reg width number ⟨site, own, .low⟩ ↔ Kept reg width (number + 1) ⟨site, own, .high⟩ := by
  simp only [Kept, Reg.Spans, reduceCtorEq, and_true, and_false, not_false_eq_true, true_and]
  have slots : 0 < width.slots := by cases width <;> decide
  omega

/-- A write puts both halves of a pair in place or none. -/
theorem written_low_iff {reg : Reg} {width : Width} {number : Nat} {site other : Site} {own : Reg} :
    reg.Spans width number ∧
        (⟨other, own, .low⟩ : Def) = ⟨site, reg, width.halfAt (number - reg.number)⟩ ↔
      reg.Spans width (number + 1) ∧
        (⟨other, own, .high⟩ : Def) = ⟨site, reg, width.halfAt (number + 1 - reg.number)⟩ := by
  simp only [Def.mk.injEq]
  cases width with
  | narrow => simp [Width.halfAt]
  | wide =>
      rw [Reg.spans_wide, Reg.spans_wide]
      constructor
      · rintro ⟨rfl | rfl, same, rfl, half⟩
        · exact ⟨.inr rfl, same, rfl, by simp [Width.halfAt]⟩
        · simp [Width.halfAt] at half
      · rintro ⟨start | next, same, rfl, half⟩
        · simp [Width.halfAt, start] at half
        · obtain rfl := Nat.succ.inj next
          exact ⟨.inl rfl, same, rfl, by simp [Width.halfAt]⟩

/-- The first register of a value that was just written. -/
theorem first_of_spans {reg : Reg} {width : Width} {number : Nat} (spans : reg.Spans width number) :
    (width.halfAt (number - reg.number) ≠ .high → reg.number = number) ∧
      (width.halfAt (number - reg.number) = .high → reg.number + 1 = number) := by
  cases width with
  | narrow =>
      obtain rfl := Reg.spans_narrow.mp spans
      simp [Width.halfAt]
  | wide => rcases Reg.spans_wide.mp spans with rfl | rfl <;> simp [Width.halfAt]

theorem Whole.write {state : Reaching} (whole : state.Whole) (site : Site) (reg : Reg)
    (width : Width) : (state.write site reg width).Whole := by
  by_cases outside : state.regs.length < reg.number + width.slots
  · rwa [write_outside outside]
  have inside := Nat.not_lt.mp outside
  constructor
  case first =>
    intro number d holds half
    rcases (holds_write inside site number d).mp holds with ⟨spans, rfl⟩ | ⟨before, -⟩
    · exact (first_of_spans spans).1 half
    · exact whole.first number d before half
  case second =>
    intro number d holds half
    rcases (holds_write inside site number d).mp holds with ⟨spans, rfl⟩ | ⟨before, -⟩
    · exact (first_of_spans spans).2 half
    · exact whole.second number d before half
  case paired =>
    intro number other own
    rw [holds_write inside, holds_write inside]
    exact or_congr written_low_iff (and_congr (whole.paired number other own) kept_low_iff)

theorem Whole.transfer {state : Reaching} (whole : state.Whole) (instruction : Instruction) :
    (state.transfer instruction).Whole := by
  unfold Reaching.transfer
  split
  · exact whole.write _ _ _
  · exact whole

theorem whole_init (frame : RegisterFrame) : (init frame).Whole :=
  init_induction (whole_empty _) fun param _ _ whole => whole.write .param param.1 param.2

/-- A register that is a half of different pairs on two paths is one of all of them where
the paths join. -/
theorem Whole.join {first second : Reaching} (one : first.Whole) (two : second.Whole) :
    (first.join second).Whole where
  first number d holds := (holds_join.mp holds).elim (one.first number d) (two.first number d)
  second number d holds := (holds_join.mp holds).elim (one.second number d) (two.second number d)
  paired number site reg := by
    rw [holds_join, holds_join]
    exact or_congr (one.paired number site reg) (two.paired number site reg)

theorem Arises.whole {frame : RegisterFrame} {state : Reaching} (arises : Arises frame state) :
    state.Whole := by
  induction arises with
  | empty => exact whole_empty _
  | init => exact whole_init frame
  | transfer _ instruction whole => exact whole.transfer instruction
  | join _ _ one two => exact one.join two

def lowHalves (state : Reaching) (reg : Reg) : List Def :=
  (state.at? reg.number).elim [] fun defs => defs.elements.filter (·.half == .low)

/-- In a whole state the search for the high halves removes nothing. -/
theorem Whole.readable_wide {state : Reaching} (whole : state.Whole) (reg : Reg) :
    state.readable reg .wide = state.lowHalves reg := by
  cases here : state.at? reg.number with
  | none => simp [readable, lowHalves, here]
  | some defs =>
      have high : ∀ d ∈ defs.elements, d.half = .low →
          state.Holds (reg.number + 1) { d with half := .high } := by
        rintro ⟨site, own, half⟩ member rfl
        exact (whole.paired reg.number site own).mp ⟨defs, here, member⟩
      cases next : state.at? (reg.number + 1) with
      | none =>
          have alone : ∀ d ∈ defs.elements, ¬ (d.half == .low) = true := by
            intro d member low
            obtain ⟨others, found, -⟩ := high d member (eq_of_beq low)
            exact Option.some_ne_none others (found.symm.trans next)
          simp only [readable, lowHalves, here, next, Option.elim_some]
          exact (List.filter_eq_nil_iff.mpr alone).symm
      | some others =>
          simp only [readable, lowHalves, here, next, Option.elim_some]
          refine List.filter_congr fun d member => ?_
          cases low : d.half == .low with
          | false => rfl
          | true =>
              obtain ⟨_, found, isHigh⟩ := high d member (eq_of_beq low)
              obtain rfl := Option.some.inj (found.symm.trans next)
              exact SortedSet.contains_iff_mem.mpr isHigh

/-- In each state that arises, halves are in their registers and pairs are whole; so the
wide values that can be read from a register are all whose low half is there. -/
theorem Arises.pairs_whole {frame : RegisterFrame} {state : Reaching} (arises : Arises frame state) :
    state.Whole ∧ ∀ reg, state.readable reg .wide = state.lowHalves reg :=
  ⟨arises.whole, arises.whole.readable_wide⟩

/-- A write of the second register of an argument ends the argument; the other path keeps
it. -/
theorem pairs_whole_broken :
    let frame : RegisterFrame := ⟨3, [(.ofNat 1, .wide)]⟩
    let broken := (init frame).transfer
      { addr := 0, opcodeByte := Opcode.const4.value, format := .f11n, regs := [.ofNat 2] }
    let joined := broken.join (init frame)
    Arises frame joined ∧ joined.Whole ∧ broken.readable (.ofNat 1) .wide = [] ∧
      joined.readable (.ofNat 1) .wide = [⟨.param, .ofNat 1, .low⟩] := by
  intro frame broken joined
  have arises : Arises frame joined := .join (.transfer .init _) .init
  obtain ⟨whole, readable⟩ := arises.pairs_whole
  exact ⟨arises, whole, by decide, (readable _).trans (by decide +kernel)⟩

end Reaching

/-- The state that a result has before an instruction arises from its frame. -/
theorem Dataflow.arises_entryAt {graph : FlowGraph} {frame : RegisterFrame} (closed : graph.Closed)
    {dataflow : Dataflow} (solved : solveReaching graph frame = some dataflow) {addr : Addr}
    {state : Reaching} (enters : dataflow.entryAt addr = some state) :
    Reaching.Arises frame state := by
  have preserved : Solving.Preserved graph frame (Reaching.Arises frame) := {
    init := .init
    join := fun _ _ one two => .join one two
    transfer := fun _ instruction _ _ arises => .transfer arises instruction }
  exact Dataflow.entryAt_of_preserved preserved closed solved enters

end Dalvik
