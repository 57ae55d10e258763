import Dalvik.Proofs.Reaching.Result

/-!
# Where definitions come from

Each definition of a state is a part of a value that an instruction of the code writes,
or of an argument.
-/

namespace Dalvik

/-- A write of a value: by an instruction, or of an argument by the caller. -/
inductive Code.Provides (code : Code) (params : List (Reg × Width)) : Site → Reg → Width → Prop where
  | written {instruction : Instruction} {reg : Reg} {width : Width}
      (listed : instruction ∈ code.instructions) (defines : instruction.definition = some (reg, width)) :
      Provides code params (.at instruction.addr) reg width
  | passed {reg : Reg} {width : Width} (listed : (reg, width) ∈ params) :
      Provides code params .param reg width

variable {code : Code} {params : List (Reg × Width)}

/-- A value is written with one width. -/
theorem Code.Provides.unique (distinct : (code.instructions.map Instruction.addr).Nodup)
    (regs : (params.map Prod.fst).Nodup) {site : Site} {reg : Reg}
    {width other : Width} (one : code.Provides params site reg width)
    (two : code.Provides params site reg other) : width = other := by
  cases one with
  | @written first _ _ listed defines =>
      generalize isSite : Site.at first.addr = site at two
      cases two with
      | written listed' defines' =>
          obtain rfl := List.inj_on_of_nodup_map distinct listed listed' (Site.at.inj isSite)
          exact (Prod.mk.inj (Option.some.inj (defines.symm.trans defines'))).2
      | passed _ => cases isSite
  | passed listed =>
      generalize isSite : Site.param = site at two
      cases two with
      | written _ _ => cases isSite
      | passed listed' =>
          exact (Prod.mk.inj (List.inj_on_of_nodup_map regs listed listed' rfl)).2

/-- A definition is a part of a value that is provided. -/
def Def.Sourced (code : Code) (params : List (Reg × Width)) (d : Def) : Prop :=
  ∃ width offset, code.Provides params d.site d.reg width ∧ d.half = width.halfAt offset

namespace Reaching

/-- All definitions of a state come from the code or from arguments. -/
def Sourced (code : Code) (params : List (Reg × Width)) (state : Reaching) : Prop :=
  ∀ number d, state.Holds number d → d.Sourced code params

theorem Sourced.write {state : Reaching} (sourced : state.Sourced code params) {site : Site} {reg : Reg}
    {width : Width} (provides : code.Provides params site reg width) :
    (state.write site reg width).Sourced code params := by
  intro number d holds
  by_cases outside : state.regs.length < reg.number + width.slots
  · rw [write_outside outside] at holds
    exact sourced number d holds
  · rcases (holds_write (Nat.not_lt.mp outside) site number d).mp holds with ⟨-, rfl⟩ | ⟨holds, -⟩
    · exact ⟨width, _, provides, rfl⟩
    · exact sourced number d holds

theorem sourced_init (registers : Nat) : (init ⟨registers, params⟩).Sourced code params := by
  refine init_induction (fun _ _ holds => absurd holds not_holds_empty) ?_
  exact fun param listed state sourced => sourced.write (.passed listed)

theorem Sourced.transfer {state : Reaching} (sourced : state.Sourced code params)
    {instruction : Instruction} (listed : instruction ∈ code.instructions) :
    (state.transfer instruction).Sourced code params := by
  unfold Reaching.transfer
  split
  · rename_i reg width defines
    exact sourced.write (.written listed defines)
  · exact sourced

/-- What can be read with a width is written with this width. -/
theorem Sourced.readable {state : Reaching} (sourced : state.Sourced code params) {reg : Reg}
    {width : Width} {d : Def} (reads : d ∈ state.readable reg width) :
    code.Provides params d.site d.reg width := by
  obtain ⟨holds, half⟩ := holds_of_mem_readable reads
  obtain ⟨own, offset, provides, same⟩ := sourced reg.number d holds
  have widths : own = width := by
    rw [half] at same
    cases width <;> cases own <;> first | rfl | (cases offset <;> cases same)
  exact widths ▸ provides

end Reaching

namespace Dataflow

variable {graph : FlowGraph} {registers : Nat}

theorem preserved_sourced (built : FlowGraph.Built code graph) :
    Solving.Preserved graph ⟨registers, params⟩ (Reaching.Sourced code params) where
  init := Reaching.sourced_init registers
  join _ _ one two number d holds :=
    (Reaching.holds_join.mp holds).elim (one number d) (two number d)
  transfer _ _ listed _ sourced :=
    sourced.transfer (built.mem_instructions.mpr (FlowGraph.mem_instructionsOf listed))

/-- The states of a result are of definitions that come from the code or from arguments. -/
theorem sourced_entryAt (built : FlowGraph.Built code graph) {dataflow : Dataflow}
    (solved : solveReaching graph ⟨registers, params⟩ = some dataflow) {addr : Addr}
    {state : Reaching} (enters : dataflow.entryAt addr = some state) : state.Sourced code params :=
  entryAt_of_preserved (preserved_sourced built) built.closed solved enters

end Dataflow

end Dalvik
