import Dalvik.Proofs.Reaching.Equations

/-!
# Paths of control

What a solution has before an instruction covers what control brings there along
every path: an instruction that completes has written its register, one that throws
has not.
-/

namespace Dalvik

/-- A path of control from the entry to an instruction, with the instructions that
completed on the way, the last one first.  One that throws and is caught does not
complete. -/
inductive Code.Path (code : Code) : List Instruction → Instruction → Prop where
  | entry {first : Instruction} (listed : first ∈ code.instructions) (start : first.addr = 0) :
      Path code [] first
  | onward {done : List Instruction} {instruction next : Instruction}
      (path : Path code done instruction) (continues : instruction.Continues next.addr)
      (listed : next ∈ code.instructions) : Path code (instruction :: done) next
  | caught {done : List Instruction} {instruction handler : Instruction}
      (path : Path code done instruction) (catches : code.Catches instruction handler.addr)
      (listed : handler ∈ code.instructions) : Path code done handler

/-- Whether an instruction writes a register that a value of a width takes. -/
def Instruction.touches (instruction : Instruction) (reg : Reg) (width : Width) : Bool :=
  match instruction.definition with
  | some (other, otherWidth) =>
      other.number < reg.number + width.slots && reg.number < other.number + otherWidth.slots
  | none => false

namespace Code.Path

variable {code : Code} {done : List Instruction} {instruction : Instruction}

theorem listed (path : code.Path done instruction) : instruction ∈ code.instructions := by
  cases path with
  | entry listed _ | onward _ _ listed | caught _ _ listed => exact listed

/-- What is on a path is reached. -/
theorem reached (path : code.Path done instruction) : code.Reached instruction.addr := by
  induction path with
  | entry _ start => exact start ▸ .entry
  | onward path continues _ ih => exact .step path.listed ih (.onward continues)
  | caught path catches _ ih => exact .step path.listed ih (.caught catches)

end Code.Path

namespace Reaching

/-! ## Values along a path -/

/-- What a path brings: the initial state after all that was written. -/
def alongPath (frame : RegisterFrame) (done : List Instruction) : Reaching :=
  done.foldr (fun instruction state => state.transfer instruction) (init frame)

theorem length_alongPath (frame : RegisterFrame) (done : List Instruction) :
    (alongPath frame done).regs.length = frame.registers := by
  induction done with
  | nil => exact length_init frame
  | cons instruction done ih => exact (length_transfer _ _).trans ih

/-- Whether all of a value that a site put into a register is there. -/
def HoldsAll (state : Reaching) (site : Site) (reg : Reg) (width : Width) : Prop :=
  ∀ number, reg.Spans width number →
    state.Holds number ⟨site, reg, width.halfAt (number - reg.number)⟩

theorem HoldsAll.mono {first second : Reaching} {site : Site} {reg : Reg} {width : Width}
    (holds : first.HoldsAll site reg width) (below : first ≤ second) :
    second.HoldsAll site reg width :=
  fun number spans => below.2 number _ (holds number spans)

theorem holdsAll_write {state : Reaching} {reg : Reg} {width : Width}
    (inside : reg.number + width.slots ≤ state.regs.length) (site : Site) :
    (state.write site reg width).HoldsAll site reg width :=
  fun number spans => (holds_write inside site number _).mpr (.inl ⟨spans, rfl⟩)

/-- What is written beside a value leaves all its parts in place. -/
theorem kept_of_apart {reg otherReg : Reg} {width otherWidth : Width} {number : Nat} {site : Site}
    (apart : otherReg.number + otherWidth.slots ≤ reg.number ∨
      reg.number + width.slots ≤ otherReg.number) (spans : reg.Spans width number) :
    Kept otherReg otherWidth number ⟨site, reg, width.halfAt (number - reg.number)⟩ := by
  have other : 0 < otherWidth.slots := by cases otherWidth <;> decide
  unfold Kept Reg.Spans
  cases width with
  | narrow =>
      obtain rfl := Reg.spans_narrow.mp spans
      simp only [Width.slots, Width.halfAt] at *
      exact ⟨by omega, by simp, by simp⟩
  | wide =>
      rcases Reg.spans_wide.mp spans with rfl | rfl
      · simp only [Width.slots, Nat.sub_self, Width.halfAt] at *
        exact ⟨by omega, by omega, by simp⟩
      · simp only [Width.slots, Nat.add_sub_cancel_left, Width.halfAt] at *
        exact ⟨by omega, by simp, by omega⟩

/-- A value stays while nothing is written over a part of it. -/
theorem HoldsAll.write {state : Reaching} {site other : Site} {reg otherReg : Reg}
    {width otherWidth : Width} (holds : state.HoldsAll site reg width)
    (apart : otherReg.number + otherWidth.slots ≤ reg.number ∨
      reg.number + width.slots ≤ otherReg.number) :
    (state.write other otherReg otherWidth).HoldsAll site reg width := by
  intro number spans
  by_cases outside : state.regs.length < otherReg.number + otherWidth.slots
  · rw [write_outside outside]
    exact holds number spans
  · exact (holds_write (Nat.not_lt.mp outside) other number _).mpr
      (.inr ⟨holds number spans, kept_of_apart apart spans⟩)

theorem HoldsAll.transfer {state : Reaching} {site : Site} {reg : Reg} {width : Width}
    {instruction : Instruction} (holds : state.HoldsAll site reg width)
    (untouched : instruction.touches reg width = false) :
    (state.transfer instruction).HoldsAll site reg width := by
  unfold Reaching.transfer
  unfold Instruction.touches at untouched
  split
  · rename_i other otherWidth defines
    simp only [defines, Bool.and_eq_false_iff, decide_eq_false_iff_not, Nat.not_lt] at untouched
    exact holds.write untouched.symm
  · exact holds

/-- The last value written to a register on a path is there at its end. -/
theorem holdsAll_of_last {frame : RegisterFrame} {done : List Instruction} {d : Instruction}
    {reg : Reg} {width : Width} (inside : reg.number + width.slots ≤ frame.registers)
    (last : done.find? (·.touches reg width) = some d) (defines : d.definition = some (reg, width)) :
    (alongPath frame done).HoldsAll (.at d.addr) reg width := by
  induction done with
  | nil => cases last
  | cons instruction done ih =>
      rw [List.find?_cons] at last
      cases touches : instruction.touches reg width with
      | true =>
          simp only [touches, Option.some.injEq] at last
          subst last
          have written : alongPath frame (instruction :: done) =
              (alongPath frame done).write (.at instruction.addr) reg width := by
            change (alongPath frame done).transfer instruction = _
            rw [Reaching.transfer, defines]
          rw [written]
          exact holdsAll_write (by rwa [length_alongPath]) _
      | false =>
          simp only [touches] at last
          exact (ih last).transfer touches

/-- What no instruction of a path touches is as it was at the start. -/
theorem holdsAll_of_untouched {frame : RegisterFrame} {done : List Instruction} {site : Site}
    {reg : Reg} {width : Width} (start : (init frame).HoldsAll site reg width)
    (untouched : done.find? (·.touches reg width) = none) :
    (alongPath frame done).HoldsAll site reg width := by
  induction done with
  | nil => exact start
  | cons instruction done ih =>
      rw [List.find?_cons] at untouched
      cases touches : instruction.touches reg width with
      | true => simp [touches] at untouched
      | false =>
          simp only [touches] at untouched
          exact (ih untouched).transfer touches

/-- A value that is all there can be read. -/
theorem HoldsAll.readable {state : Reaching} {site : Site} {reg : Reg} {width : Width}
    (holds : state.HoldsAll site reg width) :
    ∃ d ∈ state.readable reg width, d.site = site ∧ d.reg = reg := by
  cases width with
  | narrow =>
      obtain ⟨defs, found, member⟩ := holds reg.number (Reg.spans_narrow.mpr rfl)
      refine ⟨⟨site, reg, .narrow⟩, ?_, rfl, rfl⟩
      simp only [Reaching.readable, found]
      exact List.mem_filter.mpr ⟨member, rfl⟩
  | wide =>
      obtain ⟨defs, found, member⟩ := holds reg.number (Reg.spans_wide.mpr (.inl rfl))
      obtain ⟨others, next, high⟩ := holds (reg.number + 1) (Reg.spans_wide.mpr (.inr rfl))
      rw [Nat.sub_self] at member
      rw [Nat.add_sub_cancel_left] at high
      refine ⟨⟨site, reg, .low⟩, ?_, rfl, rfl⟩
      simp only [Reaching.readable, found, next]
      refine List.mem_filter.mpr ⟨member, ?_⟩
      simpa [Width.halfAt] using SortedSet.contains_iff_mem.mpr high

/-- Arguments in registers of their own are all there at the start. -/
theorem holdsAll_init {frame : RegisterFrame}
    (apart : frame.params.Pairwise fun first second =>
      first.1.number + first.2.slots ≤ second.1.number)
    {reg : Reg} {width : Width} (listed : (reg, width) ∈ frame.params)
    (inside : reg.number + width.slots ≤ frame.registers) :
    (init frame).HoldsAll .param reg width := by
  have kept : ∀ (params : List (Reg × Width)) (state : Reaching),
      (∀ param ∈ params, reg.number + width.slots ≤ param.1.number) →
      state.HoldsAll .param reg width →
      (params.foldl (fun state param => state.write .param param.1 param.2) state).HoldsAll
        .param reg width := by
    intro params
    induction params with
    | nil => exact fun _ _ holds => holds
    | cons param rest ih =>
        intro state after holds
        obtain ⟨afterFirst, afterRest⟩ := List.forall_mem_cons.mp after
        exact ih _ afterRest (holds.write (.inr afterFirst))
  have start : (empty frame.registers).regs.length = frame.registers := List.length_replicate
  unfold init
  generalize frame.params = params at apart listed
  generalize empty frame.registers = state at start
  induction params generalizing state with
  | nil => cases listed
  | cons param rest ih =>
      obtain ⟨afterFirst, apartRest⟩ := List.pairwise_cons.mp apart
      rcases List.mem_cons.mp listed with rfl | inRest
      · exact kept rest _ afterFirst (holdsAll_write (by rwa [start]) _)
      · exact ih apartRest inRest _ ((length_write _ _ _ _).trans start)

end Reaching

namespace Dataflow

variable {code : Code} {pool : Pool} {graph : FlowGraph} {frame : RegisterFrame}
  {dataflow : Dataflow}

theorem Follows.at {entry : Reaching} {list : List Instruction} (follows : dataflow.Follows entry list)
    {instruction : Instruction} (member : instruction ∈ list) :
    ∃ state, dataflow.entryAt instruction.addr = some state ∧
      dataflow.exitAt instruction.addr = some (state.transfer instruction) := by
  induction follows with
  | done => cases member
  | next before after _ ih =>
      rcases List.mem_cons.mp member with rfl | inRest
      · exact ⟨_, before, after⟩
      · exact ih inRest

theorem Follows.neighbour {entry : Reaching} {list : List Instruction}
    (follows : dataflow.Follows entry list) {earlier later : Instruction}
    (pair : [earlier, later] <:+: list) :
    ∃ state, dataflow.entryAt earlier.addr = some state ∧
      dataflow.entryAt later.addr = some (state.transfer earlier) := by
  induction follows with
  | done => simp at pair
  | next before _ others ih =>
      rcases neighbours_cons.mp pair with ⟨rfl, isHead⟩ | inRest
      · refine ⟨_, before, ?_⟩
        cases others with
        | done => cases isHead
        | next beforeLater _ _ => exact Option.some.inj isHead ▸ beforeLater
      · exact ih inRest

/-- The result has a state of the frame's size before every instruction. -/
theorem exists_entryAt (success : FlowGraph.build code pool = .ok graph)
    (distinct : (code.instructions.map Instruction.addr).Nodup)
    (solved : solveReaching graph frame = some dataflow) {instruction : Instruction}
    (listed : instruction ∈ code.instructions) :
    ∃ state, dataflow.entryAt instruction.addr = some state ∧
      state.regs.length = frame.registers := by
  have built := FlowGraph.build_eq_ok success
  obtain ⟨final, result, rfl⟩ := Option.map_eq_some_iff.mp solved
  obtain ⟨consistent, settled⟩ := Solving.settled_of_run built.closed result
  obtain ⟨block, isBlock, inBlock⟩ := built.mem_instructions.mp listed
  obtain ⟨number, place⟩ := List.getElem?_of_mem isBlock
  obtain ⟨position, found⟩ := List.getElem?_of_mem inBlock
  obtain ⟨states, known, -⟩ := settled number (List.getElem?_eq_some_iff.mp place).1
  refine ⟨_, (ofSolving_at_place built distinct consistent place known found).1, ?_⟩
  rw [Solving.length_exitOf, consistent.registers number states known]

/-- The state at the start of a block that control leads to has what control brings. -/
theorem Solves.le_of_flowsInto (built : FlowGraph.Built code graph)
    (solves : dataflow.Solves graph frame) {number : Nat} {block : Block} {state entry : Reaching}
    (isBlock : graph.blocks[number]? = some block)
    (flows : FlowsInto graph frame dataflow number state)
    (enters : dataflow.entryAt block.start = some entry) : state ≤ entry := by
  obtain ⟨start, follows, isEntry⟩ := solves number block isBlock
  have same := follows.entryAt_start (built.nonempty block (List.mem_of_getElem? isBlock))
  obtain rfl := Option.some.inj (enters.symm.trans same)
  exact (isEntry.joins ⟨state, flows⟩).1 flows

/-- A solution covers every path, if code is cut after the flow ends. -/
theorem alongPath_le (success : FlowGraph.build code pool = .ok graph) (apart : code.Apart)
    (cut : code.CutAfterFlow) (solved : solveReaching graph frame = some dataflow)
    (solves : dataflow.Solves graph frame) {done : List Instruction} {instruction : Instruction}
    (path : code.Path done instruction) {entry : Reaching}
    (enters : dataflow.entryAt instruction.addr = some entry) :
    Reaching.alongPath frame done ≤ entry := by
  have built := FlowGraph.build_eq_ok success
  induction path generalizing entry with
  | entry listed start =>
      obtain ⟨block, place, atZero⟩ := built.start
      rw [start, ← atZero] at enters
      exact solves.le_of_flowsInto built place (.start rfl) enters
  | @onward done instruction next path continues listed ih =>
      obtain ⟨before, entersBefore, length⟩ :=
        exists_entryAt success apart.distinct solved path.listed
      have below : (Reaching.alongPath frame done).transfer instruction ≤ before.transfer instruction :=
        Reaching.transfer_mono ((Reaching.length_alongPath frame done).trans length.symm)
          (ih entersBefore) instruction
      apply le_trans below
      obtain ⟨block, isBlock, inBlock⟩ := built.mem_instructions.mp path.listed
      obtain ⟨number, place⟩ := List.getElem?_of_mem isBlock
      obtain ⟨start, follows, -⟩ := solves number block place
      rcases last_or_neighbour inBlock with isLast | ⟨other, pair⟩
      · obtain ⟨edge, isEdge, rfl, completes, target, placeTarget, leads⟩ :=
          built.steps_edge number block instruction false next.addr place isLast (.onward continues)
        obtain ⟨state, entersToo, leaves⟩ := follows.at inBlock
        obtain rfl := Option.some.inj (entersBefore.symm.trans entersToo)
        rw [← leads] at enters
        exact solves.le_of_flowsInto built placeTarget
          (.onward isEdge rfl completes place isLast leaves) enters
      · obtain ⟨inCode, inside⟩ := (built.neighbours instruction other).mp ⟨block, isBlock, pair⟩
        cases falls : instruction.endsFlow with
        | true => exact absurd (cut instruction other inCode path.reached falls) inside
        | false =>
            obtain ⟨-, same⟩ :=
              (built.steps_inside apart inCode inside falls).mp (.onward continues)
            obtain ⟨state, entersToo, entersNext⟩ := follows.neighbour pair
            obtain rfl := Option.some.inj (entersBefore.symm.trans entersToo)
            rw [same] at enters
            exact le_of_eq (Option.some.inj (entersNext.symm.trans enters))
  | @caught done instruction handler path catches listed ih =>
      obtain ⟨before, entersBefore, -⟩ := exists_entryAt success apart.distinct solved path.listed
      apply le_trans (ih entersBefore)
      obtain ⟨block, isBlock, inBlock⟩ := built.mem_instructions.mp path.listed
      obtain ⟨number, place⟩ := List.getElem?_of_mem isBlock
      -- Code is cut before an instruction that may throw, so it starts its block.
      have atStart : block.start = instruction.addr := by
        rcases head_or_neighbour inBlock with isHead | ⟨other, pair⟩
        · simp [Block.start, isHead]
        · obtain ⟨inCode, inside⟩ := (built.neighbours other instruction).mp ⟨block, isBlock, pair⟩
          exact absurd (.inl ⟨instruction, path.listed, .thrower catches.1⟩) inside
      rcases last_or_neighbour inBlock with isLast | ⟨other, pair⟩
      · obtain ⟨edge, isEdge, rfl, throws, target, placeTarget, leads⟩ :=
          built.steps_edge number block instruction true handler.addr place isLast (.caught catches)
        rw [← leads] at enters
        rw [← atStart] at entersBefore
        exact solves.le_of_flowsInto built placeTarget (.caught isEdge rfl throws place entersBefore)
          enters
      · obtain ⟨inCode, inside⟩ := (built.neighbours instruction other).mp ⟨block, isBlock, pair⟩
        cases falls : instruction.endsFlow with
        | true => exact absurd (cut instruction other inCode path.reached falls) inside
        | false =>
            obtain ⟨impossible, -⟩ :=
              (built.steps_inside apart inCode inside falls).mp (.caught catches)
            cases impossible

end Dataflow

end Dalvik
