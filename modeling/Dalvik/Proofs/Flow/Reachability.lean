import Dalvik.Proofs.Flow.Blocks

/-!
# Reachable instructions

The instructions of the blocks found from the start are those that control can
get to step by step, except that a block runs on past an instruction that ends
the flow unless the code is cut after it.
-/

namespace Dalvik

theorem Instruction.addr_lt_nextAddr (instruction : Instruction) :
    instruction.addr < instruction.nextAddr := by
  have positive : 0 < instruction.size := by
    unfold Instruction.size
    cases instruction.format <;> decide
  exact Nat.lt_add_of_pos_right positive

namespace Code

def Apart (code : Code) : Prop :=
  code.instructions.Pairwise fun earlier later => earlier.nextAddr ≤ later.addr

instance (code : Code) : Decidable code.Apart :=
  inferInstanceAs (Decidable (code.instructions.Pairwise _))

/-- The addresses that control gets to from the first instruction. -/
inductive Reached (code : Code) : Addr → Prop where
  | entry : Reached code 0
  | step {instruction : Instruction} {caught : Bool} {addr : Addr}
      (listed : instruction ∈ code.instructions) (reached : Reached code instruction.addr)
      (steps : code.Steps instruction caught addr) : Reached code addr

/-- Code is cut after every instruction that control gets to and that ends the
flow.  The cut made for the instruction itself is at the address after it, which
is not where the next instruction starts if data lies between them. -/
def CutAfterFlow (code : Code) : Prop :=
  ∀ earlier later, [earlier, later] <:+: code.instructions → code.Reached earlier.addr →
    earlier.endsFlow = true → code.IsCutAt later.addr

namespace Apart

variable {code : Code}

/-- Of two instructions one ends before the other starts. -/
theorem compare (apart : code.Apart) {first second : Instruction}
    (firstListed : first ∈ code.instructions) (secondListed : second ∈ code.instructions) :
    first = second ∨ first.nextAddr ≤ second.addr ∨ second.nextAddr ≤ first.addr := by
  have pairwise : code.instructions.Pairwise fun first second =>
      first = second ∨ first.nextAddr ≤ second.addr ∨ second.nextAddr ≤ first.addr :=
    apart.imp fun before => .inr (.inl before)
  have flipped : code.instructions.Pairwise (flip fun first second =>
      first = second ∨ first.nextAddr ≤ second.addr ∨ second.nextAddr ≤ first.addr) :=
    apart.imp fun before => .inr (.inr before)
  exact pairwise.forall_of_forall_of_flip (fun _ _ => .inl rfl) flipped firstListed secondListed

theorem eq_of_addr (apart : code.Apart) {first second : Instruction}
    (firstListed : first ∈ code.instructions) (secondListed : second ∈ code.instructions)
    (same : first.addr = second.addr) : first = second := by
  have firstSize := first.addr_lt_nextAddr
  have secondSize := second.addr_lt_nextAddr
  rcases apart.compare firstListed secondListed with equal | before | after
  · exact equal
  · lia
  · lia

theorem nodup (apart : code.Apart) : code.instructions.Nodup := by
  refine apart.imp fun {earlier later} before => ?_
  rintro rfl
  exact absurd earlier.addr_lt_nextAddr (Nat.not_lt.mpr before)

theorem distinct (apart : code.Apart) : (code.instructions.map Instruction.addr).Nodup := by
  refine List.pairwise_map.mpr (apart.imp fun {earlier later} before => ?_)
  exact Nat.ne_of_lt (Nat.lt_of_lt_of_le earlier.addr_lt_nextAddr before)

/-- Nothing lies between neighbours. -/
theorem neighbours (apart : code.Apart) {earlier later other : Instruction}
    (pair : [earlier, later] <:+: code.instructions) (listed : other ∈ code.instructions) :
    earlier.nextAddr ≤ later.addr ∧ (other.nextAddr ≤ earlier.addr ∨ other = earlier ∨
      other = later ∨ later.nextAddr ≤ other.addr) := by
  obtain ⟨before, after, split⟩ := pair
  unfold Apart at apart
  rw [← split, List.append_assoc, List.pairwise_append] at apart
  rw [← split, List.append_assoc] at listed
  obtain ⟨-, ordered, earlierFirst⟩ := apart
  obtain ⟨fromEarlier, fromLater⟩ := List.pairwise_cons.mp ordered
  refine ⟨fromEarlier later List.mem_cons_self, ?_⟩
  rcases List.mem_append.mp listed with inBefore | inRest
  · exact .inl (earlierFirst other inBefore earlier List.mem_cons_self)
  · rcases List.mem_cons.mp inRest with rfl | inLater
    · exact .inr (.inl rfl)
    · rcases List.mem_cons.mp inLater with rfl | inAfter
      · exact .inr (.inr (.inl rfl))
      · exact .inr (.inr (.inr ((List.pairwise_cons.mp fromLater).1 other inAfter)))

/-- An instruction that has one at the address after it has it as its neighbour. -/
theorem neighbour_addr (apart : code.Apart) {earlier later : Instruction}
    (pair : [earlier, later] <:+: code.instructions)
    (follows : code.hasInstruction earlier.nextAddr = true) : later.addr = earlier.nextAddr := by
  obtain ⟨other, listed, addr⟩ := Code.hasInstruction_iff.mp follows
  have earlierSize := earlier.addr_lt_nextAddr
  have laterSize := later.addr_lt_nextAddr
  have otherSize := other.addr_lt_nextAddr
  obtain ⟨ends, before | rfl | rfl | after⟩ := apart.neighbours pair listed
  · lia
  · lia
  · exact addr
  · lia

/-- What follows an instruction that ends the flow is not the next one of any
other instruction. -/
theorem not_next_of_endsFlow (apart : code.Apart) {earlier later other : Instruction}
    (pair : [earlier, later] <:+: code.instructions) (ends : earlier.endsFlow = true)
    (listed : other ∈ code.instructions) (falls : other.endsFlow = false) :
    other.nextAddr ≠ later.addr := by
  intro addr
  have earlierSize := earlier.addr_lt_nextAddr
  have laterSize := later.addr_lt_nextAddr
  have otherSize := other.addr_lt_nextAddr
  obtain ⟨between, before | rfl | rfl | after⟩ := apart.neighbours pair listed
  · lia
  · simp [ends] at falls
  · lia
  · lia

end Apart

end Code

namespace FlowGraph

variable {code : Code} {graph : FlowGraph}

theorem mem_reachable (closed : graph.Closed) {addr : Addr} :
    addr ∈ graph.reachable ↔ ∃ number block, Relation.ReflTransGen graph.Leads graph.start number ∧
      graph.blocks[number]? = some block ∧ ∃ instruction ∈ block.instructions,
        instruction.addr = addr := by
  simp only [reachable, SortedSet.mem_ofList, List.mem_flatMap, mem_reachableBlocks closed]
  constructor
  · rintro ⟨number, path, member⟩
    cases place : graph.blocks[number]? with
    | none => simp [place] at member
    | some block =>
        simp only [place, Option.map_some, Option.getD_some, Block.addrs, List.mem_map] at member
        exact ⟨number, block, path, place, member⟩
  · rintro ⟨number, block, path, place, member⟩
    refine ⟨number, path, ?_⟩
    simpa only [place, Option.map_some, Option.getD_some, Block.addrs, List.mem_map] using member

namespace Built

theorem mem_instructions (built : Built code graph) {instruction : Instruction} :
    instruction ∈ code.instructions ↔ ∃ block ∈ graph.blocks, instruction ∈ block.instructions := by
  rw [← built.instructions, List.mem_flatMap]

/-- An instruction is in one block only. -/
theorem block_unique (built : Built code graph) (nodup : code.instructions.Nodup)
    {first second : Nat} {firstBlock secondBlock : Block} {instruction : Instruction}
    (firstPlace : graph.blocks[first]? = some firstBlock)
    (secondPlace : graph.blocks[second]? = some secondBlock)
    (inFirst : instruction ∈ firstBlock.instructions)
    (inSecond : instruction ∈ secondBlock.instructions) : first = second := by
  obtain ⟨firstLt, rfl⟩ := List.getElem?_eq_some_iff.mp firstPlace
  obtain ⟨secondLt, rfl⟩ := List.getElem?_eq_some_iff.mp secondPlace
  rw [← built.instructions, List.nodup_flatMap] at nodup
  have disjoint := List.pairwise_iff_getElem.mp nodup.2
  rcases Nat.lt_trichotomy first second with before | same | after
  · exact absurd inSecond (disjoint first second firstLt secondLt before inFirst)
  · exact same
  · exact absurd inFirst (disjoint second first secondLt firstLt after inSecond)

/-- Inside a block control goes from an instruction that does not end the flow
to its neighbour, and nowhere else. -/
theorem steps_inside (built : Built code graph) (apart : code.Apart) {earlier later : Instruction}
    (pair : [earlier, later] <:+: code.instructions) (inside : ¬ code.IsCutAt later.addr)
    (falls : earlier.endsFlow = false) {caught : Bool} {addr : Addr} :
    code.Steps earlier caught addr ↔ caught = false ∧ addr = later.addr := by
  have listed : earlier ∈ code.instructions := pair.subset List.mem_cons_self
  have next := apart.neighbour_addr pair (built.falls earlier listed falls)
  have stays : ¬ (earlier.isBranching = true ∨ earlier.canThrow = true ∨ earlier.endsFlow = true) :=
    fun leaves => inside (.inl ⟨earlier, listed, next ▸ .after leaves⟩)
  simp only [not_or, Bool.not_eq_true] at stays
  obtain ⟨notBranching, quiet, -⟩ := stays
  constructor
  · intro steps
    cases steps with
    | onward continues =>
        cases continues with
        | next _ => exact ⟨rfl, next.symm⟩
        | jump isOffset _ => simp [jumpOffsets_of_not_branching notBranching] at isOffset
    | caught catches => exact absurd catches.1 (by rw [quiet]; decide)
  · rintro ⟨rfl, rfl⟩
    exact next ▸ .onward (.next falls)

/-- Every instruction of a block is reached with the first one, if code is cut
after the flow ends. -/
theorem reached_block (built : Built code graph) (apart : code.Apart) (cut : code.CutAfterFlow)
    {block : Block} (member : block ∈ graph.blocks) (start : code.Reached block.start) :
    ∀ instruction ∈ block.instructions, code.Reached instruction.addr := by
  refine forall_of_neighbours ?_ ?_
  · intro first isHead
    rwa [Block.start, isHead] at start
  · intro earlier later pair reached
    obtain ⟨inCode, inside⟩ := (built.neighbours earlier later).mp ⟨block, member, pair⟩
    have listed : earlier ∈ code.instructions := inCode.subset List.mem_cons_self
    cases falls : earlier.endsFlow with
    | true => exact absurd (cut earlier later inCode reached falls) inside
    | false => exact .step listed reached ((built.steps_inside apart inCode inside falls).mpr ⟨rfl, rfl⟩)

/-- The first instruction of a block is at its start. -/
theorem exists_start (built : Built code graph) {block : Block} (member : block ∈ graph.blocks) :
    ∃ first ∈ block.instructions, first.addr = block.start := by
  cases listed : block.instructions with
  | nil => exact absurd listed (built.nonempty block member)
  | cons first rest => exact ⟨first, List.mem_cons_self, by simp [Block.start, listed]⟩

/-- All that is computed is reached, if code is cut after the flow ends. -/
theorem reached_of_mem_reachable (built : Built code graph) (apart : code.Apart)
    (cut : code.CutAfterFlow) {addr : Addr} (computed : addr ∈ graph.reachable) :
    code.Reached addr := by
  obtain ⟨number, block, path, place, instruction, inBlock, rfl⟩ :=
    (mem_reachable built.closed).mp computed
  suffices reachedStart : ∀ block, graph.blocks[number]? = some block → code.Reached block.start from
    built.reached_block apart cut (List.mem_of_getElem? place) (reachedStart block place)
      instruction inBlock
  clear computed place inBlock block
  induction path with
  | refl =>
      intro block place
      obtain ⟨start, place', atZero⟩ := built.start
      obtain rfl := Option.some.inj (place.symm.trans place')
      exact atZero ▸ .entry
  | tail path leads ih =>
      intro block place
      obtain ⟨edge, isEdge, rfl, rfl⟩ := leads_iff.mp leads
      obtain ⟨source, last, target, placeSource, isLast, placeTarget, steps⟩ :=
        built.edge_steps edge isEdge
      obtain rfl := Option.some.inj (place.symm.trans placeTarget)
      have inSource := List.mem_of_getLast? isLast
      have isBlock := List.mem_of_getElem? placeSource
      exact .step (built.mem_instructions.mpr ⟨source, isBlock, inSource⟩)
        (built.reached_block apart cut isBlock (ih source placeSource) last inSource) steps

/-- All that is reached is computed, if code is cut after the flow ends. -/
theorem mem_reachable_of_reached (built : Built code graph) (apart : code.Apart)
    (cut : code.CutAfterFlow) {addr : Addr} (reached : code.Reached addr) :
    addr ∈ graph.reachable := by
  induction reached with
  | entry =>
      obtain ⟨block, place, atZero⟩ := built.start
      obtain ⟨first, inBlock, atStart⟩ := built.exists_start (List.mem_of_getElem? place)
      exact (mem_reachable built.closed).mpr
        ⟨graph.start, block, .refl, place, first, inBlock, atStart.trans atZero⟩
  | @step instruction caught addr listed reached steps ih =>
      obtain ⟨number, block, path, place, other, inBlock, same⟩ := (mem_reachable built.closed).mp ih
      have isBlock := List.mem_of_getElem? place
      have otherListed := built.mem_instructions.mpr ⟨block, isBlock, inBlock⟩
      obtain rfl := apart.eq_of_addr otherListed listed same
      rcases last_or_neighbour inBlock with isLast | ⟨next, pair⟩
      · obtain ⟨edge, isEdge, rfl, -, target, placeTarget, rfl⟩ :=
          built.steps_edge number block other caught addr place isLast steps
        obtain ⟨first, inTarget, atStart⟩ := built.exists_start (List.mem_of_getElem? placeTarget)
        refine (mem_reachable built.closed).mpr
          ⟨edge.target, target, path.tail ?_, placeTarget, first, inTarget, atStart⟩
        exact leads_iff.mpr ⟨edge, isEdge, rfl, rfl⟩
      · obtain ⟨inCode, inside⟩ := (built.neighbours other next).mp ⟨block, isBlock, pair⟩
        cases falls : other.endsFlow with
        | true => exact absurd (cut other next inCode reached falls) inside
        | false =>
            obtain ⟨-, rfl⟩ := (built.steps_inside apart inCode inside falls).mp steps
            exact (mem_reachable built.closed).mpr
              ⟨number, block, path, place, next, pair.subset (by simp), rfl⟩

/-- What follows an instruction that ends the flow is reached only by a jump or
as a handler, where code is cut. -/
theorem isCutAt_of_reached (apart : code.Apart) {earlier later : Instruction}
    (pair : [earlier, later] <:+: code.instructions) (ends : earlier.endsFlow = true)
    (reached : code.Reached later.addr) : code.IsCutAt later.addr := by
  generalize target : later.addr = addr at reached
  cases reached with
  | entry =>
      have size := earlier.addr_lt_nextAddr
      have order := (apart.neighbours pair (pair.subset List.mem_cons_self)).1
      lia
  | step listed _ steps =>
      cases steps with
      | onward continues =>
          cases continues with
          | next falls =>
              exact absurd target.symm (apart.not_next_of_endsFlow pair ends listed falls)
          | jump isOffset leads => exact .inl ⟨_, listed, .target isOffset leads⟩
      | caught catches =>
          obtain ⟨-, item, isItem, -, handler, isHandler, rfl⟩ := catches
          exact .inr ⟨item, isItem, .inr (.inr ⟨handler, isHandler, rfl⟩)⟩

end Built

/-- The instructions found from the start are those that control gets to exactly
if code is cut after every instruction reached that ends the flow. -/
theorem reachable_eq_reached_iff {code : Code} {pool : Pool} {graph : FlowGraph}
    (success : build code pool = .ok graph) (apart : code.Apart) :
    (∀ addr, addr ∈ graph.reachable ↔ code.Reached addr) ↔ code.CutAfterFlow := by
  have built := build_eq_ok success
  constructor
  · intro agrees earlier later pair reached ends
    by_contra inside
    obtain ⟨block, isBlock, together⟩ := (built.neighbours earlier later).mpr ⟨pair, inside⟩
    obtain ⟨number, other, path, place, instruction, inOther, same⟩ :=
      (mem_reachable built.closed).mp ((agrees earlier.addr).mpr reached)
    have earlierIn := together.subset List.mem_cons_self
    have laterIn := together.subset (List.mem_cons_of_mem _ List.mem_cons_self)
    have isOther := List.mem_of_getElem? place
    obtain rfl := apart.eq_of_addr (built.mem_instructions.mpr ⟨other, isOther, inOther⟩)
      (built.mem_instructions.mpr ⟨block, isBlock, earlierIn⟩) same
    obtain ⟨index, placeBlock⟩ := List.getElem?_of_mem isBlock
    obtain rfl := built.block_unique apart.nodup placeBlock place earlierIn inOther
    have computed : later.addr ∈ graph.reachable :=
      (mem_reachable built.closed).mpr ⟨index, block, path, placeBlock, later, laterIn, rfl⟩
    exact inside (Built.isCutAt_of_reached apart pair ends ((agrees later.addr).mp computed))
  · intro cut addr
    exact ⟨built.reached_of_mem_reachable apart cut, built.mem_reachable_of_reached apart cut⟩

end FlowGraph

def Instruction.ofOpcode (addr : Addr) (opcode : Opcode) (regs : List Reg) (offset : Option Int32)
    (payload : Option Payload) : Instruction :=
  { addr, opcodeByte := opcode.value, format := opcode.format, regs, offset, payload }

def Instruction.setZero (addr : Addr) : Instruction :=
  { Instruction.ofOpcode addr .const4 [.ofNat 0] none none with literal := some 0 }

/-- A `goto` with the table of a switch behind it, then more instructions before
the one of the case and the one the `goto` leads to. -/
def Code.gotoOverTable (behind : List Instruction) : Code where
  method := 0
  flags := ⟨8⟩
  registers := 1
  instructions :=
    .ofOpcode 0 .packedSwitch [.ofNat 0] (some 4) (some (.packedSwitch 0 [11])) ::
    .ofOpcode 3 .goto [] (some 9) none ::
    (behind ++ [.ofOpcode 11 .returnVoid [] none none, .ofOpcode 12 .returnVoid [] none none])
  tries := []

/-- With the case right behind the table code is cut after the `goto`. -/
theorem Code.cutAfterFlow_gotoOverTable_nil : (Code.gotoOverTable []).CutAfterFlow := by
  intro earlier later pair reached ends
  simp only [Code.gotoOverTable, List.nil_append, neighbours_cons, List.head?_cons, List.head?_nil,
    Option.some.injEq, reduceCtorEq, and_false, List.infix_nil, List.cons_ne_nil, or_false] at pair
  rcases pair with ⟨rfl, rfl⟩ | ⟨rfl, rfl⟩ | ⟨rfl, rfl⟩
  · exact absurd ends (by decide)
  · exact .inl ⟨_, List.mem_cons_self, @Instruction.CutsAt.target _ 11 _ (by decide) (by decide)⟩
  · exact .inl ⟨_, List.mem_cons_of_mem _ List.mem_cons_self,
      @Instruction.CutsAt.target _ 9 _ (by decide) (by decide)⟩

namespace FlowGraph

/-- With the case right behind the table all blocks end where the flow does. -/
theorem reachable_gotoOverTable_nil : ∃ graph, build (.gotoOverTable []) .empty = .ok graph ∧
    ∀ addr, addr ∈ graph.reachable ↔ (Code.gotoOverTable []).Reached addr := by
  obtain ⟨graph, success, -⟩ : ∃ graph, build (.gotoOverTable []) .empty = .ok graph ∧
      graph.reachable.elements = [0, 3, 11, 12] := exists_ok_of_decide (by decide)
  exact ⟨graph, success,
    (reachable_eq_reached_iff success (by decide)).mpr Code.cutAfterFlow_gotoOverTable_nil⟩

/-- With a `nop` between, the block of the `goto` goes on with it and has its
exits: where the `goto` leads is not found. -/
theorem reachable_gotoOverTable_nop : ∃ graph,
    build (.gotoOverTable [.ofOpcode 10 .nop [] none none]) .empty = .ok graph ∧
      (Code.gotoOverTable [.ofOpcode 10 .nop [] none none]).Apart ∧
      (Code.gotoOverTable [.ofOpcode 10 .nop [] none none]).Reached 12 ∧ 12 ∉ graph.reachable := by
  obtain ⟨graph, success, found⟩ : ∃ graph,
      build (.gotoOverTable [.ofOpcode 10 .nop [] none none]) .empty = .ok graph ∧
        graph.reachable.elements = [0, 3, 10, 11] := exists_ok_of_decide (by decide)
  refine ⟨graph, success, by decide, ?_, ?_⟩
  · have atGoto : (Code.gotoOverTable [.ofOpcode 10 .nop [] none none]).Reached 3 :=
      .step List.mem_cons_self .entry (.onward (.next (by decide)))
    exact .step (List.mem_cons_of_mem _ List.mem_cons_self) atGoto
      (.onward (@Instruction.Continues.jump _ 9 _ (by decide) (by decide)))
  · intro member
    change 12 ∈ graph.reachable.elements at member
    rw [found] at member
    exact absurd member (by decide)

end FlowGraph

end Dalvik
