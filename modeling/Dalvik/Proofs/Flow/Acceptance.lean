import Dalvik.Proofs.Flow.Dead
import Dalvik.Proofs.Opcode

/-!
# Code that has a flow graph

A flow graph is built exactly if the code has an instruction at its entry and
wherever control goes on from one of its instructions, and if the handlers that
are met on the way are in the code.  A handler is met where its try item covers an
instruction that may throw and is the last of its block; the handlers of other
try items are not looked at.
-/

namespace Dalvik

namespace Instruction

def WellShaped (instruction : Instruction) : Prop :=
  ∃ opcode, instruction.opcode = some opcode ∧ instruction.checkShape opcode = .ok ()

/-- A well-shaped switch has its table. -/
theorem WellShaped.payload {instruction : Instruction} (shaped : instruction.WellShaped)
    (isSwitch : instruction.opcode.map Opcode.family = some .switch) :
    ∃ payload, instruction.payload = some payload := by
  obtain ⟨opcode, known, fits⟩ := shaped
  rw [known, Option.map_some, Option.some.injEq] at isSwitch
  have clear : instruction.shapeFault? opcode = none := by
    unfold checkShape at fits
    split at fits
    · cases fits
    · assumption
  rw [← Option.isSome_iff_exists, (operands_of_shape clear).2.2.2, Opcode.format_of_switch isSwitch]
  rfl

end Instruction

/-! ### Code that control stays in -/

namespace Code

def Leads (code : Code) (instruction : Instruction) (offset : Int32) : Prop :=
  ∃ target, instruction.addr.offsetBy? offset = some target ∧ code.hasInstruction target = true

/-- Code that has an instruction at its entry and wherever one of its instructions
goes on to. -/
structure KeepsFlow (code : Code) : Prop where
  entry : code.hasInstruction 0 = true
  next : ∀ instruction ∈ code.instructions, instruction.endsFlow = false →
    code.hasInstruction instruction.nextAddr = true
  jump : ∀ instruction ∈ code.instructions, ∀ offset ∈ instruction.jumpOffsets,
    code.Leads instruction offset

/-- Whether the types that handlers catch are in the pool. -/
def CatchesTypesOf (code : Code) (pool : Pool) : Prop :=
  ∀ item ∈ code.tries, ∀ handler ∈ item.handlers, ∀ type, handler.exception = some type →
    ∃ descriptor, pool.type type = .ok descriptor

/-- Whether the handlers of a try item are in the code. -/
def HasHandlers (code : Code) (item : TryItem) : Prop :=
  ∀ handler ∈ item.handlers, code.hasInstruction handler.addr = true

instance (code : Code) (item : TryItem) : Decidable (code.HasHandlers item) :=
  inferInstanceAs (Decidable (∀ handler ∈ item.handlers, _))

/-- Whether code is cut before what comes next after an instruction, so that it is
the last one of its block. -/
def IsCutBehind (code : Code) (instruction : Instruction) : Prop :=
  ∀ next, [instruction, next] <:+: code.instructions → code.IsCutAt next.addr

/-- Whether a try item covers an instruction that may throw and is the last of its
block. -/
def Guards (code : Code) (item : TryItem) : Prop :=
  ∃ instruction ∈ code.instructions, instruction.canThrow = true ∧
    item.covers instruction.addr = true ∧ code.IsCutBehind instruction

/-- Whether the handlers met at the ends of blocks are in the code. -/
def KeepsThrows (code : Code) : Prop :=
  ∀ item ∈ code.tries, code.Guards item → code.HasHandlers item

/-- What control gets to from the end of a block is in the code, which is cut there. -/
theorem KeepsFlow.steps {code : Code} (keeps : code.KeepsFlow) (throws : code.KeepsThrows)
    (apart : code.Apart) {last : Instruction} (listed : last ∈ code.instructions)
    (ends : code.IsCutBehind last) {caught : Bool} {addr : Addr}
    (steps : code.Steps last caught addr) :
    code.hasInstruction addr = true ∧ code.IsCutAt addr := by
  cases steps with
  | onward continues =>
      cases continues with
      | next falls =>
          have inside := keeps.next last listed falls
          obtain ⟨next, isNext, follows⟩ := hasInstruction_iff.mp inside
          exact ⟨inside, follows ▸ ends next (apart.neighbours_of_next listed isNext follows)⟩
      | jump isOffset leads =>
          obtain ⟨target, leads', inside⟩ := keeps.jump last listed _ isOffset
          obtain rfl := Option.some.inj (leads'.symm.trans leads)
          exact ⟨inside, .inl ⟨last, listed, .target isOffset leads⟩⟩
  | caught catches =>
      obtain ⟨canThrow, item, isItem, covers, handler, isHandler, rfl⟩ := catches
      exact ⟨throws item isItem ⟨last, listed, canThrow, covers, ends⟩ handler isHandler,
        .inr ⟨item, isItem, .inr (.inr ⟨handler, isHandler, rfl⟩)⟩⟩

end Code

namespace FlowGraph

/-! ### The ways out of an instruction -/

section Ways

variable {code : Code} {instruction : Instruction}

theorem exists_jumpTarget_iff {offset : Int32} :
    (∃ target, jumpTarget code instruction offset = .ok target) ↔ code.Leads instruction offset := by
  simp only [jumpTarget_eq_ok, Code.Leads]

theorem exists_fallthrough_iff :
    (∃ next, fallthrough code instruction = .ok next) ↔
      code.hasInstruction instruction.nextAddr = true := by
  simp only [fallthrough_eq_ok, exists_eq_left]

theorem exists_caseBranches_iff {cases : List (Int32 × Int32)} :
    (∃ ways, caseBranches code instruction cases = .ok ways) ↔
      ∀ offset ∈ cases.map Prod.snd, code.Leads instruction offset := by
  induction cases with
  | nil => simp [caseBranches]
  | cons first rest ih =>
      obtain ⟨key, offset⟩ := first
      rw [List.map_cons, List.forall_mem_cons, ← ih, ← exists_jumpTarget_iff]
      simp only [caseBranches, exists_bind_eq_ok, exists_pure_eq_ok, and_true, exists_and_right]

theorem exists_comparison_iff {offset : Int32} :
    (∃ ways, (do
      let target ← jumpTarget code instruction offset
      let next ← fallthrough code instruction
      return [(Branch.ifTrue, target), (.ifFalse, next)]) = Except.ok ways) ↔
      code.Leads instruction offset ∧ code.hasInstruction instruction.nextAddr = true := by
  rw [← exists_jumpTarget_iff, ← exists_fallthrough_iff]
  simp only [exists_bind_eq_ok, exists_pure_eq_ok, and_true, exists_and_right]

/-- An instruction has its branches exactly if they lead to instructions of the
code. -/
theorem exists_branches_iff (shaped : instruction.WellShaped) :
    (∃ ways, branches code instruction = .ok ways) ↔
      (instruction.isBranching = true → instruction.endsFlow = false →
        code.hasInstruction instruction.nextAddr = true) ∧
      ∀ offset ∈ instruction.jumpOffsets, code.Leads instruction offset := by
  rw [endsFlow_eq]
  unfold branches
  split
  · rename_i offset family given
    rw [exists_bind_eq_ok]
    simp only [exists_pure_eq_ok, and_true, exists_jumpTarget_iff]
    simp [Instruction.isBranching, Instruction.jumpOffsets, family, given, Family.endsFlow]
  · rename_i offset family given
    rw [exists_comparison_iff]
    simp [Instruction.isBranching, Instruction.jumpOffsets, family, given, Family.endsFlow, and_comm]
  · rename_i offset family given
    rw [exists_comparison_iff]
    simp [Instruction.isBranching, Instruction.jumpOffsets, family, given, Family.endsFlow, and_comm]
  · rename_i offset family given
    obtain ⟨payload, table⟩ := shaped.payload family
    simp only [table, exists_bind_eq_ok, exists_pure_eq_ok, and_true, exists_and_right,
      exists_caseBranches_iff, exists_fallthrough_iff]
    simp [Instruction.isBranching, Instruction.jumpOffsets, family, given, table, Family.endsFlow]
  · rename_i notJump notBranch notBranchZero notSwitch
    unfold Instruction.isBranching Instruction.jumpOffsets
    split <;> simp_all

variable {pool : Pool}

/-- An instruction has its ways to handlers if those that it may throw to are in the
code. -/
theorem exists_catches (inside : ∀ addr, code.Catches instruction addr → code.hasInstruction addr = true)
    (resolves : code.CatchesTypesOf pool) :
    ∃ ways, catches code pool instruction = .ok ways := by
  unfold catches
  split
  · rename_i throws
    refine exists_mapM_eq_ok fun handler member => ?_
    obtain ⟨item, isItem, isHandler⟩ := List.mem_flatMap.mp member
    obtain ⟨isItem, covers⟩ := List.mem_filter.mp isItem
    rw [if_pos (inside handler.addr ⟨throws, item, isItem, covers, handler, isHandler, rfl⟩)]
    cases named : handler.exception with
    | none => exact ⟨_, rfl⟩
    | some type =>
        obtain ⟨descriptor, found⟩ := resolves item isItem handler isHandler type named
        exact exists_bind_eq_ok.mpr ⟨descriptor, by rw [found]; rfl, exists_pure_eq_ok⟩
  · exact ⟨[], rfl⟩

/-- An instruction has its continuations if they are in the code. -/
theorem exists_continuations (shaped : instruction.WellShaped)
    (next : instruction.endsFlow = false → code.hasInstruction instruction.nextAddr = true)
    (jumps : ∀ offset ∈ instruction.jumpOffsets, code.Leads instruction offset) :
    ∃ ways, continuations code instruction = .ok ways := by
  obtain ⟨ways, own⟩ := (exists_branches_iff shaped).mpr ⟨fun _ => next, jumps⟩
  refine exists_bind_eq_ok.mpr ⟨ways, own, ?_⟩
  split
  · rename_i falls
    rw [Bool.and_eq_true, Bool.not_eq_true'] at falls
    obtain ⟨next, follows⟩ := exists_fallthrough_iff.mpr (next falls.2)
    exact exists_bind_eq_ok.mpr ⟨next, follows, exists_pure_eq_ok⟩
  · exact exists_pure_eq_ok

end Ways

/-! ### The blocks that edges lead to -/

section Blocks

variable {code : Code} {leaders : SortedSet Addr} {list : List Instruction}

/-- An instruction that leads a block is the first of one. -/
theorem exists_block_of_mem_leaders {instruction : Instruction} (listed : instruction ∈ list)
    (leads : instruction.addr ∈ leaders ∨ ∀ before, ¬ [before, instruction] <:+: list) :
    ∃ block ∈ cutBlocks leaders list, block.start = instruction.addr := by
  rw [← cutBlocks_instructions leaders list, List.mem_flatMap] at listed
  obtain ⟨block, isBlock, inBlock⟩ := listed
  rcases head_or_neighbour inBlock with first | ⟨before, pair⟩
  · exact ⟨block, isBlock, by rw [Block.start, first]; rfl⟩
  · obtain ⟨inList, joins⟩ := neighbours_cutBlocks.mp ⟨block, isBlock, pair⟩
    rcases leads with leads | first
    · exact absurd leads joins
    · exact absurd inList (first before)

/-- The last instruction of a block is the last of all or comes before a leader. -/
theorem last_of_cutBlocks {block : Block} (isBlock : block ∈ cutBlocks leaders list)
    {last : Instruction} (isLast : block.instructions.getLast? = some last) :
    ∃ before after, list = before ++ last :: after ∧
      ∀ next, after.head? = some next → next.addr ∈ leaders := by
  induction list generalizing block with
  | nil => cases isBlock
  | cons instruction rest ih =>
      cases rest with
      | nil =>
          obtain rfl := List.mem_singleton.mp isBlock
          obtain rfl := Option.some.inj isLast
          exact ⟨[], [], rfl, by simp⟩
      | cons next rest =>
          -- A block with others is as long as one of the rest, at its end.
          have later : ∀ other ∈ cutBlocks leaders (next :: rest),
              other.instructions.getLast? = some last → ∃ before after,
                instruction :: next :: rest = before ++ last :: after ∧
                  ∀ next, after.head? = some next → next.addr ∈ leaders := by
            intro other isOther isLast
            obtain ⟨before, after, split, leads⟩ := ih isOther isLast
            exact ⟨instruction :: before, after, by rw [split]; rfl, leads⟩
          rcases cutBlocks_cases leaders instruction next rest with
            ⟨leads, cut⟩ | ⟨joins, run, blocks, cut, cut'⟩
          · rw [cut] at isBlock
            rcases List.mem_cons.mp isBlock with rfl | inRest
            · obtain rfl := Option.some.inj isLast
              refine ⟨[], next :: rest, rfl, ?_⟩
              rintro later isNext
              rwa [← Option.some.inj isNext]
            · exact later block inRest isLast
          · rw [cut'] at isBlock
            rw [cut] at later
            rcases List.mem_cons.mp isBlock with rfl | inRest
            · exact later ⟨next :: run⟩ List.mem_cons_self (by simpa using isLast)
            · exact later block (List.mem_cons_of_mem _ inRest) isLast

theorem exists_lastStartingAt {blocks : List Block} {block : Block} (member : block ∈ blocks)
    (base : Nat) : ∃ number, lastStartingAt block.start base blocks = some number := by
  induction blocks generalizing base with
  | nil => cases member
  | cons first rest ih =>
      rw [lastStartingAt, ← Option.isSome_iff_exists, Option.isSome_or, Bool.or_eq_true]
      rcases List.mem_cons.mp member with rfl | inRest
      · exact .inr (by rw [if_pos rfl]; rfl)
      · exact .inl (Option.isSome_iff_exists.mpr (ih inRest (base + 1)))

/-- A block is found by its address. -/
theorem exists_blockAt {blocks : List Block} {addr : Addr}
    (starts : ∃ block ∈ blocks, block.start = addr) :
    ∃ number, blockAt blocks addr = .ok number := by
  obtain ⟨block, member, rfl⟩ := starts
  obtain ⟨number, found⟩ := exists_lastStartingAt member 0
  exact ⟨number, by rw [blockAt, found]⟩

/-- The edges out of some blocks exist if those of each block do. -/
theorem exists_edgesFrom {pool : Pool} {blocks : List Block} {list : List Block}
    (each : ∀ block ∈ list, ∀ number, ∃ edges, blockEdges code pool blocks number block = .ok edges)
    (base : Nat) : ∃ edges, edgesFrom code pool blocks base list = .ok edges := by
  induction list generalizing base with
  | nil => exact ⟨[], rfl⟩
  | cons first rest ih =>
      obtain ⟨own, others⟩ := List.forall_mem_cons.mp each
      obtain ⟨edges, leave⟩ := own base
      obtain ⟨more, leave'⟩ := ih others (base + 1)
      exact exists_bind_eq_ok.mpr ⟨edges, leave, exists_bind_eq_ok.mpr ⟨more, leave', exists_pure_eq_ok⟩⟩

end Blocks

/-! ### Building -/

section Building

variable {code : Code} {pool : Pool}

theorem Cuts.exists_ofCode (shaped : ∀ instruction ∈ code.instructions, instruction.WellShaped)
    (keeps : code.KeepsFlow) : ∃ cuts, Cuts.ofCode code = .ok cuts := by
  have each : ∀ cuts, ∀ instruction ∈ code.instructions,
      ∃ after, addInstruction code cuts instruction = .ok after := by
    intro cuts instruction listed
    obtain ⟨ways, own⟩ := (exists_branches_iff (shaped instruction listed)).mpr
      ⟨fun _ => keeps.next instruction listed, keeps.jump instruction listed⟩
    refine exists_bind_eq_ok.mpr ⟨ways, own, ?_⟩
    dsimp only
    split
    · rename_i falls
      rw [Bool.and_eq_true, Bool.not_eq_true'] at falls
      obtain ⟨next, follows⟩ := exists_fallthrough_iff.mpr (keeps.next instruction listed falls.2)
      exact exists_bind_eq_ok.mpr ⟨next, follows, exists_pure_eq_ok⟩
    · exact exists_pure_eq_ok
  obtain ⟨cuts, added⟩ := exists_foldlM_eq_ok each {}
  exact exists_bind_eq_ok.mpr ⟨cuts, added, exists_pure_eq_ok⟩

/-- The last instruction of a block has the code cut behind it. -/
theorem isCutBehind_of_getLast (apart : code.Apart) {leaders : SortedSet Addr}
    (cut : ∀ addr, addr ∈ leaders ↔ code.IsCutAt addr) {block : Block}
    (isBlock : block ∈ cutBlocks leaders code.instructions) {last : Instruction}
    (isLast : block.instructions.getLast? = some last) : code.IsCutBehind last := by
  obtain ⟨before, after, split, leads⟩ := last_of_cutBlocks isBlock isLast
  intro next ⟨before', after', split'⟩
  have nodup := apart.nodup
  rw [← split', List.append_assoc, List.cons_append, List.nodup_middle, List.nodup_cons,
    List.mem_append, not_or] at nodup
  have same : before' ++ last :: (next :: after') = before ++ last :: after := by
    rw [← split, ← split', List.append_assoc]
    rfl
  obtain ⟨-, -, rfl⟩ := (List.append_cons_inj_of_notMem nodup.1.1 nodup.1.2).mp same
  exact (cut next.addr).mp (leads next rfl)

/-- The edges out of a block exist if control stays in the code. -/
theorem exists_blockEdges (apart : code.Apart)
    (shaped : ∀ instruction ∈ code.instructions, instruction.WellShaped)
    (resolves : code.CatchesTypesOf pool)
    (keeps : code.KeepsFlow) (throws : code.KeepsThrows) {leaders : SortedSet Addr}
    (cut : ∀ addr, addr ∈ leaders ↔ code.IsCutAt addr) {block : Block}
    (isBlock : block ∈ cutBlocks leaders code.instructions) (number : Nat) :
    ∃ edges, blockEdges code pool (cutBlocks leaders code.instructions) number block = .ok edges := by
  unfold blockEdges
  split
  · exact ⟨[], rfl⟩
  · rename_i last isLast
    have listed : last ∈ code.instructions := by
      rw [← cutBlocks_instructions leaders code.instructions]
      exact List.mem_flatMap.mpr ⟨block, isBlock, List.mem_of_getLast? isLast⟩
    have ends := isCutBehind_of_getLast apart cut isBlock isLast
    have stays : ∀ caught addr, code.Steps last caught addr →
        code.hasInstruction addr = true ∧ code.IsCutAt addr :=
      fun caught addr steps => keeps.steps throws apart listed ends steps
    obtain ⟨onward, goes⟩ := exists_continuations (shaped last listed) (keeps.next last listed)
      (keeps.jump last listed)
    obtain ⟨handled, caught⟩ :=
      exists_catches (fun addr catches => (stays true addr (.caught catches)).1) resolves
    have leaves : exits code pool last = .ok (onward ++ handled) :=
      bind_eq_ok.mpr ⟨onward, goes, bind_eq_ok.mpr ⟨handled, caught, rfl⟩⟩
    refine exists_bind_eq_ok.mpr ⟨_, leaves, exists_mapM_eq_ok ?_⟩
    rintro ⟨branch, addr⟩ isWay
    obtain ⟨inside, isCut⟩ :=
      stays branch.isCatch addr ((exits_eq_ok leaves _ _).mp ⟨branch, rfl, isWay⟩)
    obtain ⟨target, isTarget, rfl⟩ := Code.hasInstruction_iff.mp inside
    obtain ⟨number, found⟩ :=
      exists_blockAt (exists_block_of_mem_leaders isTarget (.inl ((cut target.addr).mpr isCut)))
    exact exists_bind_eq_ok.mpr ⟨number, found, exists_pure_eq_ok⟩

/-- Code that control stays in has a flow graph. -/
theorem exists_build (apart : code.Apart)
    (shaped : ∀ instruction ∈ code.instructions, instruction.WellShaped)
    (resolves : code.CatchesTypesOf pool)
    (keeps : code.KeepsFlow) (throws : code.KeepsThrows) : ∃ graph, build code pool = .ok graph := by
  obtain ⟨first, isFirst, atEntry⟩ := Code.hasInstruction_iff.mp keeps.entry
  have alone : ∀ before, ¬ [before, first] <:+: code.instructions := by
    intro before pair
    have order := (apart.neighbours pair isFirst).1
    have size := before.addr_lt_nextAddr
    lia
  obtain ⟨cuts, isCuts⟩ := Cuts.exists_ofCode shaped keeps
  have cut := (Cuts.ofCode_eq_ok isCuts).1
  obtain ⟨edges, leave⟩ := exists_edgesFrom
    (fun block isBlock number => exists_blockEdges apart shaped resolves keeps throws cut isBlock number) 0
  obtain ⟨start, begins⟩ := exists_blockAt (exists_block_of_mem_leaders isFirst (.inr alone))
  rw [atEntry] at begins
  unfold build
  rw [if_neg (by simpa using List.ne_nil_of_mem isFirst)]
  exact exists_bind_eq_ok.mpr ⟨cuts, isCuts, exists_bind_eq_ok.mpr ⟨edges, leave,
    exists_bind_eq_ok.mpr ⟨start, begins, exists_pure_eq_ok⟩⟩⟩

theorem Cuts.leads_of_ofCode (shaped : ∀ instruction ∈ code.instructions, instruction.WellShaped)
    {cuts : Cuts} (success : Cuts.ofCode code = .ok cuts) :
    ∀ instruction ∈ code.instructions, ∀ offset ∈ instruction.jumpOffsets,
      code.Leads instruction offset := by
  intro instruction listed
  obtain ⟨middle, added, -⟩ := bind_eq_ok.mp success
  obtain ⟨before, after, one⟩ := exists_of_foldlM_eq_ok added listed
  obtain ⟨ways, own, -⟩ := bind_eq_ok.mp one
  exact ((exists_branches_iff (shaped instruction listed)).mp ⟨ways, own⟩).2

/-- Code that has a flow graph has an instruction where control goes on to. -/
theorem keepsFlow_of_build (shaped : ∀ instruction ∈ code.instructions, instruction.WellShaped)
    {graph : FlowGraph} (success : build code pool = .ok graph) : code.KeepsFlow := by
  have built := build_eq_ok success
  obtain ⟨start, place, atEntry⟩ := built.start
  obtain ⟨first, inStart, atStart⟩ := built.exists_start (List.mem_of_getElem? place)
  have isFirst := built.mem_instructions.mpr ⟨start, List.mem_of_getElem? place, inStart⟩
  unfold build at success
  split at success
  · cases success
  · obtain ⟨cuts, isCuts, -⟩ := bind_eq_ok.mp success
    exact {
      entry := Code.hasInstruction_iff.mpr ⟨first, isFirst, atStart.trans atEntry⟩
      next := built.falls
      jump := Cuts.leads_of_ofCode shaped isCuts }

/-- A try item that guards code with a flow graph has its handlers in the code. -/
theorem Built.hasHandlers {graph : FlowGraph} (built : Built code graph) {item : TryItem}
    (isItem : item ∈ code.tries) (guards : code.Guards item) : code.HasHandlers item := by
  obtain ⟨instruction, listed, canThrow, covers, ends⟩ := guards
  obtain ⟨block, isBlock, inBlock⟩ := built.mem_instructions.mp listed
  intro handler isHandler
  rcases last_or_neighbour inBlock with isLast | ⟨next, pair⟩
  · obtain ⟨number, place⟩ := List.getElem?_of_mem isBlock
    obtain ⟨edge, -, -, -, target, placeTarget, starts⟩ := built.steps_edge number block instruction
      true handler.addr place isLast (.caught ⟨canThrow, item, isItem, covers, handler, isHandler, rfl⟩)
    obtain ⟨first, inTarget, atStart⟩ := built.exists_start (List.mem_of_getElem? placeTarget)
    exact Code.hasInstruction_iff.mpr ⟨first, built.mem_instructions.mpr
      ⟨target, List.mem_of_getElem? placeTarget, inTarget⟩, atStart.trans starts⟩
  · obtain ⟨inCode, inside⟩ := (built.neighbours instruction next).mp ⟨block, isBlock, pair⟩
    exact absurd (ends next inCode) inside

/-- Code has a flow graph exactly if it has an instruction at its entry and where
its instructions go on to, and the handlers of the try items that guard it.  If
the try items have their handlers unless they guard the code, it has to have those
of all. -/
theorem build_accepts_iff (apart : code.Apart)
    (shaped : ∀ instruction ∈ code.instructions, instruction.WellShaped)
    (resolves : code.CatchesTypesOf pool) :
    ((∃ graph, build code pool = .ok graph) ↔ code.KeepsFlow ∧ code.KeepsThrows) ∧
      ((∀ item ∈ code.tries, code.HasHandlers item ∨ code.Guards item) →
        ((∃ graph, build code pool = .ok graph) ↔
          code.KeepsFlow ∧ ∀ item ∈ code.tries, code.HasHandlers item)) := by
  have accepts : (∃ graph, build code pool = .ok graph) ↔ code.KeepsFlow ∧ code.KeepsThrows := by
    constructor
    · rintro ⟨graph, success⟩
      exact ⟨keepsFlow_of_build shaped success,
        fun item isItem guards => (build_eq_ok success).hasHandlers isItem guards⟩
    · rintro ⟨keeps, throws⟩
      exact exists_build apart shaped resolves keeps throws
  refine ⟨accepts, fun looked => accepts.trans (and_congr_right fun _ => ?_)⟩
  constructor
  · exact fun throws item isItem => (looked item isItem).elim id (throws item isItem)
  · exact fun has item isItem _ => has item isItem

end Building

end FlowGraph

/-- An instruction under a try item whose handler is at the given address, before
the end of a method. -/
def Code.underTry (opcode : Opcode) (regs : List Reg) (handler : Addr) : Code where
  method := 0
  flags := ⟨8⟩
  registers := 1
  instructions := [.ofOpcode 0 opcode regs none none, .ofOpcode 1 .returnVoid [] none none]
  tries := [⟨0, 1, [⟨none, handler⟩]⟩]

namespace FlowGraph

theorem catchesTypesOf_underTry (opcode : Opcode) (regs : List Reg) (handler : Addr) :
    (Code.underTry opcode regs handler).CatchesTypesOf .empty := by
  simp [Code.CatchesTypesOf, Code.underTry]

theorem wellShaped_underTry_throw (handler : Addr) :
    ∀ instruction ∈ (Code.underTry .throw [.ofNat 0] handler).instructions, instruction.WellShaped := by
  refine List.forall_mem_cons.mpr ⟨⟨.throw, by decide, rfl⟩, List.forall_mem_singleton.mpr ?_⟩
  exact ⟨.returnVoid, by decide, rfl⟩

/-- A `throw` is the last instruction of its block. -/
theorem guards_underTry_throw (handler : Addr) :
    ∀ item ∈ (Code.underTry .throw [.ofNat 0] handler).tries,
      (Code.underTry .throw [.ofNat 0] handler).Guards item := by
  refine List.forall_mem_singleton.mpr ⟨_, List.mem_cons_self, by decide, rfl, ?_⟩
  intro next pair
  obtain ⟨-, isNext⟩ | other := neighbours_cons.mp pair
  · obtain rfl := Option.some.inj isNext
    exact .inl ⟨_, List.mem_cons_self, .after (.inr (.inl (by decide)))⟩
  · simp [neighbours_cons] at other

/-- A method that throws is accepted with a handler on its `return-void` and
rejected with one behind it. -/
theorem build_underTry_throw :
    (∃ graph, build (.underTry .throw [.ofNat 0] 1) .empty = .ok graph) ∧
      ¬ ∃ graph, build (.underTry .throw [.ofNat 0] 2) .empty = .ok graph := by
  have keeps : (Code.underTry .throw [.ofNat 0] 1).KeepsFlow := {
    entry := by decide
    next := by decide
    jump := by
      have none : ∀ instruction ∈ (Code.underTry .throw [.ofNat 0] 1).instructions,
          instruction.jumpOffsets = [] := by decide
      intro instruction listed offset isOffset
      rw [none instruction listed] at isOffset
      cases isOffset }
  constructor
  · refine ((build_accepts_iff (by decide) (wellShaped_underTry_throw 1)
      (catchesTypesOf_underTry _ _ 1)).2 ?_).mpr ⟨keeps, by decide⟩
    exact fun item isItem => .inr (guards_underTry_throw 1 item isItem)
  · intro accepted
    have has := (((build_accepts_iff (by decide) (wellShaped_underTry_throw 2)
      (catchesTypesOf_underTry _ _ 2)).2
        fun item isItem => .inr (guards_underTry_throw 2 item isItem)).mp accepted).2
    exact absurd has (by decide)

/-- A `nop` does not throw: the handler of its try item is not looked at, and the
method is accepted although the handler is not in the code. -/
theorem build_underTry_nop :
    (Code.underTry .nop [] 2).Apart ∧
      (∀ instruction ∈ (Code.underTry .nop [] 2).instructions, instruction.WellShaped) ∧
      (Code.underTry .nop [] 2).CatchesTypesOf .empty ∧
      (∃ graph, build (.underTry .nop [] 2) .empty = .ok graph) ∧
      ¬ ∀ item ∈ (Code.underTry .nop [] 2).tries, (Code.underTry .nop [] 2).HasHandlers item := by
  obtain ⟨graph, success, -⟩ : ∃ graph, build (.underTry .nop [] 2) .empty = .ok graph ∧
      graph.blocks.length = 2 := exists_ok_of_decide (by decide)
  refine ⟨by decide, ?_, catchesTypesOf_underTry _ _ 2, ⟨graph, success⟩, by decide⟩
  refine List.forall_mem_cons.mpr ⟨⟨.nop, by decide, rfl⟩, List.forall_mem_singleton.mpr ?_⟩
  exact ⟨.returnVoid, by decide, rfl⟩

end FlowGraph

end Dalvik
