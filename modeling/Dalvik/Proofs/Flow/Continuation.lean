import Dalvik.Flow.Build
import Dalvik.Proofs.Success

/-!
# Where control goes from an instruction

An instruction that completes goes on to the next address, unless it ends the
flow, or to where one of its offsets leads.  One that throws goes to a handler
of a try item that covers it.  The ways out that flow graphs are built from are
these, and code is cut around them.
-/

namespace Dalvik

namespace Instruction

def jumpOffsets (instruction : Instruction) : List Int32 :=
  match instruction.opcode.map Opcode.family, instruction.offset with
  | some .goto, some offset | some .branch, some offset | some .branchZero, some offset => [offset]
  | some .switch, some _ => (instruction.payload.elim [] Payload.cases).map Prod.snd
  | _, _ => []

/-- Whether the instruction chooses where to go on itself. -/
def isBranching (instruction : Instruction) : Bool :=
  match instruction.opcode.map Opcode.family, instruction.offset with
  | some .goto, some _ | some .branch, some _ | some .branchZero, some _ | some .switch, some _ =>
      true
  | _, _ => false

/-- Where control may go when the instruction completes. -/
inductive Continues (instruction : Instruction) : Addr → Prop where
  | next (falls : instruction.endsFlow = false) : Continues instruction instruction.nextAddr
  | jump {offset : Int32} {target : Addr} (listed : offset ∈ instruction.jumpOffsets)
      (leads : instruction.addr.offsetBy? offset = some target) : Continues instruction target

end Instruction

def Code.Catches (code : Code) (instruction : Instruction) (addr : Addr) : Prop :=
  instruction.canThrow = true ∧ ∃ item ∈ code.tries, item.covers instruction.addr = true ∧
    ∃ handler ∈ item.handlers, handler.addr = addr

/-- A step of control: an instruction completes and control goes on, or it throws
and is caught. -/
inductive Code.Steps (code : Code) (instruction : Instruction) : Bool → Addr → Prop where
  | onward {addr : Addr} (continues : instruction.Continues addr) :
      Steps code instruction false addr
  | caught {addr : Addr} (catches : code.Catches instruction addr) :
      Steps code instruction true addr

theorem Code.hasInstruction_iff {code : Code} {addr : Addr} :
    code.hasInstruction addr = true ↔ ∃ instruction ∈ code.instructions, instruction.addr = addr := by
  simp [Code.hasInstruction]

namespace FlowGraph

theorem jumpTarget_eq_ok {code : Code} {instruction : Instruction} {offset : Int32} {target : Addr} :
    jumpTarget code instruction offset = .ok target ↔
      instruction.addr.offsetBy? offset = some target ∧ code.hasInstruction target = true := by
  unfold jumpTarget
  cases instruction.addr.offsetBy? offset with
  | none => simp [badTarget]
  | some found =>
      by_cases present : code.hasInstruction found = true
      · simp only [present, if_true, Except.ok.injEq, Option.some.injEq]
        constructor
        · rintro rfl
          exact ⟨rfl, present⟩
        · exact fun both => both.1
      · simp only [present, Bool.false_eq_true, if_false, badTarget, reduceCtorEq, false_iff,
          Option.some.injEq, not_and]
        rintro rfl
        exact present

theorem fallthrough_eq_ok {code : Code} {instruction : Instruction} {next : Addr} :
    fallthrough code instruction = .ok next ↔
      next = instruction.nextAddr ∧ code.hasInstruction instruction.nextAddr = true := by
  unfold fallthrough
  split
  · rename_i present
    simp [present, eq_comm]
  · rename_i absent
    simp [badTarget, absent]

/-- The branches of a switch lead where the offsets of its cases do. -/
theorem caseBranches_eq_ok {code : Code} {instruction : Instruction} {cases : List (Int32 × Int32)}
    {ways : List (Branch × Addr)} (success : caseBranches code instruction cases = .ok ways)
    (target : Addr) :
    (∃ branch, (branch, target) ∈ ways) ↔
      ∃ offset ∈ cases.map Prod.snd, instruction.addr.offsetBy? offset = some target := by
  induction cases generalizing ways with
  | nil =>
      obtain rfl : [] = ways := Except.ok.inj success
      simp
  | cons first rest ih =>
      obtain ⟨key, offset⟩ := first
      simp only [caseBranches, bind_eq_ok, pure_eq_ok] at success
      obtain ⟨firstTarget, found, others, more, rfl⟩ := success
      have leads := (jumpTarget_eq_ok.mp found).1
      simp only [List.mem_cons, Prod.mk.injEq, exists_or, ih more, List.map_cons, exists_eq_or_imp,
        leads, Option.some.injEq]
      simp [eq_comm]

theorem eq_jumpTarget_iff {code : Code} {instruction : Instruction} {offset : Int32} {target : Addr}
    (found : jumpTarget code instruction offset = .ok target) (other : Addr) :
    other = target ↔ instruction.addr.offsetBy? offset = some other := by
  rw [(jumpTarget_eq_ok.mp found).1, Option.some.injEq, eq_comm]

/-- A comparison leads on, or to where its offset does. -/
theorem comparison_ways {code : Code} {instruction : Instruction} {offset : Int32}
    {ways : List (Branch × Addr)}
    (success : (do
      let target ← jumpTarget code instruction offset
      let next ← fallthrough code instruction
      return [(.ifTrue, target), (.ifFalse, next)]) = Except.ok ways) :
    ways ≠ [] ∧ ∀ other, (∃ branch, (branch, other) ∈ ways) ↔
      other = instruction.nextAddr ∨ instruction.addr.offsetBy? offset = some other := by
  simp only [bind_eq_ok, pure_eq_ok] at success
  obtain ⟨target, found, next, falls, rfl⟩ := success
  obtain ⟨rfl, -⟩ := fallthrough_eq_ok.mp falls
  refine ⟨List.cons_ne_nil _ _, fun other => ?_⟩
  simp [exists_or, eq_jumpTarget_iff found, or_comm]

theorem endsFlow_eq (instruction : Instruction) :
    instruction.endsFlow =
      ((instruction.opcode.map Opcode.family).map Family.endsFlow).getD false := by
  rw [Option.map_map]
  rfl

/-- An instruction lists ways out if it branches: to the next address unless it
ends the flow, and to where its offsets lead. -/
theorem branches_eq_ok {code : Code} {instruction : Instruction} {ways : List (Branch × Addr)}
    (success : branches code instruction = .ok ways) :
    (ways = [] ↔ instruction.isBranching = false) ∧
      ∀ target, (∃ branch, (branch, target) ∈ ways) ↔
        (instruction.isBranching = true ∧ instruction.endsFlow = false ∧
            target = instruction.nextAddr) ∨
          ∃ offset ∈ instruction.jumpOffsets, instruction.addr.offsetBy? offset = some target := by
  rw [endsFlow_eq]
  unfold branches at success
  split at success
  · rename_i offset family given
    simp only [bind_eq_ok, pure_eq_ok] at success
    obtain ⟨target, found, rfl⟩ := success
    simp [Instruction.isBranching, Instruction.jumpOffsets, family, given, Family.endsFlow,
      eq_jumpTarget_iff found]
  · rename_i offset family given
    obtain ⟨some, ways⟩ := comparison_ways success
    simp [Instruction.isBranching, Instruction.jumpOffsets, family, given, Family.endsFlow, some, ways]
  · rename_i offset family given
    obtain ⟨some, ways⟩ := comparison_ways success
    simp [Instruction.isBranching, Instruction.jumpOffsets, family, given, Family.endsFlow, some, ways]
  · rename_i offset family given
    cases table : instruction.payload with
    | none => simp [table, malformed] at success
    | some payload =>
        simp only [table, bind_eq_ok, pure_eq_ok] at success
        obtain ⟨next, falls, cases, others, rfl⟩ := success
        obtain ⟨rfl, -⟩ := fallthrough_eq_ok.mp falls
        have led := caseBranches_eq_ok others
        simp [Instruction.isBranching, Instruction.jumpOffsets, family, given, table,
          Family.endsFlow, exists_or, led]
  · rename_i notJump notBranch notBranchZero notSwitch
    obtain rfl : [] = ways := Except.ok.inj success
    unfold Instruction.isBranching Instruction.jumpOffsets
    constructor
    · split <;> simp_all
    · intro target
      split <;> simp_all

def StaysIn (code : Code) (way : Branch × Addr) : Prop :=
  way.1.isCatch = false ∧ code.hasInstruction way.2 = true

theorem caseBranches_stay {code : Code} {instruction : Instruction} {cases : List (Int32 × Int32)}
    {ways : List (Branch × Addr)} (success : caseBranches code instruction cases = .ok ways) :
    ∀ way ∈ ways, StaysIn code way := by
  induction cases generalizing ways with
  | nil =>
      obtain rfl : [] = ways := Except.ok.inj success
      simp
  | cons first rest ih =>
      obtain ⟨key, offset⟩ := first
      simp only [caseBranches, bind_eq_ok, pure_eq_ok] at success
      obtain ⟨target, found, others, more, rfl⟩ := success
      intro way member
      rcases List.mem_cons.mp member with rfl | inOthers
      · exact ⟨rfl, (jumpTarget_eq_ok.mp found).2⟩
      · exact ih more way inOthers

theorem comparison_stays {code : Code} {instruction : Instruction} {offset : Int32}
    {ways : List (Branch × Addr)}
    (success : (do
      let target ← jumpTarget code instruction offset
      let next ← fallthrough code instruction
      return [(.ifTrue, target), (.ifFalse, next)]) = Except.ok ways) :
    ∀ way ∈ ways, StaysIn code way := by
  simp only [bind_eq_ok, pure_eq_ok] at success
  obtain ⟨target, found, next, falls, rfl⟩ := success
  obtain ⟨rfl, inside⟩ := fallthrough_eq_ok.mp falls
  intro way member
  rcases List.mem_cons.mp member with rfl | last
  · exact ⟨rfl, (jumpTarget_eq_ok.mp found).2⟩
  · rw [List.mem_singleton.mp last]
    exact ⟨rfl, inside⟩

theorem branches_stay {code : Code} {instruction : Instruction} {ways : List (Branch × Addr)}
    (success : branches code instruction = .ok ways) : ∀ way ∈ ways, StaysIn code way := by
  unfold branches at success
  split at success
  · simp only [bind_eq_ok, pure_eq_ok] at success
    obtain ⟨target, found, rfl⟩ := success
    intro way member
    rw [List.mem_singleton.mp member]
    exact ⟨rfl, (jumpTarget_eq_ok.mp found).2⟩
  · exact comparison_stays success
  · exact comparison_stays success
  · cases table : instruction.payload with
    | none => simp [table, malformed] at success
    | some payload =>
        simp only [table, bind_eq_ok, pure_eq_ok] at success
        obtain ⟨next, falls, cases, others, rfl⟩ := success
        obtain ⟨rfl, inside⟩ := fallthrough_eq_ok.mp falls
        intro way member
        rcases List.mem_cons.mp member with rfl | inCases
        · exact ⟨rfl, inside⟩
        · exact caseBranches_stay others way inCases
  · obtain rfl : [] = ways := Except.ok.inj success
    simp

theorem jumpOffsets_of_not_branching {instruction : Instruction}
    (not : instruction.isBranching = false) : instruction.jumpOffsets = [] := by
  unfold Instruction.isBranching at not
  unfold Instruction.jumpOffsets
  split <;> simp_all

/-- The ways on from an instruction are those it continues to. -/
theorem continuations_eq_ok {code : Code} {instruction : Instruction} {ways : List (Branch × Addr)}
    (success : continuations code instruction = .ok ways) :
    (∀ way ∈ ways, StaysIn code way) ∧
      ∀ target, (∃ branch, (branch, target) ∈ ways) ↔ instruction.Continues target := by
  simp only [continuations, bind_eq_ok] at success
  obtain ⟨made, own, success⟩ := success
  obtain ⟨none, led⟩ := branches_eq_ok own
  split at success
  · rename_i falls
    rw [Bool.and_eq_true, List.isEmpty_iff, Bool.not_eq_true'] at falls
    simp only [bind_eq_ok, pure_eq_ok] at success
    obtain ⟨next, follows, rfl⟩ := success
    obtain ⟨rfl, inside⟩ := fallthrough_eq_ok.mp follows
    have noJumps := jumpOffsets_of_not_branching (none.mp falls.1)
    constructor
    · intro way member
      rw [List.mem_singleton.mp member]
      exact ⟨rfl, inside⟩
    · intro target
      constructor
      · rintro ⟨branch, member⟩
        rw [(Prod.mk.inj (List.mem_singleton.mp member)).2]
        exact .next falls.2
      · intro continues
        cases continues with
        | next _ => exact ⟨.sequence, List.mem_singleton_self _⟩
        | jump listed _ => simp [noJumps] at listed
  · rename_i own'
    obtain rfl := pure_eq_ok.mp success
    refine ⟨branches_stay own, fun target => ?_⟩
    rw [led]
    constructor
    · rintro (⟨-, falls, rfl⟩ | ⟨offset, listed, leads⟩)
      · exact .next falls
      · exact .jump listed leads
    · intro continues
      cases continues with
      | next falls =>
          refine .inl ⟨?_, falls, rfl⟩
          by_contra notBranching
          exact own' (by simp [none.mpr (Bool.eq_false_iff.mpr notBranching), falls])
      | jump listed leads => exact .inr ⟨_, listed, leads⟩

/-- The way to a handler, if it is in the code. -/
theorem handlerWay_eq_ok {code : Code} {pool : Pool} {instruction : Instruction}
    {handler : Handler} {way : Branch × Addr}
    (success : (if code.hasInstruction handler.addr then
      match handler.exception with
      | some type => do
          let type ← liftCode (pool.type type)
          return (.catchType type, handler.addr)
      | none => .ok (.catchAll, handler.addr)
      else badTarget instruction (instruction.addr.distanceTo handler.addr)) = Except.ok way) :
    way.1.isCatch = true ∧ way.2 = handler.addr ∧ code.hasInstruction way.2 = true := by
  split at success
  · rename_i inside
    split at success
    · simp only [bind_eq_ok, pure_eq_ok] at success
      obtain ⟨type, -, rfl⟩ := success
      exact ⟨rfl, rfl, inside⟩
    · obtain rfl := Except.ok.inj success
      exact ⟨rfl, rfl, inside⟩
  · simp [badTarget] at success

/-- The ways to handlers are those by which an instruction that throws is caught. -/
theorem catches_eq_ok {code : Code} {pool : Pool} {instruction : Instruction}
    {ways : List (Branch × Addr)} (success : catches code pool instruction = .ok ways) :
    (∀ way ∈ ways, way.1.isCatch = true ∧ code.hasInstruction way.2 = true) ∧
      ∀ target, (∃ branch, (branch, target) ∈ ways) ↔ code.Catches instruction target := by
  unfold catches at success
  split at success
  · rename_i throws
    have listed : ∀ handler, handler ∈ (code.tries.filter (·.covers instruction.addr)).flatMap
        TryItem.handlers ↔ ∃ item ∈ code.tries, item.covers instruction.addr = true ∧
          handler ∈ item.handlers := by
      simp only [List.mem_flatMap, List.mem_filter, and_assoc, implies_true]
    refine ⟨fun way member => ?_, fun target => ⟨?_, ?_⟩⟩
    · obtain ⟨handler, -, done⟩ := (mem_of_mapM_eq_ok success way).mp member
      obtain ⟨isCatch, -, inside⟩ := handlerWay_eq_ok done
      exact ⟨isCatch, inside⟩
    · rintro ⟨branch, member⟩
      obtain ⟨handler, inHandlers, done⟩ := (mem_of_mapM_eq_ok success _).mp member
      obtain ⟨item, inTries, covers, inItem⟩ := (listed handler).mp inHandlers
      exact ⟨throws, item, inTries, covers, handler, inItem, (handlerWay_eq_ok done).2.1.symm⟩
    · rintro ⟨-, item, inTries, covers, handler, inItem, rfl⟩
      obtain ⟨⟨branch, addr⟩, inWays, done⟩ := exists_of_mapM_eq_ok success
        ((listed handler).mpr ⟨item, inTries, covers, inItem⟩)
      have same : addr = handler.addr := (handlerWay_eq_ok done).2.1
      exact ⟨branch, same ▸ inWays⟩
  · rename_i quiet
    obtain rfl : [] = ways := Except.ok.inj success
    simp [Code.Catches, quiet]

/-- The ways out of a block are the steps from its last instruction. -/
theorem exits_eq_ok {code : Code} {pool : Pool} {instruction : Instruction}
    {ways : List (Branch × Addr)} (success : exits code pool instruction = .ok ways)
    (caught : Bool) (target : Addr) :
    (∃ branch : Branch, branch.isCatch = caught ∧ (branch, target) ∈ ways) ↔
      code.Steps instruction caught target := by
  simp only [exits, bind_eq_ok, pure_eq_ok] at success
  obtain ⟨onward, goes, handled, throws, rfl⟩ := success
  obtain ⟨stay, continues⟩ := continuations_eq_ok goes
  obtain ⟨areCatches, catches⟩ := catches_eq_ok throws
  constructor
  · rintro ⟨branch, rfl, member⟩
    rcases List.mem_append.mp member with inOnward | inHandled
    · rw [(stay _ inOnward).1]
      exact .onward ((continues target).mp ⟨branch, inOnward⟩)
    · rw [(areCatches _ inHandled).1]
      exact .caught ((catches target).mp ⟨branch, inHandled⟩)
  · intro steps
    cases steps with
    | onward goesOn =>
        obtain ⟨branch, member⟩ := (continues target).mpr goesOn
        exact ⟨branch, (stay _ member).1, List.mem_append_left _ member⟩
    | caught isCaught =>
        obtain ⟨branch, member⟩ := (catches target).mpr isCaught
        exact ⟨branch, (areCatches _ member).1, List.mem_append_right _ member⟩

end FlowGraph

/-- The addresses at which code is cut for an instruction: the next one if it
branches, throws or ends the flow, its own if it throws, and those it jumps to. -/
inductive Instruction.CutsAt (instruction : Instruction) : Addr → Prop where
  | after (leaves : instruction.isBranching = true ∨ instruction.canThrow = true ∨
      instruction.endsFlow = true) : CutsAt instruction instruction.nextAddr
  | thrower (throws : instruction.canThrow = true) : CutsAt instruction instruction.addr
  | target {offset : Int32} {addr : Addr} (listed : offset ∈ instruction.jumpOffsets)
      (leads : instruction.addr.offsetBy? offset = some addr) : CutsAt instruction addr

/-- The addresses at which code is cut for a try item: its bounds and its handlers. -/
def TryItem.CutsAt (item : TryItem) (addr : Addr) : Prop :=
  addr = item.start ∨ addr = item.stop ∨ ∃ handler ∈ item.handlers, handler.addr = addr

def Code.IsCutAt (code : Code) (addr : Addr) : Prop :=
  (∃ instruction ∈ code.instructions, instruction.CutsAt addr) ∨
    ∃ item ∈ code.tries, item.CutsAt addr

namespace FlowGraph.Cuts

theorem addInstruction_eq_ok {code : Code} {before after : Cuts} {instruction : Instruction}
    (success : addInstruction code before instruction = .ok after) :
    (∀ addr, addr ∈ after.leaders ↔ addr ∈ before.leaders ∨ instruction.CutsAt addr) ∧
    (instruction.endsFlow = false → code.hasInstruction instruction.nextAddr = true) := by
  simp only [addInstruction, bind_eq_ok] at success
  obtain ⟨ways, own, success⟩ := success
  obtain ⟨none, led⟩ := branches_eq_ok own
  have fields : after.leaders = ((if (!ways.isEmpty || instruction.canThrow || instruction.endsFlow)
      then [instruction.nextAddr] else []) ++ ways.map Prod.snd ++
      (if instruction.canThrow then [instruction.addr] else [])).foldl SortedSet.insert
        before.leaders ∧
      (instruction.endsFlow = false → code.hasInstruction instruction.nextAddr = true) := by
    split at success
    · simp only [bind_eq_ok, pure_eq_ok] at success
      obtain ⟨next, falls, rfl⟩ := success
      exact ⟨rfl, fun _ => (fallthrough_eq_ok.mp falls).2⟩
    · rename_i leaves
      obtain rfl := pure_eq_ok.mp success
      refine ⟨rfl, fun falls => ?_⟩
      have branching : instruction.isBranching = true := by
        by_contra notBranching
        exact leaves (by simp [none.mpr (Bool.eq_false_iff.mpr notBranching), falls])
      obtain ⟨branch, member⟩ := (led instruction.nextAddr).mpr (.inl ⟨branching, falls, rfl⟩)
      exact (branches_stay own _ member).2
  refine ⟨fun addr => ?_, fields.2⟩
  have isDestination : addr ∈ ways.map Prod.snd ↔ ∃ branch, (branch, addr) ∈ ways := by
    simp
  have branching : ways.isEmpty = false ↔ instruction.isBranching = true := by
    rw [List.isEmpty_eq_false_iff, ne_eq, none, Bool.not_eq_false]
  rw [fields.1, SortedSet.mem_foldl_insert]
  simp only [List.mem_append, isDestination, led, Bool.or_eq_true, Bool.not_eq_true', branching,
    List.mem_ite_nil_right, List.mem_singleton]
  refine or_congr_right ⟨?_, ?_⟩
  · rintro ((⟨leaves, rfl⟩ | ⟨branches, -, rfl⟩ | ⟨offset, listed, leads⟩) | ⟨throws, rfl⟩)
    · exact .after (or_assoc.mp leaves)
    · exact .after (.inl branches)
    · exact .target listed leads
    · exact .thrower throws
  · intro cuts
    cases cuts with
    | after leaves => exact .inl (.inl ⟨or_assoc.mpr leaves, rfl⟩)
    | thrower throws => exact .inr ⟨throws, rfl⟩
    | target listed leads => exact .inl (.inr (.inr ⟨_, listed, leads⟩))

theorem addInstructions_eq_ok {code : Code} {list : List Instruction} {before after : Cuts}
    (success : list.foldlM (addInstruction code) before = .ok after) :
    (∀ addr, addr ∈ after.leaders ↔
      addr ∈ before.leaders ∨ ∃ instruction ∈ list, instruction.CutsAt addr) ∧
    ∀ instruction ∈ list, instruction.endsFlow = false →
      code.hasInstruction instruction.nextAddr = true := by
  induction list generalizing before with
  | nil =>
      obtain rfl := pure_eq_ok.mp success
      simp
  | cons first rest ih =>
      rw [List.foldlM_cons, bind_eq_ok] at success
      obtain ⟨middle, added, more⟩ := success
      obtain ⟨cuts, falls⟩ := addInstruction_eq_ok added
      obtain ⟨others, fallOthers⟩ := ih more
      constructor
      · intro addr
        rw [others, cuts, or_assoc, List.exists_mem_cons_iff]
      · exact List.forall_mem_cons.mpr ⟨falls, fallOthers⟩

theorem addTries_leaders {items : List TryItem} {cuts : Cuts} {addr : Addr} :
    addr ∈ (items.foldl addTry cuts).leaders ↔
      addr ∈ cuts.leaders ∨ ∃ item ∈ items, item.CutsAt addr := by
  induction items generalizing cuts with
  | nil => simp
  | cons first rest ih =>
      have one : addr ∈ (cuts.addTry first).leaders ↔ addr ∈ cuts.leaders ∨ first.CutsAt addr := by
        simp only [addTry, SortedSet.mem_foldl_insert, List.mem_cons, List.mem_map, TryItem.CutsAt]
      rw [List.foldl_cons, ih, one, or_assoc, List.exists_mem_cons_iff]

/-- Code is cut where its instructions and try items say, and an instruction that
falls through has one to fall to. -/
theorem ofCode_eq_ok {code : Code} {cuts : Cuts} (success : ofCode code = .ok cuts) :
    (∀ addr, addr ∈ cuts.leaders ↔ code.IsCutAt addr) ∧
      ∀ instruction ∈ code.instructions, instruction.endsFlow = false →
        code.hasInstruction instruction.nextAddr = true := by
  simp only [ofCode, bind_eq_ok, pure_eq_ok] at success
  obtain ⟨middle, added, rfl⟩ := success
  obtain ⟨leaders, falls⟩ := addInstructions_eq_ok added
  refine ⟨fun addr => ?_, falls⟩
  rw [addTries_leaders, leaders]
  exact or_congr_left (or_iff_right List.not_mem_nil)

end FlowGraph.Cuts

end Dalvik
