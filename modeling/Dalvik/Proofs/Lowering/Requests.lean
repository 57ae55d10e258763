import Dalvik.Proofs.Lowering.Ensures

/-!
# What lowering asks for

Lowering opens a value when it is first asked for: for each definition that reaches a read,
for a read that none reaches, for what an instruction writes, and for the result of a call
that takes over the `move-result` after it.  So a value has the width with which it is
first asked for.
-/

namespace Dalvik

namespace ValueFile

/-- What is asked for: the value of a write of a register, or a new one of no write. -/
structure Request where
  site : Option Site
  reg : Reg
  width : Width
  deriving DecidableEq, Repr

def Request.isFor (request : Request) (site : Site) (reg : Reg) : Bool :=
  request.site == some site && request.reg == reg

/-- The values after a request: one is added unless that of the write is there. -/
def ask (file : ValueFile) (request : Request) : ValueFile :=
  match request.site with
  | some site => (file.define site request.reg request.width).1
  | none => (file.add request.reg none request.width).1

/-- Whether there is a value of a write, of a width. -/
def Has (file : ValueFile) (site : Site) (reg : Reg) (width : Width) : Prop :=
  ∃ record ∈ file.values, record.site = some site ∧ record.reg = reg ∧ record.width = width

theorem definedAt?_eq_none {file : ValueFile} {site : Site} {reg : Reg} :
    file.definedAt? site reg = none ↔ ∀ width, ¬ file.Has site reg width := by
  rw [definedAt?_eq_findIdx?, List.findIdx?_eq_none_iff]
  constructor
  · rintro none width ⟨record, member, isSite, isReg, -⟩
    have absent := none record member
    simp [ProvisionalValue.isOf, isSite, isReg] at absent
  · intro none record member
    by_contra here
    rw [Bool.not_eq_false, ProvisionalValue.isOf_iff] at here
    exact none record.width ⟨record, member, here.1, here.2, rfl⟩

theorem Has.defined {file : ValueFile} {site : Site} {reg : Reg} {width : Width}
    (has : file.Has site reg width) : ∃ value, file.definedAt? site reg = some value :=
  Option.ne_none_iff_exists'.mp fun none => definedAt?_eq_none.mp none width has

theorem Has.of_defined {file : ValueFile} {site : Site} {reg : Reg} {value : Nat}
    (defined : file.definedAt? site reg = some value) : ∃ width, file.Has site reg width := by
  obtain ⟨record, found, isSite, isReg⟩ := definedAt?_eq_some defined
  exact ⟨record.width, record, List.mem_of_getElem? found, isSite, isReg, rfl⟩

/-- A value of a width is there after a request if it was there, or if none was and it is asked
for with this width. -/
theorem has_ask {file : ValueFile} {request : Request} {site : Site} {reg : Reg} {width : Width} :
    (file.ask request).Has site reg width ↔ file.Has site reg width ∨
      (∀ other, ¬ file.Has site reg other) ∧ request.isFor site reg = true ∧ request.width = width := by
  obtain ⟨asked, own, ownWidth⟩ := request
  have added : (file.add own asked ownWidth).1.Has site reg width ↔
      file.Has site reg width ∨ asked = some site ∧ own = reg ∧ ownWidth = width := by
    simp only [Has, add, List.mem_append, List.mem_singleton, or_and_right, exists_or, exists_eq_left]
  cases asked with
  | none =>
      rw [ask]
      exact added.trans (or_congr_right (by simp [Request.isFor]))
  | some asked =>
      change (file.define asked own ownWidth).1.Has site reg width ↔ _
      simp only [Request.isFor, Bool.and_eq_true, beq_iff_eq, Option.some.injEq, define]
      cases defined : file.definedAt? asked own with
      | some value =>
          refine (or_iff_left ?_).symm
          rintro ⟨none, ⟨rfl, rfl⟩, -⟩
          obtain ⟨other, has⟩ := Has.of_defined defined
          exact none other has
      | none =>
          refine added.trans ?_
          rw [Option.some.injEq]
          refine or_congr_right ⟨?_, ?_⟩
          · rintro ⟨rfl, rfl, rfl⟩
            exact ⟨definedAt?_eq_none.mp defined, ⟨rfl, rfl⟩, rfl⟩
          · rintro ⟨-, ⟨isSite, isReg⟩, isWidth⟩
            exact ⟨isSite, isReg, isWidth⟩

/-- After requests there is a value of a width if it was there, or if none was and it is first
asked for with this width. -/
theorem has_foldl_ask {requests : List Request} {file : ValueFile} {site : Site} {reg : Reg}
    {width : Width} :
    (requests.foldl ask file).Has site reg width ↔ file.Has site reg width ∨
      (∀ other, ¬ file.Has site reg other) ∧
        (requests.find? (·.isFor site reg)).map Request.width = some width := by
  induction requests generalizing file with
  | nil => simp
  | cons request rest ih =>
      rw [List.foldl_cons, ih, List.find?_cons]
      simp only [has_ask]
      by_cases known : ∃ other, file.Has site reg other
      · -- nothing is added for a write that has a value
        obtain ⟨other, has⟩ := known
        have notNone : ¬ ∀ other, ¬ file.Has site reg other := fun none => none other has
        simp only [notNone, false_and, or_false]
      · have none : ∀ other, ¬ file.Has site reg other := fun other has => known ⟨other, has⟩
        cases asked : request.isFor site reg with
        | true => simp [none]
        | false => simp [none]

/-- From no values on, a value has the width with which it is first asked for. -/
theorem has_asked {requests : List Request} {site : Site} {reg : Reg} {width : Width} :
    (requests.foldl ask .empty).Has site reg width ↔
      (requests.find? (·.isFor site reg)).map Request.width = some width := by
  have none : ∀ other, ¬ ValueFile.Has .empty site reg other := fun _ ⟨_, member, _⟩ => by cases member
  rw [has_foldl_ask]
  simp [none]

/-- Asking again for the value of a write changes nothing. -/
theorem ask_of_has {file : ValueFile} {request : Request} {site : Site} {width : Width}
    (asked : request.site = some site) (has : file.Has site request.reg width) :
    file.ask request = file := by
  obtain ⟨value, defined⟩ := has.defined
  rw [ask, asked]
  dsimp only
  rw [define, defined]

end ValueFile

open ValueFile (Request)

/-- What a read asks for: the values of the definitions that reach it, or a new one. -/
def LoweringContext.requests (context : LoweringContext) (addr : Addr) (read : Reg × Width) :
    List Request :=
  match context.readable addr read.1 read.2 with
  | [] => [⟨none, read.1, read.2⟩]
  | defs => defs.map fun d => ⟨some d.site, d.reg, read.2⟩

/-- A read asks for the values of the definitions that reach it. -/
theorem LoweringContext.isFor_of_mem_requests {context : LoweringContext} {addr : Addr}
    {read : Reg × Width} {request : Request} (member : request ∈ context.requests addr read)
    {site : Site} {reg : Reg} (asked : request.isFor site reg = true) :
    request.width = read.2 ∧
      ∃ d ∈ context.readable addr read.1 read.2, d.site = site ∧ d.reg = reg := by
  simp only [Request.isFor, Bool.and_eq_true, beq_iff_eq] at asked
  unfold requests at member
  split at member
  · rw [List.mem_singleton.mp member] at asked
    exact absurd asked.1 (by simp)
  · obtain ⟨d, reaches, rfl⟩ := List.mem_map.mp member
    exact ⟨rfl, d, reaches, Option.some.inj asked.1, asked.2⟩

theorem LoweringContext.mem_requests_of_readable {context : LoweringContext} {addr : Addr}
    {read : Reg × Width} {d : Def} (reaches : d ∈ context.readable addr read.1 read.2) :
    ⟨some d.site, d.reg, read.2⟩ ∈ context.requests addr read := by
  unfold requests
  split
  · rename_i nothing
    rw [nothing] at reaches
    cases reaches
  · exact List.mem_map_of_mem reaches

namespace Instruction

/-- What an instruction asks for to write a value of a width. -/
def ownRequests (instruction : Instruction) (width : Width) : List Request :=
  instruction.regs[0]?.toList.map fun reg => ⟨some (.at instruction.addr), reg, width⟩

/-- The `move-result` that a call takes over, with the kind of the result: the one after it, unless
control can get there from elsewhere. -/
def takesOver (context : LoweringContext) (instruction : Instruction) (next : Option Instruction) :
    Option (Instruction × Kind) := do
  let kind ← instruction.resultKind context.pool
  let next ← next
  let opcode ← next.opcode
  if opcode.family = .moveResult ∧ !context.graph.isTarget next.addr then some (next, kind) else none

theorem takesOver_eq_some {context : LoweringContext} {call taken : Instruction}
    {next : Option Instruction} {kind : Kind} :
    call.takesOver context next = some (taken, kind) ↔ next = some taken ∧
      call.resultKind context.pool = some kind ∧
        taken.opcode.map Opcode.family = some .moveResult ∧ context.graph.isTarget taken.addr = false := by
  rw [takesOver]
  cases call.resultKind context.pool with
  | none => simp
  | some own =>
      cases next with
      | none => simp
      | some next =>
          dsimp only [bind, Option.bind]
          cases isOpcode : next.opcode with
          | none =>
              simp only [reduceCtorEq, false_iff, not_and, Option.some.injEq]
              rintro rfl -
              simp [isOpcode]
          | some opcode =>
              simp only [Option.ite_none_right_eq_some, Option.some.injEq, Prod.mk.injEq,
                Bool.not_eq_true']
              constructor
              · rintro ⟨⟨family, plain⟩, rfl, rfl⟩
                exact ⟨rfl, rfl, by rw [isOpcode, Option.map_some, family], plain⟩
              · rintro ⟨rfl, rfl, moves, plain⟩
                rw [isOpcode, Option.map_some] at moves
                exact ⟨⟨Option.some.inj moves, plain⟩, rfl, rfl⟩

/-- What a call asks for to define its result. -/
def resultRequests (context : LoweringContext) (instruction : Instruction)
    (next : Option Instruction) : List Request :=
  (instruction.takesOver context next).elim [] fun taken => taken.1.ownRequests taken.2.width

/-- What an instruction asks for: what its reads do, then the value of its write or that of
the write of a `move-result` that it takes over. -/
def requests (context : LoweringContext) (instruction : Instruction) (next : Option Instruction) :
    List Request :=
  (instruction.reads context.pool).flatMap (context.requests instruction.addr) ++
    (instruction.opcode.bind definedWidth).elim [] instruction.ownRequests ++
    instruction.resultRequests context next

def takenAddrs (context : LoweringContext) (instruction : Instruction) (next : Option Instruction) :
    List Addr :=
  (instruction.takesOver context next).toList.map fun taken => taken.1.addr

end Instruction

end Dalvik
