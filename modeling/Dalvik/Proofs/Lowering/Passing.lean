import Dalvik.Proofs.Lowering.Accounts

/-!
# Accounting for calls

A call binds what it passes to the declared kinds in order, and what it returns to the kind
of its declared result.  With this every rule accounts for its statements.
-/

namespace Dalvik

namespace Lower

variable {context : LoweringContext} {current : Current} {known : ArrayTypes} {final : LoweringState}
  {pre : Prop}

/-- What holds of the slots of arguments: each has its kind and the value of the first
definition that reaches its register. -/
structure Passes (context : LoweringContext) (final : LoweringState) (addr : Addr) (regs : List Reg)
    (kinds : List Kind) (slots : List Slot) : Prop where
  held : List.Forall₂ (fun kind slot => Held context final (.ofKind kind) slot) kinds slots
  first : List.Forall₂ (fun (read : Reg × Width) slot =>
      ∀ d, (context.readable addr read.1 read.2).head? = some d →
        final.values.definedAt? d.site d.reg = some slot.value)
    (Instruction.argumentReads regs (kinds.map Kind.width)) slots

theorem Passes.nil {addr : Addr} {regs : List Reg} : Passes context final addr regs [] [] := by
  refine ⟨.nil, ?_⟩
  have nothing : Instruction.argumentReads regs [] = [] := by
    cases regs <;> rfl
  rw [List.map_nil, nothing]
  exact .nil

theorem Passes.cons {addr : Addr} {regs : List Reg} {reg : Reg} {position : Nat} {kind : Kind}
    {kinds : List Kind} {slot : Slot} {slots : List Slot} (given : regs[position]? = some reg)
    (reads : ReadsSlot context final addr reg (.ofKind kind) slot)
    (others : Passes context final addr (regs.drop (position + kind.width.slots)) kinds slots) :
    Passes context final addr (regs.drop position) (kind :: kinds) (slot :: slots) := by
  refine ⟨.cons reads.held others.held, ?_⟩
  have place : position + 1 + (kind.width.slots - 1) = position + kind.width.slots := by
    cases kind.width <;> rfl
  rw [List.drop_eq_getElem?_toList_append, given, Option.toList_some, List.singleton_append,
    List.map_cons, Instruction.argumentReads, List.drop_drop, place]
  refine .cons ?_ others.first
  rw [← KindSet.width_ofKind]
  exact reads.first

/-- The slot of an argument has its kind. -/
theorem Passes.at {addr : Addr} {regs : List Reg} {kinds : List Kind} {slots : List Slot}
    (passes : Passes context final addr regs kinds slots) {position : Nat} {slot : Slot} {kind : Kind}
    (isSlot : slots[position]? = some slot) (isKind : kinds[position]? = some kind) :
    Held context final (.ofKind kind) slot := by
  obtain ⟨own, isOwn, held⟩ := getElem?_of_forall₂ passes.held isKind
  obtain rfl := Option.some.inj (isOwn.symm.trans isSlot)
  exact held

/-- A contract of one kind is recorded. -/
theorem restricts_of_recorded {kind : Kind} {value : Nat}
    (recorded : (KindSet.ofKind kind).isWidthOnly = true ∨ Restricts final value (.ofKind kind)) :
    Restricts final value (.ofKind kind) := by
  rw [KindSet.isWidthOnly_ofKind] at recorded
  exact recorded.resolve_left Bool.false_ne_true

theorem Held.restricts {kind : Kind} {slot : Slot} (held : Held context final (.ofKind kind) slot) :
    Restricts final slot.value (.ofKind kind) :=
  restricts_of_recorded held.recorded

/-! ## Arguments and results -/

theorem ensures_readArguments (sourced : context.Sourced) {number position : Nat} {kinds : List Kind} :
    Ensures context final pre (readArguments context current number position kinds) fun slots =>
      Passes context final current.addr (current.instruction.regs.drop position) kinds slots := by
  induction kinds generalizing number position pre with
  | nil => exact .pure fun _ => .nil
  | cons kind kinds ih =>
      have rest : ∀ {pre : Prop} {reg : Reg}, (pre → current.instruction.regs[position]? = some reg) →
          Ensures context final pre (do
            let slot ← readAs context current reg (.ofKind kind) .anchor
            let slots ← readArguments context current (number + 1) (position + kind.width.slots) kinds
            return slot :: slots) fun slots => Passes context final current.addr
              (current.instruction.regs.drop position) (kind :: kinds) slots := by
        intro pre reg given
        refine .bind (ensures_readAs sourced) fun slot => ?_
        refine .bind ih fun slots => .pure ?_
        rintro ⟨⟨known, reads⟩, others⟩
        exact .cons (given known) reads others
      rw [readArguments]
      refine .bind (.lift _) fun reg => ?_
      split
      · refine .bind (.lift _) fun second => ?_
        split
        · refine .bind (.lift _) fun _ => rest ?_
          rintro ⟨⟨⟨_, given⟩, _⟩, _⟩
          exact reg_eq_ok.mp given
        · refine rest ?_
          rintro ⟨⟨_, given⟩, _⟩
          exact reg_eq_ok.mp given
      · refine rest ?_
        rintro ⟨_, given⟩
        exact reg_eq_ok.mp given

theorem ensures_arguments (sourced : context.Sourced) {kinds : List Kind} :
    Ensures context final pre (arguments context current kinds) fun slots =>
      kinds.foldr (fun kind slots => kind.width.slots + slots) 0 = current.instruction.regs.length ∧
        Passes context final current.addr current.instruction.regs kinds slots := by
  unfold arguments
  dsimp only
  split
  · intro before slots after success
    obtain ⟨_, _, fails, -⟩ := bind_eq_ok.mp success
    exact absurd fails throw_eq_ok
  · rename_i same
    exact (ensures_readArguments sourced).weaken fun _ passes => ⟨not_not.mp same, passes⟩

theorem moves_of_resultMove {next : Instruction} {opcode : Opcode}
    (found : resultMove context current = some (next, opcode)) :
    current.next = some next ∧ next.opcode.map Opcode.family = some .moveResult := by
  refine ⟨resultMove_eq_some found, ?_⟩
  simp only [resultMove, Option.bind_eq_bind, Option.bind_eq_some_iff] at found
  obtain ⟨_, -, own, isOpcode, taken⟩ := found
  split at taken
  · rename_i moves
    obtain ⟨rfl, rfl⟩ := Prod.mk.inj (Option.some.inj taken)
    rw [isOpcode, Option.map_some, moves.1]
  · cases taken

/-- The result of a call that its `move-result` takes has the kind that the call passes. -/
theorem ensures_result (listed : current.Listed context) {kind : Kind}
    (passes : current.instruction.resultKind context.pool = some kind) :
    Ensures context final pre (result context current kind) fun taken => ∀ dest, taken = some dest →
      Stated context final dest ∧ Restricts final dest.value (.ofKind kind) := by
  unfold result
  split
  · exact .pure fun _ dest impossible => by cases impossible
  · rename_i next opcode found
    obtain ⟨follows, moves⟩ := moves_of_resultMove found
    split
    · rename_i reg first
      rw [List.head?_eq_getElem?] at first
      have opened : ∀ generation, Opened context
          ⟨reg, generation, some (.at next.addr), (KindSet.ofKind kind).width⟩ :=
        fun generation => .result (listed.follows next follows) moves passes rfl first
          (KindSet.width_ofKind kind)
      refine .bind (ensures_writeAt opened) fun dest => ?_
      refine .bind (ensures_restrict fun ⟨_, _, defined, _⟩ => ValueFile.lt_of_definedAt? defined)
        fun _ => ?_
      refine .bind (.modify (fun _ => rfl) (fun _ => rfl) fun _ => rfl) fun _ => .pure ?_
      rintro ⟨⟨⟨-, same, defined, recorded⟩, -⟩, -⟩ _ ⟨⟩
      have restricts := restricts_of_recorded recorded
      refine ⟨⟨ValueFile.lt_of_definedAt? defined, .inr (same ▸ restricts), fun several => ?_⟩,
        restricts⟩
      rw [same, KindSet.single_ofKind] at several
      cases several
    · exact (Ensures.lift _).weaken fun _ impossible => by cases impossible

/-! ## Calls -/

/-- A statement that does nothing. -/
theorem Accounts.nop {reads : List (Option Kind)} {result : Option Kind} :
    Accounts context final reads result [.nop] where
  sound := List.forall_mem_singleton.mpr (.reads (fun _ member => by cases member) rfl trivial)
  typed :=
    { reads _ _ _ isUse := by cases isUse
      written := List.forall_mem_singleton.mpr fun _ _ written => by cases written }

/-- One statement that reads slots of declared kinds. -/
theorem Accounts.passes {statement : Statement Slot} {addr : Addr} {regs : List Reg} {kinds : List Kind}
    {slots : List Slot} {result : Option Kind} (sound : Sound context final statement)
    (passes : Passes context final addr regs kinds slots) (uses : statement.uses = slots)
    (restricts : ∀ slot, statement.written = some slot → ∀ kind, result = some kind →
      Restricts final slot.value (.ofKind kind)) :
    Accounts context final (kinds.map some) result [statement] where
  sound := List.forall_mem_singleton.mpr sound
  typed :=
    { reads position slot kind isUse isKind := by
        rw [List.flatMap_singleton, uses] at isUse
        rw [List.getElem?_map] at isKind
        obtain ⟨own, isOwn, same⟩ := Option.map_eq_some_iff.mp isKind
        obtain rfl := Option.some.inj same
        exact (passes.at isUse isOwn).restricts
      written := List.forall_mem_singleton.mpr fun slot kind written => restricts slot written kind }

theorem Passes.operands {addr : Addr} {regs : List Reg} {kinds : List Kind} {slots : List Slot}
    (passes : Passes context final addr regs kinds slots) :
    ∀ operand ∈ slots.map Operand.var, OperandStated context final operand := by
  refine List.forall_mem_map.mpr fun slot member => ?_
  obtain ⟨kind, -, held⟩ := exists_of_forall₂ passes.held.flip member
  exact .var held.stated

/-- A call that is a statement of its own, or that assigns its result. -/
theorem ensures_call (listed : current.Listed context) {kind : Kind} {kinds : List Kind}
    {call : Expression Slot} {type : Descriptor} {unused : Statement Slot}
    (returns : current.instruction.resultKind context.pool = some kind)
    (fresh : ∀ operand, call ≠ .use operand)
    (passed : pre → ∃ addr regs, Passes context final addr regs kinds call.uses)
    (operands : call.operands = call.uses.map Operand.var)
    (alone : pre → Accounts context final (kinds.map some) (some kind) [unused]) :
    Ensures context final pre (do
        match ← result context current kind with
        | none => return [unused]
        | some dest => do
            declare dest.value type
            return assign dest call)
      (Accounts context final (kinds.map some) (some kind)) := by
  refine .bind (ensures_result listed returns) fun taken => ?_
  cases taken with
  | none => exact .pure fun ⟨isPre, _⟩ => alone isPre
  | some dest =>
      refine .bind ensures_declare fun _ => .pure ?_
      rintro ⟨⟨known, takes⟩, -⟩
      obtain ⟨stated, restricts⟩ := takes dest rfl
      obtain ⟨addr, regs, passes⟩ := passed known
      refine .passes (.computes stated (operands ▸ passes.operands) fresh) passes
        (List.append_nil _) fun slot written own isKind => ?_
      obtain rfl := Option.some.inj written
      exact Option.some.inj isKind ▸ restricts

/-- The kinds of declared types, which cannot be `void`. -/
theorem ofType_of_declaredKinds {types : List Descriptor} {kinds : List Kind}
    (found : current.declaredKinds types = .ok kinds) : types.map Kind.ofType = kinds.map some := by
  have matched := mapM_eq_ok.mp found
  clear found
  induction matched with
  | nil => rfl
  | cons first _ ih => rw [List.map_cons, List.map_cons, ofType_of_declaredKind first, ih]

/-- A step that may fail, and what it does when it succeeds. -/
theorem EnsuresFrom.lift {α β : Type} {outcome : Except LiftError α} {next : α → Lower β}
    {state : LoweringState} {post : β → Prop}
    (isNext : ∀ value, outcome = .ok value → EnsuresFrom context final state pre (next value) post) :
    EnsuresFrom context final state pre (liftM outcome >>= next) post := by
  intro result after success
  obtain ⟨_, _, lifted, rest⟩ := bind_eq_ok.mp success
  obtain ⟨value, isValue, same⟩ := lift_eq_ok.mp lifted
  obtain ⟨rfl, rfl⟩ := Prod.mk.inj same
  exact isNext value isValue result after rest

/-- A call passes on what its method returns. -/
theorem resultKind_invoke {reference : PoolRef} {method : MethodRef}
    (opcode : current.instruction.opcode = some current.opcode) (family : current.opcode.family = .invoke)
    (given : current.instruction.reference = some reference)
    (found : context.pool.method reference.index = .ok method) :
    current.instruction.resultKind context.pool = Kind.ofType method.prototype.ret := by
  rw [Instruction.resultKind, opcode, Option.map_some, family, given]
  dsimp only [bind, Option.bind]
  rw [found]
  rfl

theorem ensures_invoke (sourced : context.Sourced) (listed : current.Listed context)
    (family : current.opcode.family = .invoke) :
    Ensures context final True (invoke context current)
      (Accounts context final (current.declaredReads context known)
        (current.declaredWrite context known)) := by
  rw [Current.declaredReads, Current.declaredWrite, family]
  unfold invoke
  split
  · rename_i kind isKind
    refine fun state => .lift fun index refers => .lift fun method isMethod =>
      .lift fun paramKinds declares => ?_
    have isRef : current.item? context.pool.method = some method := item?_eq_some refers isMethod
    obtain ⟨reference, given, rfl⟩ := reference_eq_ok refers
    have returns := resultKind_invoke listed.opcode family given (liftCode_eq_ok.mp isMethod)
    have declared : current.passedKinds context =
        (if kind.hasReceiver = true then .object :: paramKinds else paramKinds).map some := by
      rw [Current.passedKinds, isKind, isRef, Option.elim_some, Option.elim_some,
        ofType_of_declaredKinds declares]
      split <;> rfl
    dsimp only
    rw [declared, returns]
    generalize (if kind.hasReceiver = true then Kind.object :: paramKinds else paramKinds) = kinds
    refine Ensures.bind (ensures_arguments sourced) (fun slots => ?_) state
    generalize isCall : (if kind.hasReceiver = true then
        Expression.invoke kind reference.index (slots.map Operand.var).head? (slots.map Operand.var).tail
      else Expression.invoke kind reference.index none (slots.map Operand.var)) = call
    have operands : call.operands = slots.map Operand.var := by
      subst isCall
      split
      · cases slots <;> rfl
      · rfl
    have uses : call.uses = slots := by
      rw [Expression.uses_eq_flatMap, operands, flatMap_uses_var]
    have alone : ∀ result, Passes context final current.addr current.instruction.regs kinds slots →
        Accounts context final (kinds.map some) result [.invoke call] := by
      intro result passes
      refine .passes (.reads ?_ rfl trivial) passes uses fun _ written => by cases written
      rw [Statement.operands, operands]
      exact passes.operands
    cases ret : Kind.ofType method.prototype.ret with
    | none => exact .pure fun known => alone none known.2.2
    | some own =>
        refine ensures_call listed (returns.trans ret) (fun operand => ?_) (fun known => ?_) (uses ▸ operands)
          fun known => alone (some own) known.2.2
        · subst isCall
          split <;> simp
        · exact ⟨_, _, uses ▸ known.2.2⟩
  · exact .fails _

/-- The values that fill an array are bound to the kind of its elements, also where nothing
takes the array. -/
def Filled (context : LoweringContext) (final : LoweringState) (current : Current) : Prop :=
  ∀ kind, current.opcode.family = .filledNewArray → current.filledKind context = some kind →
    ∀ reg ∈ current.instruction.regs, ∀ d, (context.readable current.addr reg .narrow).head? = some d →
      ∀ value, final.values.definedAt? d.site d.reg = some value → Restricts final value (.ofKind kind)

/-- The arguments that fill an array are narrow, one for each register. -/
theorem Passes.filled {kind : Kind} {slots : List Slot} {regs : List Reg} {addr : Addr}
    (passes : Passes context final addr regs (regs.map fun _ => kind) slots)
    (arity : (regs.map fun _ => kind).foldr (fun kind slots => kind.width.slots + slots) 0 = regs.length)
    {reg : Reg} (member : reg ∈ regs) {d : Def}
    (reaches : (context.readable addr reg .narrow).head? = some d) {value : Nat}
    (defined : final.values.definedAt? d.site d.reg = some value) :
    Restricts final value (.ofKind kind) := by
  obtain ⟨position, isReg⟩ := List.mem_iff_getElem?.mp member
  have first := passes.first
  rw [narrow_of_arity arity, argumentReads_narrow] at first
  have isRead : (regs.map (·, Width.narrow))[position]? = some (reg, .narrow) := by
    rw [List.getElem?_map, isReg, Option.map_some]
  obtain ⟨slot, isSlot, holds⟩ := getElem?_of_forall₂ first isRead
  obtain rfl := Option.some.inj ((holds d reaches).symm.trans defined)
  have isKind : (regs.map fun _ => kind)[position]? = some kind := by
    rw [List.getElem?_map, isReg, Option.map_some]
  exact (passes.at isSlot isKind).restricts

theorem ensures_filledNewArray (sourced : context.Sourced) (listed : current.Listed context)
    (family : current.opcode.family = .filledNewArray) :
    Ensures context final True (filledNewArray context current) fun statements =>
      Accounts context final (current.declaredReads context known)
        (current.declaredWrite context known) statements ∧ Filled context final current := by
  have returns : current.instruction.resultKind context.pool = some .object := by
    rw [Instruction.resultKind, listed.opcode, Option.map_some, family]
  rw [Current.declaredReads, Current.declaredWrite, family]
  dsimp only
  rw [returns]
  unfold filledNewArray
  refine fun state => .lift fun index refers => .lift fun type isType => ?_
  split
  · rename_i element isElement
    refine .lift fun kind declares => ?_
    have isFilled : current.filledKind context = some kind := by
      rw [Current.filledKind, item?_eq_some refers isType]
      dsimp only [bind, Option.bind]
      rw [isElement]
      exact ofType_of_declaredKind declares
    have kinds : (current.instruction.regs.map fun _ => current.filledKind context) =
        (current.instruction.regs.map fun _ => kind).map some := by
      rw [isFilled, List.map_map]
      rfl
    rw [kinds]
    refine Ensures.bind (ensures_arguments sourced) (fun slots => ?_) state
    have uses : (Expression.newFilledArray index (slots.map Operand.var)).uses = slots :=
      flatMap_uses_var slots
    refine .also (ensures_call listed returns (by simp) (fun known => ?_) (congrArg _ uses.symm)
      fun known => ?_) fun known => ?_
    · exact ⟨_, _, uses.symm ▸ known.2.2⟩
    · exact .nop
    · intro own _ isOwn reg member d reaches value defined
      obtain rfl := Option.some.inj (isFilled.symm.trans isOwn)
      exact known.2.2.filled known.2.1 member reaches defined
  · exact Ensures.fails _ state

/-! ## All rules -/

/-- The families that put a value at a place with a declared type. -/
def typedFamilies : List Family :=
  [.returnValue, .invoke, .filledNewArray, .iget, .iput, .sget, .sput, .aget, .aput]

theorem ensures_untyped (sourced : context.Sourced) (listed : current.Listed context)
    (plain : current.opcode.family ∉ typedFamilies) :
    Ensures context final True (rule context current) (Accounts context final [] none) := by
  unfold rule
  split <;> rename_i family
  · exact .pure fun _ => .nothing
  · exact ensures_move sourced listed family
  · exact ensures_moveResult sourced listed family
  · exact ensures_moveException sourced listed family
  · exact .pure fun _ => .untyped (.reads (fun _ member => by cases member) rfl trivial)
  · exact absurd (by rw [family]; decide) plain
  · exact ensures_const sourced listed family
  · exact ensures_loadItem sourced listed (definedWidth_narrow (by simp [family]))
      fun _ _ held => .copies held.stated (.constant _) (.constant held.same)
  · exact ensures_loadItem sourced listed (definedWidth_narrow (by simp [family]))
      fun _ _ held => .copies held.stated (.constant _) (.constant held.same)
  · exact ensures_useObject sourced (fun _ => rfl) (fun _ => rfl) fun _ => trivial
  · exact ensures_useObject sourced (fun _ => rfl) (fun _ => rfl) fun _ => trivial
  · exact ensures_makeTyped sourced listed (definedWidth_narrow (by simp [family]))
      (fun _ _ => rfl) (by simp)
  · exact ensures_instanceOf sourced listed family
  · exact ensures_compute sourced listed (definedWidth_narrow (by simp [family])) (fun _ => rfl) (by simp)
  · exact ensures_loadItem sourced listed (definedWidth_narrow (by simp [family]))
      fun _ _ held => .computes held.stated (fun _ member => by cases member) (by simp)
  · exact ensures_makeTyped sourced listed (definedWidth_narrow (by simp [family]))
      (fun _ _ => rfl) (by simp)
  · exact absurd (by rw [family]; decide) plain
  · exact ensures_fillArrayData sourced
  · exact ensures_useObject sourced (fun _ => rfl) (fun _ => rfl) fun _ => trivial
  · exact ensures_goto
  · exact ensures_switch sourced
  · exact ensures_cmp sourced listed family
  · exact ensures_branch sourced
  · exact ensures_branchZero sourced
  · exact absurd (by rw [family]; decide) plain
  · exact absurd (by rw [family]; decide) plain
  · exact absurd (by rw [family]; decide) plain
  · exact absurd (by rw [family]; decide) plain
  · exact absurd (by rw [family]; decide) plain
  · exact absurd (by rw [family]; decide) plain
  · exact absurd (by rw [family]; decide) plain
  · exact ensures_compute sourced listed (definedWidth_own (by simp [family])) (fun _ => rfl) (by simp)
  · exact ensures_not sourced listed family
  · exact ensures_convert sourced listed family
  · exact ensures_binary sourced listed (.inl family)
  · exact ensures_binary sourced listed (.inr (.inl family))
  · exact ensures_binary sourced listed (.inr (.inr family))

/-- What a rule ensures of its statements and of what fills an array, from a state that
remembers the known types. -/
theorem rule_from (sourced : context.Sourced) (listed : current.Listed context)
    {before : LoweringState} (remembers : Remembers known before) :
    EnsuresFrom context final before True (rule context current) fun statements =>
      Accounts context final (current.declaredReads context known)
        (current.declaredWrite context known) statements ∧ Filled context final current := by
  by_cases filled : current.opcode.family = .filledNewArray
  · rw [rule, filled]
    exact ensures_filledNewArray sourced listed filled before
  suffices accounts : EnsuresFrom context final before True (rule context current)
      (Accounts context final (current.declaredReads context known)
        (current.declaredWrite context known)) by
    intro result after success
    obtain ⟨grows, fits⟩ := accounts result after success
    exact ⟨grows, fun toFinal known => ⟨(fits toFinal known).1, (fits toFinal known).2,
      fun kind isFilled => absurd isFilled filled⟩⟩
  by_cases typed : current.opcode.family ∈ typedFamilies
  · have noWrite : current.opcode.family ∈ [.returnValue, .iput, .sput, .aput] →
        current.declaredWrite context known = none := by
      intro reads
      simp only [List.mem_cons, List.not_mem_nil, or_false] at reads
      rcases reads with family | family | family | family <;> rw [Current.declaredWrite, family]
    have noReads : current.opcode.family ∈ [.iget, .sget, .aget] →
        current.declaredReads context known = [] := by
      intro writes
      simp only [List.mem_cons, List.not_mem_nil, or_false] at writes
      rcases writes with family | family | family <;> rw [Current.declaredReads, family]
    simp only [typedFamilies, List.mem_cons, List.not_mem_nil, or_false] at typed
    rcases typed with family | family | family | family | family | family | family | family | family
    · rw [noWrite (by simp [family]), rule, family]
      exact ensures_returnValue sourced family before
    · rw [rule, family]
      exact ensures_invoke sourced listed family before
    · exact absurd family filled
    · rw [noReads (by simp [family]), rule, family]
      exact ensures_iget sourced listed family before
    · rw [noWrite (by simp [family]), rule, family]
      exact ensures_iput sourced family before
    · rw [noReads (by simp [family]), rule, family]
      exact ensures_sget sourced listed family before
    · rw [noWrite (by simp [family]), rule, family]
      exact ensures_sput sourced family before
    · rw [noReads (by simp [family]), rule, family]
      exact aget_from sourced listed family remembers
    · rw [noWrite (by simp [family]), rule, family]
      exact aput_from sourced family remembers
  · have nothing : current.declaredReads context known = [] ∧
        current.declaredWrite context known = none := by
      rw [Current.declaredReads, Current.declaredWrite]
      cases family : current.opcode.family <;> first | exact ⟨rfl, rfl⟩ | skip
      all_goals exact absurd (by rw [family]; decide) typed
    rw [nothing.1, nothing.2]
    exact ensures_untyped sourced listed typed before

/-- What lowering an instruction ensures, from a state that remembers the known types. -/
theorem instruction_from (sourced : context.Sourced) {instruction : Instruction}
    {next : Option Instruction} (member : instruction ∈ context.code.instructions)
    (follows : ∀ other, next = some other → [instruction, other] <:+: context.code.instructions)
    {before after : LoweringState} {statements : List (Statement Slot)}
    (remembers : Remembers known before)
    (success : (Lower.instruction context instruction next).run before = .ok (statements, after)) :
    ∃ opcode, instruction.opcode = some opcode ∧ Grows before after ∧ (Grows after final →
      (Orderly context final before → Orderly context final after) ∧
      Accounts context final (Current.declaredReads context known ⟨instruction, opcode, next⟩)
        (Current.declaredWrite context known ⟨instruction, opcode, next⟩) statements ∧
      Filled context final ⟨instruction, opcode, next⟩) := by
  unfold Lower.instruction at success
  split at success
  · rename_i opcode isOpcode
    have listed : Current.Listed context ⟨instruction, opcode, next⟩ := ⟨isOpcode, member, follows⟩
    obtain ⟨grows, fits⟩ := rule_from sourced listed remembers statements after success
    exact ⟨opcode, isOpcode, grows, fun toFinal => fits toFinal trivial⟩
  · exact absurd success throw_eq_ok

end Lower

end Dalvik
