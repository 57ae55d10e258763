import Dalvik.Proofs.Lift.Kinds

/-!
# Casts in bodies

A cast is of a value whose class is conflicting, and one that is only a placeholder names
the diagnostic, exactly where no other class has a kind of another width than a statement
allows.  No class has if each `move-result` that a call takes over is as wide as what
the call passes.
-/

namespace Dalvik

/-- Results are moved with the width of what calls pass. -/
def Code.ResultsFit (code : Code) (pool : Pool) : Prop :=
  ∀ call next kind reg width, [call, next] <:+: code.instructions →
    next.opcode.map Opcode.family = some .moveResult → call.resultKind pool = some kind →
    next.definition = some (reg, width) → kind.width = width

/-- Neighbours in a list are what stands at one position of it and of its tail. -/
theorem neighbours_iff_mem_zip {α : Type} {first second : α} {list : List α} :
    [first, second] <:+: list ↔ (first, second) ∈ list.zip list.tail := by
  induction list with
  | nil => simp
  | cons head rest ih =>
      rw [neighbours_cons, ih]
      cases rest with
      | nil => simp
      | cons next rest => simp [eq_comm]

instance {code : Code} {pool : Pool} : Decidable (code.ResultsFit pool) :=
  decidable_of_iff (∀ pair ∈ code.instructions.zip code.instructions.tail,
      pair.2.opcode.map Opcode.family = some .moveResult → ∀ kind ∈ pair.1.resultKind pool,
        ∀ written ∈ pair.2.definition, kind.width = written.2)
    ⟨fun each call next kind _ _ follows moves passes defines =>
        each (call, next) (neighbours_iff_mem_zip.mp follows) moves kind passes _ defines,
      fun fit pair member moves kind passes _ defines =>
        fit pair.1 pair.2 kind _ _ (neighbours_iff_mem_zip.mpr member) moves passes defines⟩

namespace Lift

open Lower

/-- The value that a cast is of: one that is used, or one that is defined, whose temporary is
moved to its local. -/
inductive CastOf (lowered : Lowered) : Statement Local → Local → Nat → Prop where
  | use {statement : Statement Local} {var : Local} {value : Nat}
      (named : lowered.localOf value = some var) : CastOf lowered statement var value
  | definition {temporary held : Local} {source target : Kind} {mode : CastMode} {value : Nat}
      (named : lowered.localOf value = some held)
      (isTemporary : lowered.splitting.IsTemporary temporary) :
      CastOf lowered (.assign (.var held) (.use (.cast temporary source target mode))) temporary value

/-- Each cast of a statement is of a value whose class is conflicting, and one that is not by
bits names the diagnostic that reports this. -/
def Reports (lowered : Lowered) (body : Body) (statement : Statement Local) : Prop :=
  ∀ var source target mode, .cast var source target mode ∈ statement.operands →
    ∃ value, CastOf lowered statement var value ∧ lowered.solution.isConflicting value = true ∧
      ∀ diagnostic, mode = .coerce diagnostic → ∃ number report, diagnostic = some number ∧
        lowered.solution.diagnosticOf value = some number ∧
        body.diagnostics[number]? = some report ∧ report.isConflict = true

def CastsReported (lowered : Lowered) (body : Body) : Prop :=
  ∀ item ∈ body.statements, Reports lowered body item.2

/-- A slot whose class is not conflicting allows its kind if it only says a width. -/
def Fits (lowered : Lowered) (slot : Slot) : Prop :=
  lowered.solution.isConflicting slot.value = false → slot.contract.isWidthOnly = true →
    slot.contract.contains (lowered.solution.kindOf slot.value) = true

variable {code : Code} {pool : Pool} {options : LiftOptions} {body : Body}
  {context : LoweringContext} {lowered : Lowered}

theorem isTemporary_ne {var : Local} (isTemporary : lowered.splitting.IsTemporary var) (value : Nat) :
    lowered.localOf value ≠ some var :=
  isTemporary.2 _

theorem exists_preferred_of_isWidthOnly {contract : KindSet} (only : contract.isWidthOnly = true) :
    ∃ kind, contract.preferred = some kind := by
  refine KindSet.exists_preferred fun isEmpty => ?_
  rw [isEmpty] at only
  cases only

/-- The local of a cast is that of its value, or a temporary that is moved to it. -/
theorem CastOf.value_eq {statement : Statement Local} {var : Local} {value : Nat}
    (castOf : CastOf lowered statement var value) :
    lowered.localOf value = some var ∨
      lowered.splitting.IsTemporary var ∧ ∃ held, lowered.localOf value = some held ∧
        statement.written = some held := by
  cases castOf with
  | use named => exact .inl named
  | definition named isTemporary => exact .inr ⟨isTemporary, _, named, rfl⟩

namespace Lifts

variable (lifts : Lifts code pool options body context lowered)
include lifts

/-- What is only a width aside, a class that is not conflicting has a kind that its slots
allow. -/
theorem allows_of_free {slot : Slot} (stated : Stated context lowered.state slot)
    (fits : Fits lowered slot) (free : lowered.solution.isConflicting slot.value = false) :
    slot.contract.contains (lowered.solution.kindOf slot.value) = true := by
  rcases stated.recorded with only | ⟨entry, listed, owner, allowed⟩
  · exact fits free only
  · rw [← owner] at free ⊢
    exact Solution.contains_kindOf lifts.inside listed allowed (owner ▸ stated.present) free

/-- A refused slot's class is conflicting, and the diagnostic of a placeholder reports it. -/
theorem reports_refused {slot : Slot} (stated : Stated context lowered.state slot)
    (fits : Fits lowered slot)
    (refused : slot.contract.contains (lowered.solution.kindOf slot.value) = false) {source target : Kind} :
    lowered.solution.isConflicting slot.value = true ∧
      ∀ diagnostic, Split.castMode lowered.splitContext source target slot.value = .coerce diagnostic →
        ∃ number report, diagnostic = some number ∧
          lowered.solution.diagnosticOf slot.value = some number ∧
          body.diagnostics[number]? = some report ∧ report.isConflict = true := by
  have conflict : lowered.solution.isConflicting slot.value = true := by
    cases conflict : lowered.solution.isConflicting slot.value with
    | true => rfl
    | false =>
        rw [lifts.allows_of_free stated fits conflict] at refused
        cases refused
  refine ⟨conflict, fun diagnostic isMode => ?_⟩
  obtain ⟨number, report, isNumber, reported⟩ :=
    Solution.exists_report lifts.inside stated.present conflict
  rw [lifts.diagnostics]
  refine ⟨number, report, ?_, isNumber, reported⟩
  unfold Split.castMode at isMode
  split at isMode
  · cases isMode
  · exact (CastMode.coerce.inj isMode).symm.trans isNumber

/-- Where slots fit, the casts of what is shown of a statement are reported. -/
theorem reports_shown {item : Option Addr × Statement Slot} (member : item ∈ lowered.statements)
    (fits : ∀ slot ∈ item.2.slots, Fits lowered slot) (var : Local) :
    Reports lowered body
      (item.2.mapOperands (Split.shown lowered.splitContext lowered.nameOf) var) := by
  intro held source target mode isCast
  rw [Statement.operands_mapOperands, List.mem_map] at isCast
  obtain ⟨operand, isOperand, same⟩ := isCast
  cases (lifts.gathers.sound item member).operands operand isOperand with
  | constant _ | literal _ _ _ => cases same
  | @var slot stated =>
      have isSlot := Statement.mem_slots_of_operand isOperand
      obtain ⟨-, named, kind⟩ := lifts.named member isSlot
      rw [Split.shown, Split.shownAs] at same
      split at same
      · cases same
      · rename_i refused
        split at same
        · cases same
          rw [kind, Bool.not_eq_true] at refused
          obtain ⟨conflict, modes⟩ := lifts.reports_refused stated (fits slot isSlot) refused
          exact ⟨slot.value, .use named, conflict, modes⟩
        · cases same

/-- Where the slot that is written fits, a cast after the definition is reported. -/
theorem reports_moved {item : Option Addr × Statement Slot} (member : item ∈ lowered.statements)
    (fits : ∀ slot ∈ item.2.slots, Fits lowered slot) {var : Local} {cast : Option (Statement Local)}
    (defines : Split.DefinesAs lowered.splitContext lowered.nameOf lowered.splitting item.2.written var
      cast) : ∀ moved ∈ cast, Reports lowered body moved := by
  intro moved isCast held source target mode isOperand
  have written : ∀ slot, item.2.written = some slot → slot ∈ item.2.slots :=
    fun slot isWritten => Statement.mem_slots.mpr (.inr isWritten)
  generalize item.2.written = dest at defines written
  cases defines with
  | nothing | directly _ => cases isCast
  | @throughCast slot temporary produced refused preferred _ isTemporary =>
      obtain rfl := Option.some.inj isCast
      obtain ⟨stated, named, kind⟩ := lifts.named member (written slot rfl)
      cases List.mem_singleton.mp isOperand
      rw [kind] at refused
      obtain ⟨conflict, modes⟩ := lifts.reports_refused stated (fits slot (written slot rfl)) refused
      exact ⟨slot.value, .definition named isTemporary, conflict, modes⟩

/-- A slot of a class that is not conflicting shares its local with no conflicting value. -/
theorem free_of_localOf {item : Option Addr × Statement Slot} (member : item ∈ lowered.statements)
    {slot : Slot} (isSlot : slot ∈ item.2.slots) {value : Nat}
    (same : lowered.localOf value = some (lowered.nameOf slot.value)) :
    lowered.solution.isConflicting value = lowered.solution.isConflicting slot.value := by
  obtain ⟨stated, named, -⟩ := lifts.named member isSlot
  rw [Solution.isConflicting, ← lifts.class_of_local stated.present named same,
    Solution.isConflicting]

/-- A slot that is used, or written, fits where the casts that it makes are reported. -/
theorem fits_of_reports {item : Option Addr × Statement Slot} (member : item ∈ lowered.statements)
    {var : Local} {cast : Option (Statement Local)}
    (defines : Split.DefinesAs lowered.splitContext lowered.nameOf lowered.splitting item.2.written var
      cast)
    (reports : Reports lowered body
      (item.2.mapOperands (Split.shown lowered.splitContext lowered.nameOf) var))
    (moves : ∀ moved ∈ cast, Reports lowered body moved) :
    ∀ slot ∈ item.2.slots, Fits lowered slot := by
  intro slot isSlot free only
  obtain ⟨-, named, kind⟩ := lifts.named member isSlot
  obtain ⟨target, preferred⟩ := exists_preferred_of_isWidthOnly only
  by_contra refused
  rw [← kind] at refused
  have impossible : ∀ {value : Nat}, lowered.solution.isConflicting value = true →
      lowered.localOf value ≠ some (lowered.nameOf slot.value) := by
    intro value conflict same
    rw [lifts.free_of_localOf member isSlot same, free] at conflict
    cases conflict
  rcases Statement.mem_slots.mp isSlot with isUse | written
  · have isOperand := (lifts.gathers.sound item member).operand_of_use isUse
    have shown : Split.shown lowered.splitContext lowered.nameOf (.var slot) ∈
        (item.2.mapOperands (Split.shown lowered.splitContext lowered.nameOf) var).operands := by
      rw [Statement.operands_mapOperands]
      exact List.mem_map_of_mem isOperand
    rw [Split.shown, Split.shownAs, if_neg refused, preferred] at shown
    obtain ⟨value, castOf, conflict, -⟩ := reports _ _ _ _ shown
    rcases castOf.value_eq with same | ⟨isTemporary, -⟩
    · exact impossible conflict same
    · exact isTemporary_ne isTemporary _ named
  · rw [written] at defines
    cases defines with
    | directly allowed =>
        rcases allowed with allowed | nothing
        · exact refused allowed
        · rw [preferred] at nothing
          cases nothing
    | throughCast _ _ _ isTemporary =>
        obtain ⟨value, castOf, conflict, -⟩ := moves _ rfl _ _ _ _ (List.mem_singleton_self _)
        rcases castOf.value_eq with same | ⟨-, held, same, isHeld⟩
        · exact isTemporary_ne isTemporary _ same
        · obtain rfl := Option.some.inj isHeld
          exact impossible conflict same

/-- A statement's casts are reported, and so is the cast after it, exactly if its slots fit. -/
theorem reports_iff {item : Option Addr × Statement Slot} (member : item ∈ lowered.statements)
    {first : Statement Local} {cast : Option (Statement Local)}
    (shows : Split.Shows lowered.splitContext lowered.nameOf lowered.splitting item.2 first cast) :
    (∀ slot ∈ item.2.slots, Fits lowered slot) ↔
      Reports lowered body first ∧ ∀ moved ∈ cast, Reports lowered body moved := by
  obtain ⟨var, rfl, defines⟩ := shows.exists_defined
  constructor
  · exact fun fits => ⟨lifts.reports_shown member fits var, lifts.reports_moved member fits defines⟩
  · rintro ⟨reports, moves⟩
    exact lifts.fits_of_reports member defines reports moves

/-- All casts are reported exactly if all slots fit. -/
theorem castsReported_iff : CastsReported lowered body ↔
    ∀ item ∈ lowered.statements, ∀ slot ∈ item.2.slots, Fits lowered slot := by
  refine (@Split.AllShown.forall_iff _ _ _ _ _ lifts.shown (Reports lowered body)
    (fun statement => ∀ slot ∈ statement.slots, Fits lowered slot) ?_).symm
  rintro statement first cast ⟨place, member⟩ shows
  exact lifts.reports_iff member shows

/-! ## Widths -/

section

variable (fit : code.ResultsFit pool) (distinct : (code.instructions.map Instruction.addr).Nodup)
  (small : code.registers ≤ 65536)
include fit distinct small

/-- Values have the width with which they are written or read. -/
theorem width_of_comes {value : Nat} {width : Width} (comes : Comes context lowered.state value width)
    {record : ProvisionalValue} (found : lowered.state.values.values[value]? = some record) :
    record.width = width := by
  obtain ⟨rfl, rfl, -⟩ := contextOf_eq_ok.mp lifts.ofCode
  cases comes with
  | undefined found' _ own => exact Option.some.inj (found.symm.trans found') ▸ own
  | @defined site reg defined provides =>
      obtain ⟨record', found', isSite, isReg⟩ := ValueFile.definedAt?_eq_some defined
      obtain rfl := Option.some.inj (found.symm.trans found')
      obtain ⟨arguments, isArguments, provides⟩ := provides
      cases lifts.gathers.orderly.opened record (List.mem_of_getElem? found) with
      | undefined isNew =>
          rw [isNew] at isSite
          cases isSite
      | provided isSite' provides' =>
          obtain rfl := Option.some.inj (isSite.symm.trans isSite')
          obtain ⟨arguments', isArguments', provides'⟩ := provides'
          obtain rfl := Except.ok.inj (isArguments.symm.trans isArguments')
          rw [isReg] at provides'
          exact provides'.unique distinct (Argument.nodup_regs isArguments small) provides
      | @result call next kind follows moves passes isSite' first own =>
          obtain rfl := Option.some.inj (isSite.symm.trans isSite')
          rw [own]
          generalize isAddr : Site.at next.addr = site at provides
          cases provides with
          | written listed defines =>
              have isNext := List.inj_on_of_nodup_map distinct
                (follows.subset (List.mem_cons_of_mem _ List.mem_cons_self)) listed (Site.at.inj isAddr)
              exact fit call next kind _ _ follows moves passes (isNext ▸ defines)
          | passed _ => cases isAddr

/-- A class has the width of its values. -/
theorem classWidth_of_comes {value : Nat} {width : Width}
    (comes : Comes context lowered.state value width) :
    Solution.classWidth lowered.state.values.values lowered.state.recorded value = width := by
  have joined : ∀ {first second : Nat}, Relation.EqvGen (fun a b =>
      ∃ entry ∈ lowered.state.recorded, entry.constraint = .sameAs a b) first second →
      lowered.state.values.values[first]?.map ProvisionalValue.width =
        lowered.state.values.values[second]?.map ProvisionalValue.width := by
    intro first second connected
    induction connected with
    | rel first second joins =>
        obtain ⟨entry, listed, same⟩ := joins
        obtain ⟨own, one, two⟩ := lifts.gathers.orderly.linked entry listed first second same
        have isOne := List.getElem?_eq_getElem one.lt
        have isTwo := List.getElem?_eq_getElem two.lt
        rw [isOne, isTwo, Option.map_some, Option.map_some,
          lifts.width_of_comes fit distinct small one isOne,
          lifts.width_of_comes fit distinct small two isTwo]
    | refl => rfl
    | symm _ _ _ ih => exact ih.symm
    | trans _ _ _ _ _ one two => exact one.trans two
  obtain ⟨other, isMate, record, found, own⟩ := @Solution.exists_classWidth
    lowered.state.values.values lowered.state.recorded value comes.lt
  obtain ⟨present, sameClass⟩ := Solution.mem_classmates.mp isMate
  have same := joined ((lifts.inside.label_eq_iff present comes.lt).mp sameClass)
  have isValue := List.getElem?_eq_getElem comes.lt
  rw [found, isValue, Option.map_some, Option.map_some,
    lifts.width_of_comes fit distinct small comes isValue] at same
  exact own ▸ Option.some.inj same

/-- All slots fit. -/
theorem fits_of_resultsFit {slot : Slot} (stated : Stated context lowered.state slot) :
    Fits lowered slot := by
  intro free only
  have several : slot.contract.single = none := by
    rw [KindSet.isWidthOnly, Bool.or_eq_true, beq_iff_eq, beq_iff_eq] at only
    rcases only with same | same <;> rw [same] <;> rfl
  have width := lifts.classWidth_of_comes fit distinct small (stated.comes several)
  rw [KindSet.isWidthOnly_iff.mp only, KindSet.contains_ofWidth, ← width]
  exact Solution.width_kindOf lifts.inside stated.present free

end

/-- Without casts all locals are those of values. -/
theorem local_of_clean (clean : ∀ item ∈ body.statements, ∀ operand ∈ item.2.operands,
    ∀ var source target mode, operand ≠ .cast var source target mode) :
    ∀ var ∈ body.locals, ∃ value, lowered.localOf value = some var := by
  intro var member
  rw [lifts.locals] at member
  rw [lifts.assembled] at clean
  obtain ⟨⟨made, advances, read⟩, -⟩ := @Split.statements_shown lowered.splitContext
    lowered.statements {} Splitting.valid_empty
  have isHeld : ∃ web, lowered.splitting.webs.lookup web = some var := by
    by_contra noWeb
    rcases advances.temporaries var ⟨member, fun web found => noWeb ⟨web, found⟩⟩ with
      ⟨old, -⟩ | isMade
    · cases old
    · obtain ⟨item, listed, _, _, _, isRead⟩ := read var isMade
      exact clean item listed _ isRead _ _ _ _ rfl
  obtain ⟨web, isVar⟩ := isHeld
  obtain ⟨value, rfl, -⟩ := advances.kinded (fun _ _ found => by cases found) web var isVar
  exact ⟨value, isVar⟩

end Lifts

/-- A body without a conflict has no casts that are reported. -/
theorem CastsReported.clean (reported : CastsReported lowered body)
    (lifts : Lifts code pool options body context lowered)
    (calm : ∀ report ∈ body.diagnostics, report.isConflict = false) :
    ∀ item ∈ body.statements, ∀ operand ∈ item.2.operands, ∀ var source target mode,
      operand ≠ .cast var source target mode := by
  rintro item member operand isOperand var source target mode rfl
  obtain ⟨value, castOf, conflict, -⟩ := reported item member var source target mode isOperand
  obtain ⟨_, report, -, listed, isConflict⟩ :=
    Solution.exists_report lifts.inside (Solution.present_of_isConflicting conflict) conflict
  rw [← Lowered.solution, ← lifts.diagnostics] at listed
  rw [calm report (List.mem_of_getElem? listed)] at isConflict
  cases isConflict

/-- All casts of a body are reported exactly if no class without conflict has a kind of another
width than a slot, as none has where results are moved with the width of what calls pass.
Then a body without a conflict has no casts, and all its locals are of values. -/
theorem casts_reported_iff (lifted : run code pool options = .ok body)
    (distinct : (code.instructions.map Instruction.addr).Nodup) (small : code.registers ≤ 65536) :
    ∃ context lowered, Lifts code pool options body context lowered ∧
      (CastsReported lowered body ↔
        ∀ item ∈ lowered.statements, ∀ slot ∈ item.2.slots, Fits lowered slot) ∧
      (code.ResultsFit pool → CastsReported lowered body) ∧
      (CastsReported lowered body → (∀ report ∈ body.diagnostics, report.isConflict = false) →
        (∀ item ∈ body.statements, ∀ operand ∈ item.2.operands, ∀ var source target mode,
          operand ≠ .cast var source target mode) ∧
        ∀ var ∈ body.locals, ∃ value, lowered.localOf value = some var) := by
  obtain ⟨context, lowered, lifts⟩ := exists_lifts lifted
  refine ⟨context, lowered, lifts, lifts.castsReported_iff, fun fit => ?_, fun reported calm => ?_⟩
  · refine lifts.castsReported_iff.mpr fun item member slot isSlot => ?_
    exact lifts.fits_of_resultsFit fit distinct small (lifts.named member isSlot).1
  · have clean := reported.clean lifts calm
    exact ⟨clean, lifts.local_of_clean clean⟩

end Lift

/-- The pool of a class with a method that takes an object and an int, and one that returns a
value of a type. -/
def Pool.returning (type : Descriptor) : Pool where
  methods := { items := [⟨.object "a/B", "f", ⟨[.object "java/lang/Object", .int], .void⟩⟩,
    ⟨.object "a/B", "g", ⟨[], type⟩⟩] }

def Argument.objectAndInt : List Argument :=
  [⟨.ofNat 2, .narrow, .object, .parameter 0 (.object "java/lang/Object")⟩,
    ⟨.ofNat 3, .narrow, .int, .parameter 1 .int⟩]

/-- A method that calls the other one, and moves a wide result into an array of an unknown
type. -/
def Code.storesResult : Code where
  method := 0
  flags := ⟨8⟩
  registers := 4
  instructions := [{ Instruction.ofOpcode 0 .invokeStatic [] none none with reference := some ⟨.method, 1⟩ },
    .ofOpcode 3 .moveResultWide [.ofNat 0] none none,
    .ofOpcode 4 .aputWide [.ofNat 0, .ofNat 2, .ofNat 3] none none, .ofOpcode 6 .returnVoid [] none none]
  tries := []

namespace Lift

/-- A long that is moved as a wide value is stored as it is. -/
theorem castsReported_storesResult_long : Code.storesResult.ResultsFit (.returning .long) ∧
    ∃ body context lowered, run .storesResult (.returning .long) {} = .ok body ∧
      Lifts .storesResult (.returning .long) {} body context lowered ∧ CastsReported lowered body ∧
      ∀ var ∈ body.locals, ∃ value, lowered.localOf value = some var := by
  have fit : Code.storesResult.ResultsFit (.returning .long) := by decide
  have lowers : LowersTo .storesResult (.returning .long) ⟨4, [(.ofNat 2, .narrow), (.ofNat 3, .narrow)]⟩
      4 {} fun _ lowered => ∀ report ∈ lowered.solution.diagnostics, report.isConflict = false := by
    decide +kernel
  obtain ⟨body, context, lowered, lifted, lifts, calm⟩ := @LowersTo.exists_lifts .storesResult
    (.returning .long) Argument.objectAndInt 4 {} _ _ (by decide) (by decide) rfl lowers
  obtain ⟨context', lowered', lifts', -, reported, plain⟩ := casts_reported_iff lifted (by decide) (by decide)
  obtain rfl := Except.ok.inj (lifts.ofCode.symm.trans lifts'.ofCode)
  obtain rfl := Except.ok.inj (lifts.lowers.symm.trans lifts'.lowers)
  rw [← lifts.diagnostics] at calm
  exact ⟨fit, body, context, lowered, lifted, lifts, reported fit, (plain (reported fit) calm).2⟩

/-- An int that is moved as a wide value is stored as a long, without a conflict that reports
this. -/
theorem not_castsReported_storesResult_int : ∃ body context lowered,
    run .storesResult (.returning .int) {} = .ok body ∧
      Lifts .storesResult (.returning .int) {} body context lowered ∧ ¬ CastsReported lowered body := by
  have lowers : LowersTo .storesResult (.returning .int) ⟨4, [(.ofNat 2, .narrow), (.ofNat 3, .narrow)]⟩
      4 {} fun _ lowered => (∀ report ∈ lowered.solution.diagnostics, report.isConflict = false) ∧
        (some 4, .assign (.element (.var ⟨.object, 0⟩) (.var ⟨.int, 0⟩))
          (.use (.cast ⟨.int, 1⟩ .int .long (.coerce none)))) ∈
            (assemble .storesResult lowered lowered.solution).statements := by
    decide +kernel
  obtain ⟨body, context, lowered, lifted, lifts, calm, stores⟩ := @LowersTo.exists_lifts .storesResult
    (.returning .int) Argument.objectAndInt 4 {} _ _ (by decide) (by decide) rfl lowers
  refine ⟨body, context, lowered, lifted, lifts, fun reported => ?_⟩
  rw [← lifts.diagnostics] at calm
  rw [← lifts.assembled] at stores
  exact reported.clean lifts calm _ stores _ List.mem_cons_self _ _ _ _ rfl

end Lift

end Dalvik
