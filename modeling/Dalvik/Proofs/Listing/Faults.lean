import Dalvik.Proofs.Descriptor
import Dalvik.Proofs.Listing.Assembly

/-!
# How methods of a listing are refused

The lines of a method are taken and assembled, or one of them has a fault.  Only
the prototype of a method reference may be cut inside of a character instead.
-/

namespace Dalvik.Listing

/-! ## Outcomes -/

/-- A computation that fails only with faults of lines. -/
def Safe {α : Type} (outcome : Except CodeError α) : Prop :=
  ∀ error, outcome = .error error → ∃ line fault, error = .listing line fault

/-- A computation that ends inside of a character if a condition holds, and is safe otherwise. -/
def Settles {α : Type} (condition : Prop) (outcome : Except CodeError α) : Prop :=
  condition ∧ outcome = .error .insideCharacter ∨ ¬condition ∧ Safe outcome

section

variable {α β : Type}

theorem safe_ok (value : α) : Safe (.ok value) := by
  intro error same
  cases same

theorem safe_pure (value : α) : Safe (pure value : Except CodeError α) :=
  safe_ok value

theorem safe_fail (line : Nat) (fault : ListingFault) :
    Safe (fail line fault : Except CodeError α) :=
  fun _ same => ⟨line, fault, (Except.error.inj same).symm⟩

theorem Safe.bind {first : Except CodeError α} {next : α → Except CodeError β} (safe : Safe first)
    (each : ∀ value, first = .ok value → Safe (next value)) : Safe (first >>= next) := by
  intro error failed
  rcases bind_eq_error.mp failed with failed | ⟨value, done, failed⟩
  · exact safe error failed
  · exact each value done error failed

/-- Nothing follows a fault. -/
theorem safe_fail_bind (line : Nat) (fault : ListingFault) (next : α → Except CodeError β) :
    Safe (fail line fault >>= next) :=
  (safe_fail line fault).bind fun _ done => by cases done

theorem Safe.mapM {act : α → Except CodeError β} (each : ∀ item, Safe (act item)) (list : List α) :
    Safe (list.mapM act) := by
  induction list with
  | nil => exact safe_pure []
  | cons item list ih =>
      rw [List.mapM_cons]
      exact (each item).bind fun value _ => ih.bind fun values _ => safe_pure _

theorem Safe.foldlM {act : β → α → Except CodeError β} (each : ∀ state item, Safe (act state item))
    (list : List α) (state : β) : Safe (list.foldlM act state) := by
  induction list generalizing state with
  | nil => exact safe_pure state
  | cons item list ih =>
      rw [List.foldlM_cons]
      exact (each state item).bind fun after _ => ih after

theorem Safe.optionMapM {act : α → Except CodeError β} (each : ∀ item, Safe (act item))
    (option : Option α) : Safe (option.mapM act) := by
  cases option with
  | none => exact safe_ok none
  | some item => exact (each item).bind fun value _ => safe_pure _

theorem Safe.map {outcome : Except CodeError α} (safe : Safe outcome) (act : α → β) :
    Safe (outcome.map act) := by
  cases outcome with
  | error error => exact fun _ same => safe _ (congrArg _ (Except.error.inj same))
  | ok value => exact safe_ok _

theorem Safe.settles {outcome : Except CodeError α} (safe : Safe outcome) {condition : Prop}
    (never : ¬condition) : Settles condition outcome :=
  .inr ⟨never, safe⟩

theorem Settles.iff {outcome : Except CodeError α} {condition other : Prop}
    (settles : Settles condition outcome) (same : condition ↔ other) : Settles other outcome :=
  propext same ▸ settles

theorem Settles.bind {first : Except CodeError α} {next : α → Except CodeError β} {condition : Prop}
    {later : α → Prop} (settles : Settles condition first)
    (each : ∀ value, first = .ok value → Settles (later value) (next value)) :
    Settles (condition ∨ ∃ value, first = .ok value ∧ later value) (first >>= next) := by
  rcases settles with ⟨holds, inside⟩ | ⟨never, safe⟩
  · exact .inl ⟨.inl holds, by rw [inside]; rfl⟩
  · cases result : first with
    | error error =>
        refine .inr ⟨by simp [never], fun other failed => ?_⟩
        exact safe other (result.trans (congrArg _ (Except.error.inj failed)))
    | ok value =>
        have same : (condition ∨ ∃ other, first = .ok other ∧ later other) ↔ later value := by
          simp [never, result]
        rw [result] at same
        exact (each value result).iff same.symm

/-- What follows a computation that may end inside of a character is safe. -/
theorem Settles.bind_safe {first : Except CodeError α} {next : α → Except CodeError β}
    {condition : Prop} (settles : Settles condition first)
    (each : ∀ value, first = .ok value → Safe (next value)) :
    Settles condition (first >>= next) := by
  have never : ∀ value, first = .ok value → Settles False (next value) :=
    fun value done => (each value done).settles id
  exact (settles.bind never).iff (by simp)

/-- What comes before a computation that may end inside of a character is safe. -/
theorem Safe.bind_settles {first : Except CodeError α} {next : α → Except CodeError β}
    (safe : Safe first) (later : α → Prop)
    (each : ∀ value, first = .ok value → Settles (later value) (next value)) :
    Settles (∃ value, first = .ok value ∧ later value) (first >>= next) := by
  have start : Settles False first := safe.settles id
  exact (start.bind each).iff (by simp)

/-- A fold ends inside of a character where one of its steps does. -/
theorem Settles.foldlM {act : β → α → Except CodeError β} {condition : β → α → Prop}
    (each : ∀ state item, Settles (condition state item) (act state item)) (list : List α)
    (state : β) :
    Settles (∃ before item after middle, list = before ++ item :: after ∧
      before.foldlM act state = .ok middle ∧ condition middle item) (list.foldlM act state) := by
  -- The item that ends the fold is the first one, or among the rest, after the first one's state.
  induction list generalizing state with
  | nil => exact (safe_pure state).settles (by simp)
  | cons first list ih =>
      rw [List.foldlM_cons]
      refine ((each state first).bind fun after _ => ih after).iff ⟨?_, ?_⟩
      · rintro (here | ⟨next, done, before, item, after, middle, rfl, folded, holds⟩)
        · exact ⟨[], first, list, state, rfl, rfl, here⟩
        · refine ⟨first :: before, item, after, middle, rfl, ?_, holds⟩
          rw [List.foldlM_cons, done]
          exact folded
      · rintro ⟨before, item, after, middle, same, folded, holds⟩
        cases before with
        | nil =>
            obtain ⟨rfl, rfl⟩ := List.cons.inj same
            obtain rfl := pure_eq_ok.mp folded
            exact .inl holds
        | cons first' before =>
            obtain ⟨rfl, rfl⟩ := List.cons.inj same
            rw [List.foldlM_cons] at folded
            obtain ⟨next, done, folded⟩ := bind_eq_ok.mp folded
            exact .inr ⟨next, done, before, item, after, middle, rfl, folded, holds⟩

end

/-! ## Assembling -/

/-- A reference to a method whose prototype is cut inside of a character. -/
def SplitsReference (opcode : Opcode) (text : List Char) : Prop :=
  opcode.reference = some .method ∧ ∃ owner member type,
    splitAt? ['-', '>'] text = some (owner, member) ∧ '(' ∈ member ∧
    Descriptor.read owner = .ok type ∧ Prototype.Splits (member.dropWhile (· ≠ '('))

variable {line : Nat} {opcode : Opcode} {draft : Draft} {frame : Frame}

theorem safe_readDescriptor (line : Nat) (text : List Char) : Safe (readDescriptor line text) := by
  unfold readDescriptor
  cases result : Descriptor.read text with
  | ok type => exact safe_ok type
  | error error =>
      obtain ⟨source, target, rfl⟩ := Descriptor.refusal_of_read result
      exact safe_fail line _

theorem settles_readPrototype (line : Nat) (text : List Char) :
    Settles (Prototype.Splits text) (atLine line (Prototype.read text)) := by
  cases result : Prototype.read text with
  | ok prototype =>
      refine (safe_ok prototype).settles fun splits => ?_
      cases result.symm.trans (Prototype.read_inside.mpr splits)
  | error error =>
      rcases Prototype.refusal_of_read result with rfl | ⟨source, target, rfl⟩
      · exact .inl ⟨Prototype.read_inside.mp result, rfl⟩
      · refine (safe_fail line _).settles fun splits => ?_
        cases result.symm.trans (Prototype.read_inside.mpr splits)

theorem safe_splitMember (line : Nat) (kind : ReferenceKind) (text : List Char) :
    Safe (splitMember line kind text) := by
  unfold splitMember
  split
  · exact safe_ok _
  · exact safe_fail line _

theorem splitMember_eq_ok {kind : ReferenceKind} {text : List Char} {parts : List Char × List Char} :
    splitMember line kind text = .ok parts ↔ splitAt? ['-', '>'] text = some parts := by
  unfold splitMember fail
  split <;> simp_all

theorem readDescriptor_eq_ok {text : List Char} {type : Descriptor} :
    readDescriptor line text = .ok type ↔ Descriptor.read text = .ok type :=
  Draft.atLine_eq_ok

theorem settles_internReference (line : Nat) (pool : Pool) (opcode : Opcode) (text : List Char) :
    Settles (SplitsReference opcode text) (internReference line pool opcode text) := by
  unfold internReference
  split
  · rename_i isType
    refine Safe.settles ?_ fun splits => by cases isType.symm.trans splits.1
    exact (safe_readDescriptor line text).bind fun type _ => safe_pure _
  · rename_i isField
    refine Safe.settles ?_ fun splits => by cases isField.symm.trans splits.1
    refine (safe_splitMember line .field text).bind fun parts _ => ?_
    dsimp only
    split
    · exact safe_fail_bind line _ _
    · refine (safe_readDescriptor line _).bind fun owner _ => ?_
      exact (safe_readDescriptor line _).bind fun type _ => safe_pure _
  · rename_i isMethod
    refine ((safe_splitMember line .method text).bind_settles
      (fun parts => '(' ∈ parts.2 ∧ ∃ type, Descriptor.read parts.1 = .ok type ∧
        Prototype.Splits (parts.2.dropWhile (· ≠ '('))) fun parts _ => ?_).iff ?_
    · dsimp only
      split
      · rename_i noPrototype
        refine Safe.settles ?_ fun splits => noPrototype splits.1
        exact safe_fail_bind line _ _
      · rename_i opens
        refine ((safe_readDescriptor line parts.1).bind_settles
          (fun _ => Prototype.Splits (parts.2.dropWhile (· ≠ '('))) fun owner _ => ?_).iff ?_
        · exact (settles_readPrototype line _).bind_safe fun prototype _ => safe_pure _
        · simp only [readDescriptor_eq_ok, not_not.mp opens, true_and]
    · simp only [splitMember_eq_ok, SplitsReference, isMethod, true_and, Prod.exists]
      constructor
      · rintro ⟨owner, member, found, opens, type, isType, splits⟩
        exact ⟨owner, member, type, found, opens, isType, splits⟩
      · rintro ⟨owner, member, type, found, opens, isType, splits⟩
        exact ⟨owner, member, found, opens, type, isType, splits⟩
  all_goals
    rename_i other
    exact (safe_fail line _).settles fun splits => by cases other.symm.trans splits.1

/-! ## Operands -/

theorem safe_resolve (frame : Frame) (line : Nat) (name : RegName) :
    Safe (frame.resolve line name) := by
  unfold Frame.resolve
  split
  · split
    · exact safe_fail line _
    · exact safe_ok _
  · exact safe_ok _

theorem safe_literalValue (line : Nat) (opcode : Opcode) (literal : Literal) :
    Safe (literalValue line opcode literal) := by
  unfold literalValue
  dsimp only
  split
  · cases literal <;> exact safe_ok _
  · cases literal with
    | int value =>
        dsimp only
        split
        · exact safe_ok _
        · exact safe_fail line _
    | float bits => exact safe_ok _
    | double bits => exact safe_ok _

theorem safe_encode (line : Nat) (opcode : Opcode) (operands : Operands) :
    Safe (atLine line (Binary.encode opcode operands)) := by
  unfold Binary.encode
  cases Binary.encodeUnits opcode operands with
  | error fault => exact safe_fail line _
  | ok units => exact safe_ok units

namespace Draft

theorem safe_labelAddr (draft : Draft) (line : Nat) (name : String) :
    Safe (draft.labelAddr line name) := by
  unfold labelAddr
  split
  · exact safe_ok _
  · exact safe_fail line _

theorem safe_frame (draft : Draft) : Safe draft.frame := by
  unfold frame
  dsimp only
  split
  · exact safe_ok _
  · exact safe_ok _
  · exact safe_fail draft.line _

theorem safe_offsetTo (line : Nat) (addr target : Addr) : Safe (offsetTo line addr target) := by
  unfold offsetTo
  dsimp only
  split
  · exact safe_ok _
  · exact safe_fail line _

theorem safe_offsetToLabel (draft : Draft) (line : Nat) (addr : Addr) (name : String) :
    Safe (draft.offsetToLabel line addr name) :=
  (safe_labelAddr draft line name).bind fun _ _ => safe_offsetTo line addr _

theorem safe_resolvePayload (draft : Draft) (line : Nat) (addr : Addr) (payload : DraftPayload) :
    Safe (draft.resolvePayload line addr payload) := by
  cases payload with
  | packed firstKey labels =>
      exact (Safe.mapM (safe_offsetToLabel draft line addr) labels).bind fun _ _ => safe_pure _
  | sparse entries =>
      refine (Safe.mapM (fun entry => ?_) entries).bind fun _ _ => safe_pure _
      exact safe_offsetToLabel draft line addr entry.2
  | array width elements => exact safe_ok _

theorem safe_payloadAt (draft : Draft) (line : Nat) (opcode : Opcode) (addr target : Addr) :
    Safe (draft.payloadAt line opcode addr target) := by
  unfold payloadAt
  split
  · exact safe_fail line _
  · refine (safe_resolvePayload draft line addr _).bind fun payload _ => ?_
    dsimp only
    split
    · exact safe_fail_bind line _ _
    · exact safe_pure _

theorem safe_checkPresence (line : Nat) (opcode : Opcode) (kind : ListingOperand)
    (expected found : Bool) : Safe (checkPresence line opcode kind expected found) := by
  unfold checkPresence
  split
  · exact safe_ok _
  · exact safe_fail line _

theorem safe_checkOperands (line : Nat) (opcode : Opcode) (gathered : Gathered) :
    Safe (checkOperands line opcode gathered) := by
  refine (safe_checkPresence line opcode _ _ _).bind fun _ _ => ?_
  refine (safe_checkPresence line opcode _ _ _).bind fun _ _ => ?_
  refine (safe_checkPresence line opcode _ _ _).bind fun _ _ => ?_
  split
  · split
    · exact safe_fail line _
    · exact safe_pure _
  · exact safe_pure _

/-- Only a reference to a method may be cut inside of a character. -/
def SplitsToken (opcode : Opcode) (token : Token) : Prop :=
  ∃ text, token = .descriptor text ∧ SplitsReference opcode text

theorem settles_gather (draft : Draft) (frame : Frame) (line : Nat) (opcode : Opcode)
    (sofar : Gathered) (token : Token) :
    Settles (SplitsToken opcode token) (draft.gather frame line opcode sofar token) := by
  cases token with
  | descriptor text =>
      refine ((settles_internReference line sofar.pool opcode text).bind_safe
        fun _ _ => safe_pure _).iff ?_
      simp [SplitsToken]
  | reg name =>
      refine Safe.settles ?_ (by simp [SplitsToken])
      exact (safe_resolve frame line name).bind fun _ _ => safe_pure _
  | regs names =>
      refine Safe.settles ?_ (by simp [SplitsToken])
      exact (Safe.mapM (safe_resolve frame line) names).bind fun _ _ => safe_pure _
  | range first last =>
      refine Safe.settles ?_ (by simp [SplitsToken])
      refine (safe_resolve frame line first).bind fun first _ => ?_
      refine (safe_resolve frame line last).bind fun last _ => ?_
      dsimp only
      split
      · exact safe_fail_bind line _ _
      · exact safe_pure _
  | label name =>
      refine Safe.settles ?_ (by simp [SplitsToken])
      exact (safe_labelAddr draft line name).bind fun _ _ => safe_pure _
  | literal literal =>
      refine Safe.settles ?_ (by simp [SplitsToken])
      exact (safe_literalValue line opcode literal).bind fun _ _ => safe_pure _
  | string text => exact (safe_ok _).settles (by simp [SplitsToken])

/-- An instruction line with a reference that is cut inside of a character, behind operands that
are sound. -/
def SplitsLine (draft : Draft) (frame : Frame) (pool : Pool) (pending : DraftInstruction) : Prop :=
  ∃ before text after gathered, pending.tokens = before ++ .descriptor text :: after ∧
    before.foldlM (draft.gather frame pending.line pending.opcode) { pool } = .ok gathered ∧
    SplitsReference pending.opcode text

theorem settles_assembleInstruction (draft : Draft) (frame : Frame) (pool : Pool)
    (pending : DraftInstruction) :
    Settles (draft.SplitsLine frame pool pending)
      (draft.assembleInstruction frame pool pending) := by
  -- Only gathering operands may end inside of a character; what is made of them is safe.
  have gathers : Settles (draft.SplitsLine frame pool pending)
      (pending.tokens.foldlM (draft.gather frame pending.line pending.opcode) { pool }) := by
    refine (Settles.foldlM (settles_gather draft frame pending.line pending.opcode) _ _).iff ?_
    constructor
    · rintro ⟨before, _, after, gathered, same, folded, text, rfl, splits⟩
      exact ⟨before, text, after, gathered, same, folded, splits⟩
    · rintro ⟨before, text, after, gathered, same, folded, splits⟩
      exact ⟨before, _, after, gathered, same, folded, text, rfl, splits⟩
  refine gathers.bind_safe fun gathered _ => ?_
  refine (safe_checkOperands _ _ gathered).bind fun _ _ => ?_
  refine (Safe.optionMapM (safe_offsetTo _ _) gathered.target).bind fun offset _ => ?_
  dsimp only
  split
  · refine ((safe_payloadAt draft _ _ _ _).map some).bind fun payload _ => ?_
    exact (safe_encode _ _ _).bind fun units _ => safe_pure _
  · exact (safe_ok none).bind fun payload _ => (safe_encode _ _ _).bind fun units _ => safe_pure _

/-- Instruction lines one of which has such a reference, behind lines that are assembled. -/
def SplitsSome (draft : Draft) (frame : Frame) (pool : Pool) (lines : List DraftInstruction) :
    Prop :=
  ∃ earlier pending later middle instructions, lines = earlier ++ pending :: later ∧
    draft.assembleInstructions frame pool earlier = .ok (middle, instructions) ∧
    draft.SplitsLine frame middle pending

theorem splitsSome_cons {draft : Draft} {frame : Frame} {pool : Pool} {first : DraftInstruction}
    {rest : List DraftInstruction} :
    draft.SplitsSome frame pool (first :: rest) ↔ draft.SplitsLine frame pool first ∨
      ∃ assembled, draft.assembleInstruction frame pool first = .ok assembled ∧
        draft.SplitsSome frame assembled.1 rest := by
  constructor
  · rintro ⟨earlier, pending, later, middle, instructions, same, success, splits⟩
    cases earlier with
    | nil =>
        obtain ⟨rfl, rfl⟩ := List.cons.inj same
        obtain ⟨rfl, rfl⟩ := Prod.mk.inj (Except.ok.inj success)
        exact .inl splits
    | cons first' earlier =>
        obtain ⟨rfl, rfl⟩ := List.cons.inj same
        obtain ⟨assembled, one, success⟩ := bind_eq_ok.mp success
        obtain ⟨⟨_, others⟩, more, done⟩ := bind_eq_ok.mp success
        obtain ⟨rfl, rfl⟩ := Prod.mk.inj (pure_eq_ok.mp done)
        exact .inr ⟨assembled, one, earlier, pending, later, _, others, rfl, more, splits⟩
  · rintro (here | ⟨assembled, one, earlier, pending, later, middle, others, rfl, more, splits⟩)
    · exact ⟨[], first, rest, pool, [], rfl, rfl, here⟩
    · refine ⟨first :: earlier, pending, later, middle, assembled.2 :: others, rfl, ?_, splits⟩
      exact bind_eq_ok.mpr ⟨assembled, one, bind_eq_ok.mpr ⟨(middle, others), more, rfl⟩⟩

theorem settles_assembleInstructions (draft : Draft) (frame : Frame) (pool : Pool)
    (lines : List DraftInstruction) :
    Settles (draft.SplitsSome frame pool lines) (draft.assembleInstructions frame pool lines) := by
  induction lines generalizing pool with
  | nil =>
      refine (safe_ok (pool, [])).settles ?_
      rintro ⟨earlier, pending, later, _, _, same, -⟩
      exact List.append_ne_nil_of_right_ne_nil earlier (List.cons_ne_nil pending later) same.symm
  | cons first rest ih =>
      rw [assembleInstructions]
      refine Settles.iff ?_ splitsSome_cons.symm
      refine (settles_assembleInstruction draft frame pool first).bind fun assembled _ => ?_
      exact (ih assembled.1).bind_safe fun _ _ => safe_pure _

theorem safe_assembleCatch (draft : Draft) (sofar : Pool × List TryItem) (entry : DraftCatch) :
    Safe (draft.assembleCatch sofar entry) := by
  unfold assembleCatch
  refine (safe_labelAddr draft _ _).bind fun start _ => ?_
  refine (safe_labelAddr draft _ _).bind fun stop _ => ?_
  dsimp only
  split
  all_goals exact (safe_labelAddr draft _ _).bind fun addr _ => safe_pure _

/-- A method whose assembly comes to such a reference. -/
def Splits (draft : Draft) (pool : Pool) : Prop :=
  ∃ frame, draft.frame = .ok frame ∧ draft.SplitsSome frame pool draft.instructions

theorem settles_assemble (draft : Draft) (pool : Pool) :
    Settles (draft.Splits pool) (draft.assemble pool) := by
  refine (safe_frame draft).bind_settles _ fun frame _ => ?_
  refine (settles_assembleInstructions draft frame pool _).bind_safe fun assembled _ => ?_
  refine (Safe.foldlM (safe_assembleCatch draft) _ _).bind fun caught _ => ?_
  exact safe_pure _

/-! ## Lines of methods -/

theorem safe_addCatch (draft : Draft) (line : Nat) (word text : List Char) :
    Safe (draft.addCatch line word text) := by
  unfold addCatch
  split
  · exact safe_fail line _
  · exact (Safe.optionMapM (safe_readDescriptor line) _).bind fun _ _ => safe_pure _

theorem safe_addLabel (draft : Draft) (line : Nat) (word : List Char) :
    Safe (draft.addLabel line word) := by
  unfold addLabel
  dsimp only
  split
  · exact safe_fail line _
  · exact safe_ok _

theorem safe_addInstruction (draft : Draft) (line : Nat) (text : List Char) :
    Safe (draft.addInstruction line text) := by
  unfold addInstruction
  split
  · exact safe_fail line _
  · split
    · exact safe_fail line _
    · exact safe_ok _

theorem safe_addLine (draft : Draft) (line : Nat) (word rest text : List Char) :
    Safe (draft.addLine line word rest text) := by
  unfold addLine
  split
  · split
    · exact safe_fail line _
    · split <;> exact safe_ok _
  split
  · exact safe_addCatch draft line word text
  split
  · split
    · exact safe_fail line _
    · exact safe_ok _
  split
  · exact safe_ok _
  split
  · split
    · exact safe_fail line _
    · exact safe_ok _
  split
  · exact safe_addLabel draft line word
  split
  · exact safe_fail line _
  · exact safe_addInstruction draft line text

theorem safe_addPayloadLine (draft : Draft) (payload : DraftPayload) (line : Nat)
    (text : List Char) : Safe (draft.addPayloadLine payload line text) := by
  unfold addPayloadLine
  split
  · exact safe_ok _
  · split
    · exact safe_fail line _
    · exact safe_ok _

end Draft

end Dalvik.Listing
