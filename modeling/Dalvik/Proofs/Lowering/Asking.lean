import Dalvik.Proofs.Lowering.Requests

/-!
# What steps do to the state

A step of lowering asks for values, may take over a `move-result`, and leaves the declared
types of arrays as they are unless it belongs to a rule that declares one.
-/

namespace Dalvik

/-- What an instruction asks for to read an operand. -/
def Instruction.operandRequests (context : LoweringContext) (instruction : Instruction)
    (operand : Nat × Width) : List ValueFile.Request :=
  instruction.regs[operand.1]?.toList.flatMap fun reg =>
    context.requests instruction.addr (reg, operand.2)

namespace ValueFile

/-- Asking for values only adds some. -/
theorem prefix_foldl_ask {requests : List Request} {file : ValueFile} :
    file.values <+: (requests.foldl ask file).values := by
  induction requests generalizing file with
  | nil => exact List.prefix_rfl
  | cons request rest ih =>
      have first : file.values <+: (file.ask request).values := by
        unfold ask
        split
        · exact (define_spec rfl).1
        · exact List.prefix_append _ _
      exact first.trans ih

end ValueFile

namespace Lower

open ValueFile (Request)

variable {α β : Type} {context : LoweringContext} {current : Current} {declares : Prop}

/-- What a step that succeeds does: the values it asks for, the addresses it takes over, and
what holds of its result.  Only a rule that declares a type changes the declared types. -/
def Asks (declares : Prop) (act : Lower α) (requests : List Request) (taken : List Addr)
    (post : α → Prop) : Prop :=
  ∀ before result after, act.run before = .ok (result, after) →
    after.values = requests.foldl ValueFile.ask before.values ∧
      after.folded = taken ++ before.folded ∧
      (¬ declares → after.arrays = before.arrays) ∧ post result

namespace Asks

theorem pure {post : α → Prop} {value : α} (holds : post value) :
    Asks declares (pure value) [] [] post := by
  intro before result after success
  obtain ⟨rfl, rfl⟩ := Prod.mk.inj (pure_eq_ok.mp success)
  exact ⟨rfl, rfl, fun _ => rfl, holds⟩

/-- A step that takes over nothing, and one after it. -/
theorem bind {requests others : List Request} {taken : List Addr} {one : α → Prop}
    {two : β → Prop} {first : Lower α} {next : α → Lower β}
    (isFirst : Asks declares first requests [] one)
    (isNext : ∀ value, one value → Asks declares (next value) others taken two) :
    Asks declares (first >>= next) (requests ++ others) taken two := by
  intro before result after success
  obtain ⟨value, middle, head, tail⟩ := bind_eq_ok.mp success
  obtain ⟨values, folded, types, holds⟩ := isFirst before value middle head
  obtain ⟨valuesOn, foldedOn, typesOn, holdsOn⟩ := isNext value holds middle result after tail
  refine ⟨?_, ?_, fun plain => (typesOn plain).trans (types plain), holdsOn⟩
  · rw [valuesOn, values, List.foldl_append]
  · rw [foldedOn, folded, List.nil_append]

/-- A step that asks for nothing, and one after it. -/
theorem after {requests : List Request} {taken : List Addr} {one : α → Prop} {two : β → Prop}
    {first : Lower α} {next : α → Lower β} (isFirst : Asks declares first [] [] one)
    (isNext : ∀ value, one value → Asks declares (next value) requests taken two) :
    Asks declares (first >>= next) requests taken two :=
  isFirst.bind isNext

/-- A step, and one after it that asks for nothing. -/
theorem before {requests : List Request} {taken : List Addr} {one : α → Prop} {two : β → Prop}
    {first : Lower α} {next : α → Lower β} (isFirst : Asks declares first requests taken one)
    (isNext : ∀ value, one value → Asks declares (next value) [] [] two) :
    Asks declares (first >>= next) requests taken two := by
  intro before result after success
  obtain ⟨value, middle, head, tail⟩ := bind_eq_ok.mp success
  obtain ⟨values, folded, types, holds⟩ := isFirst before value middle head
  obtain ⟨valuesOn, foldedOn, typesOn, holdsOn⟩ := isNext value holds middle result after tail
  exact ⟨valuesOn.trans values, foldedOn.trans folded, fun plain => (typesOn plain).trans (types plain),
    holdsOn⟩

theorem lift (outcome : Except LiftError α) :
    Asks declares (liftM outcome : Lower α) [] [] fun value => outcome = .ok value := by
  intro before result after success
  obtain ⟨value, isValue, same⟩ := lift_eq_ok.mp success
  obtain ⟨rfl, rfl⟩ := Prod.mk.inj same
  exact ⟨rfl, rfl, fun _ => rfl, isValue⟩

theorem fails {requests : List Request} {taken : List Addr} {post : α → Prop} {error : LiftError} :
    Asks declares (throw error : Lower α) requests taken post :=
  fun _ _ _ success => absurd success throw_eq_ok

theorem get : Asks declares (get : Lower LoweringState) [] [] fun _ => True := by
  intro before result after success
  obtain ⟨rfl, rfl⟩ := Prod.mk.inj (get_eq_ok.mp success)
  exact ⟨rfl, rfl, fun _ => rfl, trivial⟩

/-- A change of other things than the values. -/
theorem modify {taken : List Addr} {change : LoweringState → LoweringState}
    (values : ∀ state, (change state).values = state.values)
    (folded : ∀ state, (change state).folded = taken ++ state.folded)
    (types : ¬ declares → ∀ state, (change state).arrays = state.arrays) :
    Asks declares (modify change : Lower PUnit) [] taken fun _ => True := by
  intro before result after success
  obtain ⟨-, rfl⟩ := Prod.mk.inj (modify_eq_ok.mp success)
  exact ⟨values before, folded before, fun plain => types plain before, trivial⟩

theorem imp {requests : List Request} {taken : List Addr} {post other : α → Prop} {act : Lower α}
    (asks : Asks declares act requests taken post) (implies : ∀ value, post value → other value) :
    Asks declares act requests taken other := by
  intro before result after success
  obtain ⟨values, folded, types, holds⟩ := asks before result after success
  exact ⟨values, folded, types, implies result holds⟩

theorem declared {requests others : List Request} {taken : List Addr} {post : α → Prop} {act : Lower α}
    (asks : Asks declares act requests taken post) (same : requests = others) :
    Asks declares act others taken post :=
  same ▸ asks

/-- A step that declares nothing only adds values. -/
theorem grows {requests : List Request} {taken : List Addr} {post : α → Prop} {act : Lower α}
    (asks : Asks False act requests taken post) {before after : LoweringState} {result : α}
    (success : act.run before = .ok (result, after)) :
    before.values.values <+: after.values.values ∧ after.arrays = before.arrays := by
  obtain ⟨values, -, types, -⟩ := asks before result after success
  exact ⟨values ▸ ValueFile.prefix_foldl_ask, types not_false⟩

end Asks

/-! ## Constraints and declared types -/

theorem asks_record {place : Option Addr} {constraint : Constraint} {origin : Origin} :
    Asks declares (record place constraint origin) [] [] fun _ => True :=
  .modify (fun _ => rfl) (fun _ => rfl) fun _ _ => rfl

theorem asks_restrict {place : Addr} {value : Nat} {kinds : KindSet} {origin : Origin} :
    Asks declares (restrict place value kinds origin) [] [] fun _ => True := by
  unfold restrict
  split
  · exact asks_record
  · exact .pure trivial

theorem asks_declare {value : Nat} {type : Descriptor} (isDeclaring : declares) :
    Asks declares (declare value type) [] [] fun _ => True := by
  unfold declare
  split
  · exact .modify (fun _ => rfl) (fun _ => rfl) fun plain => absurd isDeclaring plain
  · exact .pure trivial

theorem asks_sameKind {first second : Slot} :
    Asks declares (sameKind current first second) [] [] fun _ => True := by
  unfold sameKind
  split
  · exact .pure trivial
  · exact asks_record

theorem asks_anchor {slot : Slot} {kind : Kind} :
    Asks declares (anchor current slot kind) [] [] fun bound => bound.value = slot.value := by
  unfold anchor
  refine .after asks_record fun _ _ => ?_
  exact .pure rfl

theorem asks_anchorElement {slot : Slot} {kind : Kind} :
    Asks declares (anchorElement current slot kind) [] [] fun bound => bound.value = slot.value := by
  unfold anchorElement
  refine .after asks_anchor fun anchored same => .pure ?_
  split
  · exact same
  · rfl

/-! ## Reads -/

theorem foldl_ask_defineAll {file : ValueFile} {width : Width} {defs : List Def} :
    (file.defineAll width defs).1 =
      (defs.map fun d => (⟨some d.site, d.reg, width⟩ : Request)).foldl ValueFile.ask file := by
  induction defs generalizing file with
  | nil => rfl
  | cons d rest ih => exact ih

/-- A read asks for the values of the definitions that reach it, or for a new one. -/
theorem asks_resolve {reg : Reg} {width : Width} :
    Asks declares (resolve context current reg width) (context.requests current.addr (reg, width)) []
      fun _ => True := by
  intro before resolved after success
  simp only [resolve, bind_eq_ok, get_eq_ok, set_eq_ok, pure_eq_ok, Prod.mk.injEq] at success
  obtain ⟨_, _, ⟨rfl, rfl⟩, _, _, ⟨-, rfl⟩, -, rfl⟩ := success
  refine ⟨?_, rfl, fun _ => rfl, trivial⟩
  have all := @foldl_ask_defineAll before.values width (context.readable current.addr reg width)
  rw [LoweringContext.readable] at all
  rw [LoweringContext.requests, LoweringContext.readable]
  dsimp only [ValueFile.resolve]
  cases reaching : ((context.states.entryAt current.addr).map fun state =>
      state.readable reg width).getD [] with
  | nil => rfl
  | cons d rest =>
      rw [reaching] at all
      exact all

theorem asks_merge {place : Addr} {value : Nat} {others : List Nat} :
    Asks declares (merge place value others) [] [] fun _ => True :=
  .modify (fun _ => rfl) (fun _ => rfl) fun _ _ => rfl

theorem asks_readReaching {reg : Reg} {contract : KindSet} {origin : Origin} :
    Asks declares (readReaching context current reg contract origin)
      (context.requests current.addr (reg, contract.width)) [] fun _ => True := by
  unfold readReaching
  refine .after (.lift _) fun _ _ => ?_
  refine .before asks_resolve fun resolved _ => ?_
  refine .after asks_merge fun _ _ => ?_
  refine .after asks_restrict fun _ _ => ?_
  exact .pure trivial

theorem asks_readAs {reg : Reg} {contract : KindSet} {origin : Origin} :
    Asks declares (readAs context current reg contract origin)
      (context.requests current.addr (reg, contract.width)) [] fun _ => True := by
  unfold readAs
  refine .before asks_readReaching fun _ _ => ?_
  exact .pure trivial

theorem operandRequests_eq {position : Nat} {width : Width} {reg : Reg}
    (given : current.reg position = .ok reg) :
    context.requests current.addr (reg, width) =
      current.instruction.operandRequests context (position, width) := by
  rw [Instruction.operandRequests, reg_eq_ok.mp given]
  simp [Current.addr]

theorem asks_read {position : Nat} {contract : KindSet} :
    Asks declares (read context current position contract)
      (current.instruction.operandRequests context (position, contract.width)) [] fun _ => True := by
  unfold read
  refine .after (.lift _) fun reg given => ?_
  exact asks_readAs.declared (operandRequests_eq given)

theorem asks_readArray {position : Nat} {contract : KindSet} :
    Asks declares (readArray context current position contract)
      (current.instruction.operandRequests context (position, contract.width)) [] fun _ => True := by
  unfold readArray
  refine .after (.lift _) fun reg given => ?_
  refine .declared (.before asks_readReaching fun _ _ => ?_) (operandRequests_eq given)
  refine .after .get fun _ _ => ?_
  exact .pure trivial

theorem asks_readBoth {first second : Nat} {left right : KindSet} :
    Asks declares (readBoth context current first second left right)
      (current.instruction.operandRequests context (first, left.width) ++
        current.instruction.operandRequests context (second, right.width)) [] fun _ => True := by
  unfold readBoth
  refine .bind asks_read fun _ _ => ?_
  refine .before asks_read fun _ _ => ?_
  exact .pure trivial

theorem asks_readDeclared {contract : KindSet} {kind : Kind} :
    Asks declares (readDeclared context current contract kind)
      (current.instruction.operandRequests context (0, contract.width)) [] fun _ => True := by
  unfold readDeclared
  refine .before asks_read fun _ _ => ?_
  exact asks_anchor.imp fun _ _ => trivial

theorem asks_elementAccess :
    Asks declares (elementAccess context current)
      (current.instruction.operandRequests context (1, .narrow) ++
        current.instruction.operandRequests context (2, .narrow)) [] fun _ => True := by
  unfold elementAccess
  refine .bind asks_readArray fun _ _ => ?_
  refine .before asks_read fun _ _ => ?_
  exact .pure trivial

/-! ## Writes -/

theorem asks_define {site : Site} {reg : Reg} {width : Width} :
    Asks declares (define site reg width) [⟨some site, reg, width⟩] [] fun _ => True := by
  intro before value after success
  simp only [define, bind_eq_ok, get_eq_ok, set_eq_ok, pure_eq_ok, Prod.mk.injEq] at success
  obtain ⟨_, _, ⟨rfl, rfl⟩, _, _, ⟨-, rfl⟩, -, rfl⟩ := success
  exact ⟨rfl, rfl, fun _ => rfl, trivial⟩

theorem asks_writeAt {place : Addr} {reg : Reg} {contract : KindSet} {origin : Origin} :
    Asks declares (writeAt context current place reg contract origin)
      [⟨some (.at place), reg, contract.width⟩] [] fun _ => True := by
  unfold writeAt
  refine .after (.lift _) fun _ _ => ?_
  refine .before asks_define fun value _ => ?_
  refine .after asks_restrict fun _ _ => ?_
  exact .pure trivial

theorem asks_write {contract : KindSet} :
    Asks declares (write context current 0 contract) (current.instruction.ownRequests contract.width)
      [] fun _ => True := by
  unfold write
  refine .after (.lift _) fun reg given => asks_writeAt.declared ?_
  rw [Instruction.ownRequests, reg_eq_ok.mp given]
  rfl

theorem asks_writeDeclared {type : Descriptor} {kind : Kind} (isDeclaring : declares) :
    Asks declares (writeDeclared context current type kind)
      (current.instruction.ownRequests current.contract.width) [] fun _ => True := by
  unfold writeDeclared
  refine .before asks_write fun _ _ => ?_
  refine .after asks_anchor fun _ _ => ?_
  refine .after (asks_declare isDeclaring) fun _ _ => ?_
  exact .pure trivial

/-! ## Arguments and results of calls -/

theorem asks_readArguments {number position : Nat} {kinds : List Kind} :
    Asks declares (readArguments context current number position kinds)
      ((Instruction.argumentReads (current.instruction.regs.drop position)
        (kinds.map Kind.width)).flatMap (context.requests current.instruction.addr)) []
      fun _ => True := by
  induction kinds generalizing number position with
  | nil =>
      refine .declared (.pure trivial) ?_
      cases current.instruction.regs.drop position <;> rfl
  | cons kind kinds ih =>
      have rest : ∀ {reg : Reg}, current.reg position = .ok reg → Asks declares (do
            let slot ← readAs context current reg (.ofKind kind) .anchor
            let slots ← readArguments context current (number + 1) (position + kind.width.slots) kinds
            return slot :: slots)
          ((Instruction.argumentReads (current.instruction.regs.drop position)
            ((kind :: kinds).map Kind.width)).flatMap (context.requests current.instruction.addr)) []
          fun _ => True := by
        intro reg given
        have place : position + 1 + (kind.width.slots - 1) = position + kind.width.slots := by
          cases kind.width <;> rfl
        rw [List.drop_eq_getElem?_toList_append, reg_eq_ok.mp given, Option.toList_some,
          List.singleton_append, List.map_cons, Instruction.argumentReads, List.drop_drop, place,
          List.flatMap_cons, ← KindSet.width_ofKind]
        refine .bind asks_readAs fun _ _ => ?_
        refine .before ih fun _ _ => ?_
        exact .pure trivial
      rw [readArguments]
      refine .after (.lift _) fun reg given => ?_
      split
      · refine .after (.lift _) fun second _ => ?_
        split
        · exact .after (.lift _) fun _ _ => rest given
        · exact rest given
      · exact rest given

theorem asks_arguments {kinds : List Kind} :
    Asks declares (arguments context current kinds)
      ((Instruction.argumentReads current.instruction.regs (kinds.map Kind.width)).flatMap
        (context.requests current.instruction.addr)) []
      fun _ => kinds.foldr (fun kind slots => kind.width.slots + slots) 0 =
        current.instruction.regs.length := by
  unfold arguments
  dsimp only
  split
  · exact .after .fails fun _ impossible => (impossible : False).elim
  · rename_i same
    exact asks_readArguments.imp fun _ _ => not_not.mp same

/-- What a call takes over is the `move-result` that lowering finds. -/
theorem takesOver_eq {kind : Kind} (passes : current.instruction.resultKind context.pool = some kind) :
    current.instruction.takesOver context current.next =
      (resultMove context current).map fun taken => (taken.1, kind) := by
  rw [Instruction.takesOver, passes, resultMove]
  cases current.next with
  | none => rfl
  | some next =>
      dsimp only [bind, Option.bind]
      cases next.opcode with
      | none => rfl
      | some opcode =>
          dsimp only
          split <;> rfl

/-- A call asks for its result and takes over the `move-result`, if there is one to take over. -/
theorem asks_result {kind : Kind} (passes : current.instruction.resultKind context.pool = some kind) :
    Asks declares (result context current kind)
      (current.instruction.resultRequests context current.next)
      (current.instruction.takenAddrs context current.next) fun _ => True := by
  unfold result Instruction.resultRequests Instruction.takenAddrs
  rw [takesOver_eq passes]
  split
  · rename_i nothing
    rw [nothing]
    exact .pure trivial
  · rename_i next opcode found
    rw [found]
    split
    · rename_i reg first
      rw [List.head?_eq_getElem?] at first
      have asked : next.ownRequests kind.width =
          [⟨some (.at next.addr), reg, (KindSet.ofKind kind).width⟩] := by
        rw [Instruction.ownRequests, first, KindSet.width_ofKind]
        rfl
      rw [Option.map_some, Option.elim_some, asked]
      refine .bind asks_writeAt fun dest _ => ?_
      refine .after asks_restrict fun _ _ => ?_
      refine .before (.modify (fun _ => rfl) (fun _ => rfl) fun _ _ => rfl) fun _ _ => ?_
      exact .pure trivial
    · exact .fails

end Lower

end Dalvik
