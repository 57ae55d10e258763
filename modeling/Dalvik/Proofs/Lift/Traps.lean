import Dalvik.Proofs.Lift.Casts
import Dalvik.Proofs.Lift.Jumps

/-!
# Traps

The traps of a body are the handlers of the try items, in the order of the table, as far as an item
covers a statement and its handler is lowered.  Statements are in the order of addresses, so those
that an item covers follow one another.
-/

namespace Dalvik

namespace Code

/-- Whether instructions are in the order of their addresses, as `ofInstructions` puts them. -/
def Ordered (code : Code) : Prop :=
  code.instructions.Pairwise fun earlier later => earlier.addr ≤ later.addr

instance (code : Code) : Decidable code.Ordered :=
  inferInstanceAs (Decidable (code.instructions.Pairwise _))

/-- In whatever order instructions are given, code has them in that of their addresses. -/
theorem ordered_ofInstructions (method : Nat) (flags : AccessFlags) (registers : Nat)
    (instructions : List Instruction) (tries : List TryItem) :
    (ofInstructions method flags registers instructions tries).Ordered := by
  refine (List.pairwise_mergeSort (fun first second third one two => ?_) (fun first second => ?_)
    instructions).imp of_decide_eq_true
  · rw [decide_eq_true_eq] at one two ⊢
    exact Nat.le_trans one two
  · rw [Bool.or_eq_true, decide_eq_true_eq, decide_eq_true_eq]
    exact Nat.le_total first.addr second.addr

end Code

/-- The first item that passes a test comes before those that pass it, if these are the later ones. -/
theorem findIdx_le_iff {α : Type} {test : α → Bool} {list : List α}
    (upward : list.Pairwise fun first second => test first = true → test second = true) {index : Nat}
    {item : α} (found : list[index]? = some item) : list.findIdx test ≤ index ↔ test item = true := by
  induction list generalizing index with
  | nil => cases found
  | cons head rest ih =>
      obtain ⟨later, others⟩ := List.pairwise_cons.mp upward
      rw [List.findIdx_cons]
      cases holds : test head with
      | true =>
          refine iff_of_true (Nat.zero_le index) ?_
          cases index with
          | zero => exact Option.some.inj found ▸ holds
          | succ index => exact later item (List.mem_of_getElem? found) holds
      | false =>
          cases index with
          | zero =>
              obtain rfl := Option.some.inj found
              rw [holds]
              exact iff_of_false (Nat.not_succ_le_zero _) Bool.false_ne_true
          | succ index => exact Nat.succ_le_succ_iff.trans (ih others found)

namespace Lift

/-- Statements in the order of their addresses, behind those without one. -/
def Ascending (statements : List (Option Addr × Statement Local)) : Prop :=
  statements.Pairwise fun first second =>
    ∀ one, first.1 = some one → ∃ two, second.1 = some two ∧ one ≤ two

/-- What is placed at one address after the other is in order. -/
theorem ascending_flatten {addrs : List Addr} {outputs : List (List (Option Addr × Statement Local))}
    (matched : List.Forall₂ (fun addr output => ∀ item ∈ output, item.1 = some addr) addrs outputs)
    (ordered : addrs.Pairwise (· ≤ ·)) : Ascending outputs.flatten := by
  induction matched with
  | nil => exact .nil
  | @cons addr output addrs outputs here others ih =>
      obtain ⟨before, rest⟩ := List.pairwise_cons.mp ordered
      rw [List.flatten_cons, Ascending, List.pairwise_append]
      refine ⟨List.pairwise_of_forall_mem_list fun first inFirst second inSecond one isOne => ?_, ih rest,
        fun first inFirst second inSecond one isOne => ?_⟩
      · rw [here first inFirst] at isOne
        exact ⟨addr, here second inSecond, Nat.le_of_eq (Option.some.inj isOne).symm⟩
      · obtain ⟨output', isOutput, inOutput⟩ := List.mem_flatten.mp inSecond
        obtain ⟨own, isOwn, places⟩ := exists_of_forall₂ others.flip isOutput
        rw [here first inFirst] at isOne
        exact ⟨own, places second inOutput, Option.some.inj isOne ▸ before own isOwn⟩

variable {statements : List (Option Addr × Statement Local)}

section

variable (ascending : Ascending statements) {index : Nat} {place : Option Addr}
  {statement : Statement Local} (found : statements[index]? = some (place, statement))
include ascending found

theorem indexFrom_le_iff {addr : Addr} :
    indexFrom statements addr ≤ index ↔ ∃ own, place = some own ∧ addr ≤ own := by
  rw [indexFrom, findIdx_le_iff (ascending.imp fun {first second} follows holds => ?_) found]
  · cases place with
    | none => simp
    | some own => simp
  · cases isFirst : first.1 with
    | none => simp [isFirst] at holds
    | some one =>
        obtain ⟨two, isSecond, le⟩ := follows one isFirst
        simp only [isFirst, isSecond, Option.elim_some, decide_eq_true_eq] at holds ⊢
        exact Nat.le_trans holds le

/-- The statements between those at the ends of a try item are the ones that it covers. -/
theorem between_iff (item : TryItem) :
    indexFrom statements item.start ≤ index ∧ index < indexFrom statements item.stop ↔
      place.any item.covers = true := by
  rw [← Nat.not_le, indexFrom_le_iff ascending found, indexFrom_le_iff ascending found]
  cases place with
  | none => simp
  | some own => simp [TryItem.covers]

end

/-- There are statements between those at the ends of a try item exactly if it covers one. -/
theorem start_lt_stop_iff (ascending : Ascending statements) (item : TryItem) :
    indexFrom statements item.start < indexFrom statements item.stop ↔
      statements.any (·.1.any item.covers) = true := by
  rw [List.any_eq_true]
  constructor
  · intro before
    have within := Nat.lt_of_lt_of_le before List.findIdx_le_length
    have found := List.getElem?_eq_getElem within
    exact ⟨_, List.getElem_mem within, (between_iff ascending found item).mp ⟨Nat.le_refl _, before⟩⟩
  · rintro ⟨⟨place, statement⟩, member, covers⟩
    obtain ⟨index, found⟩ := List.getElem?_of_mem member
    obtain ⟨above, below⟩ := (between_iff ascending found item).mpr covers
    exact Nat.lt_of_le_of_lt above below

/-- A trap for a handler of a try item: it leads to the first statement of the handler, and is in
force for the statements at the addresses that the item covers. -/
structure Mirrors (body : Body) (item : TryItem) (handler : Handler) (trap : Trap) : Prop where
  exception : trap.exception = handler.exception
  handler : body.statements.findIdx? (·.1 == some handler.addr) = some trap.handler
  within : trap.start < trap.stop ∧ trap.stop ≤ body.statements.length
  covers : ∀ index place statement, body.statements[index]? = some (place, statement) →
    (trap.start ≤ index ∧ index < trap.stop ↔ place.any item.covers = true)

/-- A handler of a try item that covers a statement, with a lowered instruction to lead to. -/
def isCaught (code : Code) (isLive : Addr → Bool) (body : Body) (pair : TryItem × Handler) : Bool :=
  body.statements.any (·.1.any pair.1.covers) &&
    (code.hasInstruction pair.2.addr && isLive pair.2.addr)

def handlersOf (tries : List TryItem) : List (TryItem × Handler) :=
  tries.flatMap fun item => item.handlers.map (item, ·)

variable {code : Code} {isLive : Addr → Bool} {body : Body}

/-- The traps of a try item are for its handlers that have a label, if it covers a statement. -/
theorem itemTraps_mirror (ascending : Ascending body.statements) {item : TryItem}
    (labelled : ∀ handler ∈ item.handlers,
      (body.statements.findIdx? (·.1 == some handler.addr)).isSome =
        (code.hasInstruction handler.addr && isLive handler.addr)) :
    List.Forall₂ (fun pair trap => Mirrors body pair.1 pair.2 trap)
      ((item.handlers.map (item, ·)).filter (isCaught code isLive body))
      (itemTraps body.statements (labels body.statements) item) := by
  have between := start_lt_stop_iff ascending item
  rw [itemTraps]
  cases covered : body.statements.any (·.1.any item.covers) with
  | false =>
      rw [covered] at between
      rw [if_pos (Nat.le_of_not_lt fun before => Bool.false_ne_true (between.mp before))]
      rw [List.filter_eq_nil_iff.mpr]
      · exact .nil
      · intro pair member
        obtain ⟨handler, -, rfl⟩ := List.mem_map.mp member
        rw [isCaught, covered]
        exact Bool.false_ne_true
  | true =>
      have before := between.mpr covered
      rw [if_neg (Nat.not_le.mpr before)]
      generalize item.handlers = handlers at labelled ⊢
      induction handlers with
      | nil => exact .nil
      | cons handler rest ih =>
          obtain ⟨first, others⟩ := List.forall_mem_cons.mp labelled
          rw [List.map_cons, List.filterMap_cons, labels_lookup]
          cases found : body.statements.findIdx? (·.1 == some handler.addr) with
          | none =>
              rw [found] at first
              rw [List.filter_cons_of_neg]
              · exact ih others
              · rw [isCaught, ← first, Option.isSome_none, Bool.and_false]
                exact Bool.false_ne_true
          | some target =>
              rw [found] at first
              rw [List.filter_cons_of_pos]
              · refine .cons ⟨rfl, found, ⟨before, List.findIdx_le_length⟩, ?_⟩ (ih others)
                exact fun index place statement isHere => between_iff ascending isHere item
              · rw [isCaught, covered, ← first]
                rfl

namespace Lifts

variable {pool : Pool} {options : LiftOptions} {context : LoweringContext} {lowered : Lowered}
  (lifts : Lifts code pool options body context lowered)
include lifts

/-- A body starts with the identities of its arguments, and then has the statements of live
instructions, in the order of the code.  There is one at each that is led to. -/
theorem exists_placed :
    ∃ (arguments : List Argument) (head rest : List (Option Addr × Statement Local)),
      Argument.ofCode code pool = .ok arguments ∧
      (∀ argument ∈ arguments, ∃ var, (none, .identity var argument.source) ∈ head) ∧
      (∀ item ∈ head, item.1 = none) ∧
      body.statements = head ++ rest ∧
      (∀ item ∈ rest, ∃ instruction ∈ code.instructions,
        options.keeps context.graph instruction.addr = true ∧ item.1 = some instruction.addr) ∧
      (∀ instruction ∈ code.instructions, options.keeps context.graph instruction.addr = true →
        instruction.addr ∈ context.graph.targets → ∃ item ∈ rest, item.1 = some instruction.addr) ∧
      (code.Ordered → Ascending rest) := by
  obtain ⟨rfl, rfl, -⟩ := contextOf_eq_ok.mp lifts.ofCode
  obtain ⟨arguments, identities, results, found, introduces, each, same⟩ := lifts.lowersMethod.parts
  have identified := introduces.imp fun _ _ (introduced : Introduces _ _ _) =>
    introduced.identity.imp fun _ identity => identity.1
  obtain ⟨head, outputs, introduced, isHead, split, showsEach⟩ := lifts.exists_parts identified same
  have places : List.Forall₂ (fun addr (output : List (Option Addr × Statement Local)) =>
      ∀ item ∈ output, item.1 = some addr)
      ((context.code.instructions.map Instruction.addr).filter (options.keeps context.graph)) outputs := by
    rw [← each.addrs, List.forall₂_map_left_iff]
    exact showsEach.imp fun _ _ shows => places_of_shown shows
  refine ⟨arguments, head, outputs.flatten, found, introduced, fun item inHead => (isHead item inHead).1,
    split, fun item member => ?_, fun instruction listed lives isTarget => ?_, fun ordered => ?_⟩
  · obtain ⟨output, isOutput, inOutput⟩ := List.mem_flatten.mp member
    obtain ⟨addr, isAddr, isPlaced⟩ := exists_of_forall₂ places.flip isOutput
    obtain ⟨listed, lives⟩ := List.mem_filter.mp isAddr
    obtain ⟨instruction, isInstruction, rfl⟩ := List.mem_map.mp listed
    exact ⟨instruction, isInstruction, lives, isPlaced item inOutput⟩
  · obtain ⟨_, _, statements, -, member⟩ := each.exists_result listed lives
    obtain ⟨output, isOutput, shows⟩ := exists_of_forall₂ showsEach member
    have some : output ≠ [] := by
      rw [ne_eq, shows.places.2, placed_eq_nil]
      rintro ⟨-, plain⟩
      exact Bool.false_ne_true (plain.symm.trans (SortedSet.contains_iff_mem.mpr isTarget))
    obtain ⟨item, inOutput⟩ := List.exists_mem_of_ne_nil _ some
    exact ⟨item, List.mem_flatten.mpr ⟨output, isOutput, inOutput⟩, places_of_shown shows item inOutput⟩
  · exact ascending_flatten places ((List.pairwise_map.mpr ordered).sublist List.filter_sublist)

/-- A handler has a label exactly if its instruction is lowered. -/
theorem isSome_label {item : TryItem} (isItem : item ∈ code.tries) {handler : Handler}
    (isHandler : handler ∈ item.handlers) :
    (body.statements.findIdx? (·.1 == some handler.addr)).isSome =
      (code.hasInstruction handler.addr && options.keeps context.graph handler.addr) := by
  obtain ⟨-, head, rest, -, -, isHead, same, placed, targets, -⟩ := lifts.exists_placed
  obtain ⟨rfl, rfl, success, -⟩ := contextOf_eq_ok.mp lifts.ofCode
  rw [List.findIdx?_isSome, Bool.eq_iff_iff, List.any_eq_true, Bool.and_eq_true, Code.hasInstruction_iff,
    same]
  constructor
  · rintro ⟨item, member, isPlace⟩
    rw [beq_iff_eq] at isPlace
    rcases List.mem_append.mp member with inHead | inRest
    · rw [isHead item inHead] at isPlace
      cases isPlace
    · obtain ⟨instruction, listed, lives, isAddr⟩ := placed item inRest
      rw [Option.some.inj (isPlace.symm.trans isAddr)]
      exact ⟨⟨instruction, listed, rfl⟩, lives⟩
  · rintro ⟨⟨instruction, listed, isAddr⟩, lives⟩
    have isTarget : instruction.addr ∈ context.graph.targets :=
      (FlowGraph.mem_targets success).mpr (.inr ⟨item, isItem, handler, isHandler, isAddr.symm⟩)
    rw [← isAddr] at lives ⊢
    obtain ⟨item, member, isPlace⟩ := targets instruction listed lives isTarget
    exact ⟨item, List.mem_append_right _ member, beq_iff_eq.mpr isPlace⟩

/-- Statements are in the order of their addresses. -/
theorem ascending (ordered : code.Ordered) : Ascending body.statements := by
  obtain ⟨-, head, rest, -, -, isHead, same, -, -, isAscending⟩ := lifts.exists_placed
  rw [same, Ascending, List.pairwise_append]
  have behind : ∀ first ∈ head, ∀ second : Option Addr × Statement Local, ∀ one, first.1 = some one →
      ∃ two, second.1 = some two ∧ one ≤ two := by
    intro first inHead _ one isOne
    rw [isHead first inHead] at isOne
    cases isOne
  exact ⟨List.pairwise_of_forall_mem_list fun first inHead second _ => behind first inHead second,
    isAscending ordered, fun first inHead second _ => behind first inHead second⟩

end Lifts

/-- The traps of a body are for the handlers of the try items that cover a statement, as far as they
are lowered, in the order of the table.  A trap is in force for just the statements at the addresses
that its item covers, whether these are casts or take over a result; the identities of arguments,
which start the body, have no address. -/
theorem traps_mirror_tries {pool : Pool} {options : LiftOptions}
    (lifted : run code pool options = .ok body) (ordered : code.Ordered) :
    ∃ context lowered, Lifts code pool options body context lowered ∧
      Split.AllShown lowered.splitContext lowered.nameOf lowered.splitting lowered.statements
        body.statements ∧
      (∃ arguments head rest, Argument.ofCode code pool = .ok arguments ∧
        (∀ argument ∈ arguments, ∃ var, (none, .identity var argument.source) ∈ head) ∧
        body.statements = head ++ rest ∧ (∀ item ∈ head, item.1 = none) ∧
        ∀ item ∈ rest, ∃ instruction ∈ code.instructions,
          options.keeps context.graph instruction.addr = true ∧ item.1 = some instruction.addr) ∧
      List.Forall₂ (fun pair trap => Mirrors body pair.1 pair.2 trap)
        ((handlersOf code.tries).filter (isCaught code (options.keeps context.graph) body)) body.traps := by
  obtain ⟨context, lowered, lifts⟩ := exists_lifts lifted
  refine ⟨context, lowered, lifts, lifts.shown, ?_, ?_⟩
  · obtain ⟨arguments, head, rest, found, introduced, isHead, same, placed, -⟩ := lifts.exists_placed
    exact ⟨arguments, head, rest, found, introduced, same, isHead, placed⟩
  · have isTraps : body.traps = code.tries.flatMap (itemTraps body.statements (labels body.statements)) := by
      rw [lifts.assembled]
      rfl
    have each := fun item (isItem : item ∈ code.tries) =>
      itemTraps_mirror (lifts.ascending ordered) fun _ isHandler => lifts.isSome_label isItem isHandler
    rw [isTraps, handlersOf, List.filter_flatMap]
    generalize code.tries = tries at each
    induction tries with
    | nil => exact .nil
    | cons item rest ih =>
        rw [List.flatMap_cons, List.flatMap_cons]
        refine List.rel_append (each item List.mem_cons_self) (ih fun other isOther => ?_)
        exact each other (List.mem_cons_of_mem _ isOther)

end Lift

/-- A method that calls another one, moves its result and returns.  Of its try items only the first
one covers a statement: the second one starts behind the call, and the third one ends before it
starts. -/
def Code.catchesCall : Code where
  method := 0
  flags := ⟨8⟩
  registers := 4
  instructions := [{ Instruction.ofOpcode 0 .invokeStatic [] none none with reference := some ⟨.method, 1⟩ },
    .ofOpcode 3 .moveResult [.ofNat 0] none none, .ofOpcode 4 .nop [] none none,
    .ofOpcode 5 .returnVoid [] none none, .ofOpcode 6 .moveException [.ofNat 0] none none,
    .ofOpcode 7 .returnVoid [] none none]
  tries := [⟨0, 4, [⟨none, 6⟩]⟩, ⟨3, 5, [⟨none, 6⟩]⟩, ⟨5, 2, [⟨none, 6⟩]⟩]

namespace Lift

/-- The only trap is in force for the call alone. -/
theorem traps_catchesCall : Code.catchesCall.Ordered ∧
    ∃ body, run .catchesCall (.returning .int) {} = .ok body ∧ body.traps = [⟨none, 2, 3, 4⟩] ∧
      Mirrors body ⟨0, 4, [⟨none, 6⟩]⟩ ⟨none, 6⟩ ⟨none, 2, 3, 4⟩ := by
  have ordered : Code.catchesCall.Ordered := by decide
  have lowers : LowersTo .catchesCall (.returning .int) ⟨4, [(.ofNat 2, .narrow), (.ofNat 3, .narrow)]⟩
      5 {} fun _ lowered =>
        (assemble .catchesCall lowered lowered.solution).traps = [⟨none, 2, 3, 4⟩] ∧
          (assemble .catchesCall lowered lowered.solution).statements.map Prod.fst =
            [none, none, some 0, some 5, some 6, some 7] := by
    decide +kernel
  obtain ⟨body, _, _, lifted, lifts, isTraps, isPlaces⟩ := @LowersTo.exists_lifts .catchesCall
    (.returning .int) Argument.objectAndInt 5 {} _ _ (by decide) (by decide) rfl lowers
  rw [← lifts.assembled] at isTraps isPlaces
  obtain ⟨context, _, -, -, -, mirrors⟩ := traps_mirror_tries lifted ordered
  rw [isTraps] at mirrors
  obtain ⟨pair, isPair, mirror⟩ := exists_of_forall₂ mirrors.flip List.mem_cons_self
  obtain ⟨member, caught⟩ := List.mem_filter.mp isPair
  have covers : ∀ item : TryItem, body.statements.any (·.1.any item.covers) =
      [none, none, some 0, some 5, some 6, some 7].any (·.any item.covers) := by
    intro item
    rw [← isPlaces, List.any_map]
    rfl
  rw [isCaught, covers, Bool.and_eq_true] at caught
  refine ⟨ordered, body, lifted, isTraps, ?_⟩
  have listed : pair ∈ ([⟨⟨0, 4, [⟨none, 6⟩]⟩, ⟨none, 6⟩⟩, ⟨⟨3, 5, [⟨none, 6⟩]⟩, ⟨none, 6⟩⟩,
    ⟨⟨5, 2, [⟨none, 6⟩]⟩, ⟨none, 6⟩⟩] : List (TryItem × Handler)) := member
  simp only [List.mem_cons, List.not_mem_nil, or_false] at listed
  rcases listed with rfl | rfl | rfl
  · exact mirror
  · exact absurd caught.1 (by decide)
  · exact absurd caught.1 (by decide)

end Lift

end Dalvik
