import Dalvik.Proofs.Typing.Leaders

/-!
# Solving with lookups that can fail

Solving finds values, classes and constraints by their numbers.  Here it fails where there is
nothing of a number.  It never does if constraints are about values that there are, and then the
numbers in the solution are in range too.
-/

namespace Dalvik

/-- A traversal with lookups that all succeed. -/
theorem mapM_eq_some_of_found {α β : Type} {act : α → Option β} {found : α → β} {list : List α}
    (each : ∀ item ∈ list, act item = some (found item)) : list.mapM act = some (list.map found) := by
  induction list with
  | nil => rfl
  | cons item rest ih =>
      obtain ⟨first, others⟩ := List.forall_mem_cons.mp each
      rw [List.mapM_cons, first, ih others]
      rfl

namespace Partition

variable {partition : Partition} {pairs : List (Nat × Nat)}

def union? (partition : Partition) (first second : Nat) : Option Partition := do
  let a ← partition.labels[first]?
  let b ← partition.labels[second]?
  if a = b then return partition
  else return ⟨partition.labels.map fun label => if label = max a b then min a b else label⟩

def unionAll? (partition : Partition) (pairs : List (Nat × Nat)) : Option Partition :=
  pairs.foldlM (fun partition pair => partition.union? pair.1 pair.2) partition

theorem getElem?_labels {number : Nat} (inside : number < partition.labels.length) :
    partition.labels[number]? = some (partition.label number) := by
  rw [label_eq_getElem inside, List.getElem?_eq_getElem inside]

theorem union?_eq_some {first second : Nat} (firstInside : first < partition.labels.length)
    (secondInside : second < partition.labels.length) :
    partition.union? first second = some (partition.union first second) := by
  rw [union?, getElem?_labels firstInside, getElem?_labels secondInside, union_eq]
  dsimp only [bind, Option.bind]
  split <;> rfl

theorem unionAll?_eq_some
    (inside : ∀ pair ∈ pairs, pair.1 < partition.labels.length ∧ pair.2 < partition.labels.length) :
    partition.unionAll? pairs = some (partition.unionAll pairs) := by
  induction pairs generalizing partition with
  | nil => rfl
  | cons pair rest ih =>
      obtain ⟨⟨first, second⟩, others⟩ := List.forall_mem_cons.mp inside
      rw [unionAll?, List.foldlM_cons, union?_eq_some first second]
      exact ih (by simpa using others)

end Partition

namespace Narrowing

def restrictAll? (isMember? : Nat → Option Bool) :
    Narrowing → Nat → List Recorded → Option Narrowing
  | narrowing, _, [] => some narrowing
  | narrowing, position, entry :: rest =>
      match entry.constraint.kinds with
      | some allowed => do
          let own ← isMember? entry.constraint.owner
          restrictAll? isMember? (if own then narrowing.restrict position allowed else narrowing)
            (position + 1) rest
      | none => restrictAll? isMember? narrowing (position + 1) rest

theorem restrictAll?_eq_some {isMember? : Nat → Option Bool} {isMember : Nat → Bool}
    {list : List Recorded}
    (found : ∀ entry ∈ list, isMember? entry.constraint.owner = some (isMember entry.constraint.owner))
    (narrowing : Narrowing) (position : Nat) :
    narrowing.restrictAll? isMember? position list =
      some (narrowing.restrictAll isMember position list) := by
  induction list generalizing narrowing position with
  | nil => rfl
  | cons entry rest ih =>
      obtain ⟨first, others⟩ := List.forall_mem_cons.mp found
      rw [restrictAll?, restrictAll]
      cases entry.constraint.kinds with
      | none => exact ih others narrowing (position + 1)
      | some allowed =>
          dsimp only
          rw [first]
          exact ih others _ (position + 1)

/-- The constraint that leaves no kind is one of those that are taken into account. -/
theorem culprit_of_restrictAll {isMember : Nat → Bool} {narrowing : Narrowing} {position : Nat}
    {list : List Recorded} {left : KindSet} {culprit : Nat} (free : narrowing.isConflict = false)
    (emptied : narrowing.restrictAll isMember position list = .emptied left culprit) :
    position ≤ culprit ∧ ∃ entry, list[culprit - position]? = some entry ∧
      entry.constraint.kinds.isSome = true ∧ isMember entry.constraint.owner = true := by
  induction list generalizing narrowing position with
  | nil =>
      rw [restrictAll] at emptied
      rw [emptied] at free
      cases free
  | cons entry rest ih =>
      -- a culprit behind the first constraint is one place further in the whole list
      have skip : ∀ {next : Narrowing}, next.isConflict = false →
          next.restrictAll isMember (position + 1) rest = .emptied left culprit →
          position ≤ culprit ∧ ∃ found, (entry :: rest)[culprit - position]? = some found ∧
            found.constraint.kinds.isSome = true ∧ isMember found.constraint.owner = true := by
        intro next still later
        obtain ⟨above, found, isFound, known⟩ := ih still later
        have shift : culprit - position = culprit - (position + 1) + 1 := by omega
        exact ⟨by omega, found, by rw [shift]; exact isFound, known⟩
      rw [restrictAll] at emptied
      cases isKinds : entry.constraint.kinds with
      | none =>
          rw [isKinds] at emptied
          exact skip free emptied
      | some allowed =>
          rw [isKinds] at emptied
          dsimp only at emptied
          split at emptied
          · rename_i owned
            cases narrowing with
            | mixed | emptied _ _ => cases free
            | remaining kinds constrained =>
                rw [restrict] at emptied
                split at emptied
                · rw [restrictAll_of_isConflict rfl] at emptied
                  cases emptied
                  refine ⟨Nat.le_refl _, entry, ?_, by rw [isKinds]; rfl, owned⟩
                  rw [Nat.sub_self]
                  rfl
                · exact skip rfl emptied
          · exact skip free emptied

end Narrowing

namespace Solution

variable {values : List ProvisionalValue} {recorded : List Recorded} {isMember? : Nat → Option Bool}
  {members : List Nat}

/-! ## Solving -/

def definitionAddrs? (values : List ProvisionalValue) (members : List Nat) : Option (List Addr) := do
  let records ← members.mapM (values[·]?)
  return (SortedSet.ofList (records.filterMap fun record =>
    match record.site with
    | some (.at addr) => some addr
    | _ => none)).elements

def narrowing? (values : List ProvisionalValue) (recorded : List Recorded)
    (isMember? : Nat → Option Bool) (width : Width) (members : List Nat) : Option Narrowing := do
  let records ← members.mapM (values[·]?)
  let first := if records.all (·.width == width) then Narrowing.remaining (.ofWidth width) false
    else .mixed
  first.restrictAll? isMember? 0 recorded

/-- The diagnostic about a class whose first member has a register, if there is anything to
report and all that the report refers to. -/
def report? (values : List ProvisionalValue) (recorded : List Recorded)
    (isMember? : Nat → Option Bool) (members : List Nat) (reg : Reg) (resolved : Kind) :
    Narrowing → Option (Option Diagnostic)
  | .mixed => do
      return some ⟨.mixedWidths, reg, ← definitionAddrs? values members, resolved⟩
  | .emptied left culprit => do
      let entry ← recorded[culprit]?
      let required ← entry.constraint.kinds
      let owner ← values[entry.constraint.owner]?
      let marked ← (recorded.take (culprit + 1)).mapM fun entry =>
        (isMember? entry.constraint.owner).map (entry, ·)
      let addrs := marked.filterMap fun (entry, own) =>
        if entry.constraint.kinds.isSome && own then entry.addr else none
      let isDeclared := (marked.take culprit).any fun (entry, own) => entry.origin == .anchor && own
      return some ⟨.emptied required left isDeclared, owner.reg, (SortedSet.ofList addrs).elements,
        resolved⟩
  | .remaining _ false => do
      return some ⟨.noConstraint, reg, ← definitionAddrs? values members, resolved⟩
  | .remaining kinds true =>
      if kinds.single.isSome then return none
      else do
        return some ⟨.severalKinds kinds, reg, ← definitionAddrs? values members, resolved⟩

def solveClass? (values : List ProvisionalValue) (recorded : List Recorded)
    (isMember? : Nat → Option Bool) (number : Nat) (members : List Nat) :
    Option (ValueClass × Option Diagnostic) := do
  let first ← values[← members[0]?]?
  let narrowing ← narrowing? values recorded isMember? first.width members
  let kind := narrowing.resolved first.width
  let report ← report? values recorded isMember? members first.reg kind narrowing
  return (⟨members, kind, narrowing.isConflict, report.map fun _ => number⟩, report)

/-- Whether a value is in the class of a leader, if the leader of its own class is found. -/
def isLedBy? (leader? : Nat → Option Nat) (leader value : Nat) : Option Bool :=
  (leader? value).map (· == leader)

def solveClasses? (values : List ProvisionalValue) (recorded : List Recorded) (partition : Partition)
    (leader? : Nat → Option Nat) : Nat → List Nat → Option (List ValueClass × List Diagnostic)
  | _, [] => some ([], [])
  | number, leader :: rest => do
      let (first, report) ←
        solveClass? values recorded (isLedBy? leader? leader) number (partition.members leader)
      let (classes, diagnostics) ←
        solveClasses? values recorded partition leader? (number + report.toList.length) rest
      return (first :: classes, report.toList ++ diagnostics)

/-- The kinds of values under constraints, if there is all that is looked up.  The class of a
value is found by its number. -/
def solve? (values : List ProvisionalValue) (recorded : List Recorded) : Option Solution := do
  let partition ← (Partition.discrete values.length).unionAll? (sameKinds recorded)
  let leaders := partition.leaders
  let classOf := partition.labels.map leaders.idxOf
  let (classes, diagnostics) ← solveClasses? values recorded partition
    (fun value => classOf[value]?.bind (leaders[·]?)) 0 leaders
  return { classOf, classes, diagnostics }

/-! ## Nothing is missing -/

/-- Members that there are have records. -/
theorem exists_records (present : ∀ member ∈ members, member < values.length) :
    ∃ records, members.mapM (values[·]?) = some records ∧
      ∀ {β : Type} (view : ProvisionalValue → Option β),
        records.filterMap view = members.filterMap fun member => values[member]?.bind view := by
  induction members with
  | nil => exact ⟨[], rfl, fun _ => rfl⟩
  | cons first rest ih =>
      obtain ⟨inside, others⟩ := List.forall_mem_cons.mp present
      obtain ⟨records, found, views⟩ := ih others
      have isFirst : values[first]? = some values[first] := List.getElem?_eq_getElem inside
      refine ⟨values[first] :: records, ?_, fun view => ?_⟩
      · rw [List.mapM_cons, isFirst, found]
        rfl
      · rw [List.filterMap_cons, List.filterMap_cons, isFirst, views]
        rfl

theorem definitionAddrs?_eq_some (present : ∀ member ∈ members, member < values.length) :
    definitionAddrs? values members = some (definitionAddrs values members) := by
  obtain ⟨records, found, views⟩ := exists_records present
  rw [definitionAddrs?, found, definitionAddrs]
  dsimp only [bind, Option.bind, pure]
  rw [views]
  congr 3
  refine List.filterMap_congr fun member _ => ?_
  cases values[member]? <;> rfl

/-- The constraint that leaves no kind for a class is about a member. -/
theorem culprit_of_narrowing {width : Width} {left : KindSet} {culprit : Nat}
    (emptied : narrowing values recorded width members = .emptied left culprit) :
    ∃ entry, recorded[culprit]? = some entry ∧ entry.constraint.kinds.isSome = true ∧
      entry.constraint.owner ∈ members := by
  rw [narrowing] at emptied
  split at emptied
  · obtain ⟨-, entry, isEntry, isKinds, own⟩ := Narrowing.culprit_of_restrictAll rfl emptied
    exact ⟨entry, isEntry, isKinds, List.contains_iff_mem.mp own⟩
  · rw [Narrowing.restrictAll_of_isConflict rfl] at emptied
    cases emptied

section Owners

variable (found : ∀ entry ∈ recorded, isMember? entry.constraint.owner =
  some (members.contains entry.constraint.owner))
include found

theorem narrowing?_eq_some (present : ∀ member ∈ members, member < values.length) (width : Width) :
    narrowing? values recorded isMember? width members =
      some (narrowing values recorded width members) := by
  obtain ⟨records, isRecords, views⟩ := exists_records present
  have widths : records.map ProvisionalValue.width =
      members.filterMap fun member => values[member]?.map ProvisionalValue.width := by
    rw [← List.filterMap_eq_map, views]
    refine List.filterMap_congr fun member _ => ?_
    cases values[member]? <;> rfl
  rw [narrowing?, isRecords, narrowing]
  dsimp only [bind, Option.bind]
  rw [← widths, List.all_map]
  exact Narrowing.restrictAll?_eq_some found _ 0

theorem report?_eq_some (present : ∀ member ∈ members, member < values.length)
    (owners : ∀ entry ∈ recorded, entry.constraint.owner < values.length) (kind : Kind)
    (narrowing : Narrowing)
    (culprits : ∀ left culprit, narrowing = .emptied left culprit →
      ∃ entry, recorded[culprit]? = some entry ∧ entry.constraint.kinds.isSome = true) :
    report? values recorded isMember? members (registerOf values (members.headD 0)) kind narrowing =
      some (report values recorded members kind narrowing) := by
  have addrs := definitionAddrs?_eq_some present
  cases narrowing with
  | mixed =>
      rw [report?, addrs]
      rfl
  | remaining kinds constrained =>
      cases constrained with
      | false =>
          rw [report?, addrs]
          rfl
      | true =>
          rw [report?, report, addrs]
          split <;> rfl
  | emptied left culprit =>
      obtain ⟨entry, isEntry, isKinds⟩ := culprits left culprit rfl
      obtain ⟨required, isRequired⟩ := Option.isSome_iff_exists.mp isKinds
      have inside : entry.constraint.owner < values.length := owners entry (List.mem_of_getElem? isEntry)
      have marked : (recorded.take (culprit + 1)).mapM (fun entry =>
          (isMember? entry.constraint.owner).map (entry, ·)) =
            some ((recorded.take (culprit + 1)).map fun entry =>
              (entry, members.contains entry.constraint.owner)) :=
        mapM_eq_some_of_found fun other listed => by
          rw [found other (List.mem_of_mem_take listed), Option.map_some]
      have declared : (((recorded.take (culprit + 1)).map fun entry =>
          (entry, members.contains entry.constraint.owner)).take culprit).any
            (fun (entry, own) => entry.origin == .anchor && own) = isDeclared recorded members culprit := by
        rw [isDeclared, ← List.map_take, List.take_take, Nat.min_eq_left (Nat.le_succ _), List.any_map]
        rfl
      have restricting : ((recorded.take (culprit + 1)).map fun entry =>
          (entry, members.contains entry.constraint.owner)).filterMap
            (fun (entry, own) =>
              if entry.constraint.kinds.isSome && own then entry.addr else none) =
          (restrictionsUpTo recorded members culprit).filterMap Recorded.addr := by
        rw [restrictionsUpTo, List.filterMap_map, List.filterMap_filter]
        rfl
      rw [report?, isEntry]
      dsimp only [bind, Option.bind]
      rw [isRequired, List.getElem?_eq_getElem inside, marked]
      dsimp only
      rw [declared, restricting, report, isEntry, registerOf]
      dsimp only [Option.bind, Option.elim]
      rw [isRequired, List.getElem?_eq_getElem inside]
      rfl

theorem solveClass?_eq_some (nonempty : members ≠ []) (present : ∀ member ∈ members, member < values.length)
    (owners : ∀ entry ∈ recorded, entry.constraint.owner < values.length) (number : Nat) :
    solveClass? values recorded isMember? number members =
      some (solveClass values recorded number members) := by
  cases members with
  | nil => exact absurd rfl nonempty
  | cons first rest =>
      have inside : first < values.length := present first List.mem_cons_self
      have isFirst : values[first]? = some values[first] := List.getElem?_eq_getElem inside
      have reported := fun kind => report?_eq_some found present owners kind
        (narrowing values recorded values[first].width (first :: rest))
        fun left culprit emptied =>
          (culprit_of_narrowing emptied).imp fun _ known => ⟨known.1, known.2.1⟩
      simp only [List.headD_cons, registerOf, isFirst, Option.elim_some] at reported
      simp only [solveClass?, List.getElem?_cons_zero, isFirst, narrowing?_eq_some found present,
        reported, Option.bind_eq_bind, Option.bind_some]
      rw [solveClass, List.headD_cons, isFirst]
      rfl

end Owners

theorem solveClasses?_eq_some {partition : Partition} {leader? : Nat → Option Nat}
    (size : partition.labels.length = values.length)
    (found : ∀ value < values.length, leader? value = some (partition.label value))
    (owners : ∀ entry ∈ recorded, entry.constraint.owner < values.length) {list : List Nat}
    (lead : ∀ leader ∈ list, leader ∈ partition.leaders) (number : Nat) :
    solveClasses? values recorded partition leader? number list =
      some (solveClasses values recorded number (list.map partition.members)) := by
  induction list generalizing number with
  | nil => rfl
  | cons leader rest ih =>
      obtain ⟨leads, others⟩ := List.forall_mem_cons.mp lead
      have belongs : ∀ entry ∈ recorded, isLedBy? leader? leader entry.constraint.owner =
          some ((partition.members leader).contains entry.constraint.owner) := by
        intro entry listed
        have inside := owners entry listed
        rw [isLedBy?, found _ inside, Option.map_some]
        congr 1
        -- the members of a class are those values whose leader is the class's
        rw [Bool.eq_iff_iff, beq_iff_eq, List.contains_iff_mem, Partition.mem_members, size]
        exact ⟨fun own => ⟨inside, own⟩, And.right⟩
      have nonempty : partition.members leader ≠ [] :=
        List.ne_nil_of_mem (Partition.leader_mem_members leads)
      have present : ∀ member ∈ partition.members leader, member < values.length :=
        fun member own => size ▸ (Partition.mem_members.mp own).1
      have first := solveClass?_eq_some belongs nonempty present owners number
      simp only [solveClasses?, first, ih others, Option.bind_eq_bind, Option.bind_some]
      rfl

/-- Nothing that solving looks up is missing, if constraints are about values that there are. -/
theorem solve?_eq_some (inside : Inside values recorded)
    (owners : ∀ entry ∈ recorded, entry.constraint.owner < values.length) :
    solve? values recorded = some (solve values recorded) := by
  have joined : (Partition.discrete values.length).unionAll? (sameKinds recorded) =
      some (partition values recorded) :=
    Partition.unionAll?_eq_some (by rw [Partition.length_discrete]; exact inside_iff.mp inside)
  have leader : ∀ value < values.length,
      (((partition values recorded).labels.map (partition values recorded).leaders.idxOf)[value]?.bind
        ((partition values recorded).leaders[·]?)) = some ((partition values recorded).label value) := by
    intro value present
    have isNumber : ((partition values recorded).labels.map
        (partition values recorded).leaders.idxOf)[value]? = _ := classOf_solve present
    rw [isNumber, Option.bind_some, List.getElem?_idxOf (inside.label_mem_leaders present)]
  simp only [solve?, joined, Option.bind_eq_bind, Option.bind_some]
  rw [solveClasses?_eq_some length_partition leader owners (fun _ leads => leads) 0]
  rfl

/-! ## The numbers in a solution -/

/-- What a solution for a number of values refers to is there. -/
structure InRange (solution : Solution) (size : Nat) : Prop where
  values : solution.classOf.length = size
  numbers : ∀ number ∈ solution.classOf, number < solution.classes.length
  members : ∀ own ∈ solution.classes, own.members ≠ [] ∧ ∀ member ∈ own.members, member < size
  diagnostics : ∀ own ∈ solution.classes, ∀ number, own.diagnostic = some number →
    number < solution.diagnostics.length

theorem InRange.exists_class {solution : Solution} {size value : Nat} (inRange : solution.InRange size)
    (present : value < size) : ∃ own, solution.class? value = some own := by
  have within : value < solution.classOf.length := by rwa [inRange.values]
  have number := inRange.numbers _ (List.getElem_mem within)
  refine ⟨solution.classes[solution.classOf[value]], ?_⟩
  rw [class?, List.getElem?_eq_getElem within, Option.bind_some, List.getElem?_eq_getElem number]

theorem members_solveClasses {number : Nat} {list : List (List Nat)} :
    (solveClasses values recorded number list).1.map ValueClass.members = list := by
  induction list generalizing number with
  | nil => rfl
  | cons first rest ih => exact congrArg (first :: ·) ih

/-- A class refers to a diagnostic of its own or of those that follow. -/
theorem diagnostic_solveClasses_lt {number : Nat} {list : List (List Nat)} {own : ValueClass}
    (member : own ∈ (solveClasses values recorded number list).1) {referred : Nat}
    (refers : own.diagnostic = some referred) :
    referred < number + (solveClasses values recorded number list).2.length := by
  induction list generalizing number with
  | nil => cases member
  | cons first rest ih =>
      have count : (solveClasses values recorded number (first :: rest)).2.length =
          (solveClass values recorded number first).2.toList.length +
            (solveClasses values recorded
              (number + (solveClass values recorded number first).2.toList.length) rest).2.length :=
        List.length_append
      rw [count]
      rcases List.mem_cons.mp member with rfl | later
      · obtain ⟨report, isReport, rfl⟩ := Option.map_eq_some_iff.mp refers
        rw [show (solveClass values recorded number first).2 = some report from isReport,
          Option.toList_some, List.length_singleton]
        omega
      · have below := @ih (number + (solveClass values recorded number first).2.toList.length) later
        omega

theorem Inside.inRange_solve (inside : Inside values recorded) :
    (solve values recorded).InRange values.length := by
  have members : (solve values recorded).classes.map ValueClass.members =
      (partition values recorded).leaders.map (partition values recorded).members :=
    members_solveClasses
  have count : (solve values recorded).classes.length = (partition values recorded).leaders.length := by
    rw [← List.length_map, members, List.length_map]
  constructor
  · rw [solve]
    exact (List.length_map _).trans length_partition
  · -- classes are numbered by leaders, and each label is one
    intro number member
    obtain ⟨label, isLabel, rfl⟩ := List.mem_map.mp member
    obtain ⟨value, within, rfl⟩ := List.getElem_of_mem isLabel
    have present : value < values.length := by rwa [← @length_partition _ recorded]
    have leads := inside.label_mem_leaders present
    rw [Partition.label_eq_getElem within] at leads
    rw [count]
    exact List.idxOf_lt_length_of_mem leads
  · intro own member
    have listed := List.mem_map_of_mem (f := ValueClass.members) member
    rw [members] at listed
    obtain ⟨leader, leads, isOwn⟩ := List.mem_map.mp listed
    rw [← isOwn]
    refine ⟨List.ne_nil_of_mem (Partition.leader_mem_members leads), ?_⟩
    intro other isMember
    rw [← @length_partition _ recorded]
    exact (Partition.mem_members.mp isMember).1
  · intro own member number refers
    have below := diagnostic_solveClasses_lt member refers
    rwa [Nat.zero_add] at below

end Solution

end Dalvik
