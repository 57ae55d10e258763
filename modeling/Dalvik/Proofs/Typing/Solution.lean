import Dalvik.Proofs.Kind
import Dalvik.Proofs.Success
import Dalvik.Proofs.Typing.Partition
import Dalvik.Typing.Solution
import Mathlib.Data.List.Basic

/-!
# Solutions of constraints

What the kind of a value says of its constraints: the kind of a class that is not
conflicting is one that each constraint on a member allows, and a conflicting class has
a diagnostic that reports it.
-/

namespace Dalvik

/-! ## Leaders of classes -/

namespace Partition

/-- Labels are members of their classes. -/
structure Canonical (partition : Partition) : Prop where
  inside : ∀ number < partition.labels.length, partition.label number < partition.labels.length
  fixed : ∀ number < partition.labels.length,
    partition.label (partition.label number) = partition.label number

theorem canonical_discrete (size : Nat) : (discrete size).Canonical where
  inside number inside := by rwa [label_discrete]
  fixed number _ := by rw [label_discrete, label_discrete]

theorem Canonical.union {partition : Partition} (canonical : partition.Canonical) (first second : Nat)
    (firstInside : first < partition.labels.length)
    (secondInside : second < partition.labels.length) : (partition.union first second).Canonical := by
  have least : ∀ number < partition.labels.length,
      (partition.union first second).label number < partition.labels.length ∧
        partition.label ((partition.union first second).label number) =
          (partition.union first second).label number := by
    intro number inside
    rw [label_union first second inside]
    split
    · rcases Nat.le_total (partition.label first) (partition.label second) with below | above
      · rw [Nat.min_eq_left below]
        exact ⟨canonical.inside first firstInside, canonical.fixed first firstInside⟩
      · rw [Nat.min_eq_right above]
        exact ⟨canonical.inside second secondInside, canonical.fixed second secondInside⟩
    · exact ⟨canonical.inside number inside, canonical.fixed number inside⟩
  constructor
  · intro number inside
    rw [length_union] at inside ⊢
    exact (least number inside).1
  · intro number inside
    rw [length_union] at inside
    obtain ⟨below, fixed⟩ := least number inside
    have merged := label_union first second inside
    rw [label_union first second below, fixed]
    split
    · rename_i isMax
      rw [merged] at isMax ⊢
      split at isMax
      · rw [if_pos ‹_›]
      · exact absurd isMax ‹_›
    · rfl

theorem Canonical.unionAll {partition : Partition} {pairs : List (Nat × Nat)}
    (canonical : partition.Canonical)
    (inside : ∀ pair ∈ pairs, pair.1 < partition.labels.length ∧ pair.2 < partition.labels.length) :
    (partition.unionAll pairs).Canonical := by
  induction pairs generalizing partition with
  | nil => exact canonical
  | cons pair rest ih =>
      obtain ⟨⟨first, second⟩, others⟩ := List.forall_mem_cons.mp inside
      exact ih (canonical.union pair.1 pair.2 first second) (by simpa using others)

theorem mem_zipIdx_labels {partition : Partition} {own number : Nat} :
    (own, number) ∈ partition.labels.zipIdx ↔
      number < partition.labels.length ∧ partition.label number = own := by
  rw [List.mk_mem_zipIdx_iff_getElem?, List.getElem?_eq_some_iff]
  refine (exists_congr fun inside => ?_).trans exists_prop
  rw [label_eq_getElem inside]

theorem mem_members {partition : Partition} {leader number : Nat} :
    number ∈ partition.members leader ↔
      number < partition.labels.length ∧ partition.label number = leader := by
  simp [members, mem_zipIdx_labels]

theorem mem_leaders {partition : Partition} {number : Nat} :
    number ∈ partition.leaders ↔
      number < partition.labels.length ∧ partition.label number = number := by
  simp [leaders, mem_zipIdx_labels]

theorem leader_mem_members {partition : Partition} {leader : Nat} (leads : leader ∈ partition.leaders) :
    leader ∈ partition.members leader :=
  mem_members.mpr (mem_leaders.mp leads)

end Partition

/-! ## What constraints leave -/

namespace Narrowing

/-- A conflict stays. -/
theorem restrictAll_of_isConflict {narrowing : Narrowing} (conflict : narrowing.isConflict = true)
    (isMember : Nat → Bool) (position : Nat) (list : List Recorded) :
    narrowing.restrictAll isMember position list = narrowing := by
  induction list generalizing position with
  | nil => rfl
  | cons entry rest ih =>
      have stays : ∀ allowed, narrowing.restrict position allowed = narrowing := by
        cases narrowing with
        | remaining kinds constrained => cases conflict
        | mixed | emptied _ _ => exact fun _ => rfl
      rw [restrictAll]
      split
      · split
        · rw [stays, ih]
        · exact ih _
      · exact ih _

/-- What constraints leave of some kinds: those that all of them allow, or a conflict if there
are none. -/
inductive Leaves (allowed : Kind → Prop) (limited : Prop) : Narrowing → Prop where
  | remaining {left : KindSet} {constrained : Bool}
      (exactly : ∀ kind, left.contains kind = true ↔ allowed kind) (nonempty : left ≠ .empty)
      (isLimited : constrained = true ↔ limited) : Leaves allowed limited (.remaining left constrained)
  | emptied {left : KindSet} {culprit : Nat} (nothing : ∀ kind, ¬ allowed kind) :
      Leaves allowed limited (.emptied left culprit)

theorem Leaves.congr {allowed other : Kind → Prop} {limited also : Prop} {narrowing : Narrowing}
    (leaves : Leaves allowed limited narrowing) (same : ∀ kind, allowed kind ↔ other kind)
    (alike : limited ↔ also) : Leaves other also narrowing := by
  cases leaves with
  | remaining exactly nonempty isLimited =>
      exact .remaining (fun kind => (exactly kind).trans (same kind)) nonempty (isLimited.trans alike)
  | emptied nothing => exact .emptied fun kind isAllowed => nothing kind ((same kind).mpr isAllowed)

/-- A constraint on a member that allows some kinds. -/
def Restricts (isMember : Nat → Bool) (list : List Recorded) (kinds : KindSet) : Prop :=
  ∃ entry ∈ list, isMember entry.constraint.owner = true ∧ entry.constraint.kinds = some kinds

/-- Constraints leave the kinds that all of them allow. -/
theorem restrictAll_leaves {isMember : Nat → Bool} {position : Nat} {list : List Recorded}
    {kinds : KindSet} {constrained : Bool} (nonempty : kinds ≠ .empty) :
    Leaves (fun kind => kinds.contains kind = true ∧
        ∀ allowed, Restricts isMember list allowed → allowed.contains kind = true)
      (constrained = true ∨ ∃ allowed, Restricts isMember list allowed)
      ((remaining kinds constrained).restrictAll isMember position list) := by
  induction list generalizing position kinds constrained with
  | nil =>
      have nothing : ∀ allowed, ¬ Restricts isMember [] allowed := fun _ ⟨_, listed, _⟩ => nomatch listed
      exact .remaining (by simp [nothing]) nonempty (by simp [nothing])
  | cons entry rest ih =>
      by_cases applies : isMember entry.constraint.owner = true ∧ ∃ own, entry.constraint.kinds = some own
      · obtain ⟨isOwner, own, isOwn⟩ := applies
        have splits : ∀ allowed, Restricts isMember (entry :: rest) allowed ↔
            allowed = own ∨ Restricts isMember rest allowed := by
          intro allowed
          simp only [Restricts, List.exists_mem_cons_iff, isOwner, isOwn, true_and, Option.some.injEq,
            eq_comm]
        have step : (remaining kinds constrained).restrictAll isMember position (entry :: rest) =
            ((remaining kinds constrained).restrict position own).restrictAll isMember (position + 1)
              rest := by
          rw [restrictAll, isOwn]
          dsimp only
          rw [if_pos isOwner]
        rw [step, restrict]
        split
        · rename_i nothing
          rw [restrictAll_of_isConflict rfl]
          refine .emptied fun kind ⟨contains, allows⟩ => ?_
          have both : (kinds.inter own).contains kind = true := by
            rw [KindSet.contains_inter, contains, allows own ((splits own).mpr (.inl rfl))]
            rfl
          rw [nothing, KindSet.contains_empty] at both
          cases both
        · rename_i some
          refine (ih some).congr (fun kind => ?_) ?_
          · simp only [splits, KindSet.contains_inter, Bool.and_eq_true, forall_eq_or_imp, and_assoc]
          · exact iff_of_true (.inl rfl) (.inr ⟨own, (splits own).mpr (.inl rfl)⟩)
      · -- an entry that restricts no member leaves everything as it was
        have skips : ∀ allowed, Restricts isMember (entry :: rest) allowed ↔
            Restricts isMember rest allowed := by
          intro allowed
          rw [Restricts, List.exists_mem_cons_iff, or_iff_right]
          · rfl
          · rintro ⟨isOwner, isOwn⟩
            exact applies ⟨isOwner, allowed, isOwn⟩
        have step : (remaining kinds constrained).restrictAll isMember position (entry :: rest) =
            (remaining kinds constrained).restrictAll isMember (position + 1) rest := by
          rw [restrictAll]
          split
          · rename_i own isOwn
            rw [if_neg fun isOwner => applies ⟨isOwner, own, isOwn⟩]
          · rfl
        rw [step]
        exact (ih nonempty).congr (fun kind => by simp only [skips]) (by simp only [skips])

/-- The kinds that are left are some of those that were left before, at least one, and
allowed by each constraint on a member. -/
theorem restrictAll_eq_remaining {isMember : Nat → Bool} {position : Nat} {list : List Recorded}
    {kinds left : KindSet} {constrained now : Bool} (nonempty : kinds ≠ .empty)
    (remains : (remaining kinds constrained).restrictAll isMember position list = .remaining left now) :
    left ≠ .empty ∧ (∀ kind, left.contains kind = true → kinds.contains kind = true) ∧
      (constrained = true → now = true) ∧
      ∀ entry ∈ list, ∀ allowed, entry.constraint.kinds = some allowed →
        isMember entry.constraint.owner = true →
          now = true ∧ ∀ kind, left.contains kind = true → allowed.contains kind = true := by
  have leaves := @restrictAll_leaves isMember position list kinds constrained nonempty
  rw [remains] at leaves
  cases leaves with
  | remaining exactly nonempty isLimited =>
      refine ⟨nonempty, fun kind contains => ((exactly kind).mp contains).1,
        fun before => isLimited.mpr (.inl before), fun entry listed allowed isAllowed isOwner => ?_⟩
      have restricts : Restricts isMember list allowed := ⟨entry, listed, isOwner, isAllowed⟩
      exact ⟨isLimited.mpr (.inr ⟨allowed, restricts⟩),
        fun kind contains => ((exactly kind).mp contains).2 allowed restricts⟩

end Narrowing

namespace Solution

variable {values : List ProvisionalValue} {recorded : List Recorded}

def Inside (values : List ProvisionalValue) (recorded : List Recorded) : Prop :=
  ∀ entry ∈ recorded, ∀ value other, entry.constraint = .sameAs value other →
    value < values.length ∧ other < values.length

theorem mem_sameKinds {pair : Nat × Nat} :
    pair ∈ sameKinds recorded ↔ ∃ entry ∈ recorded, entry.constraint = .sameAs pair.1 pair.2 := by
  rw [sameKinds, List.mem_filterMap]
  refine exists_congr fun entry => and_congr_right fun _ => ?_
  cases entry.constraint with
  | sameAs value other => simp [Prod.ext_iff]
  | exactly _ _ | oneOf _ _ => simp

theorem inside_iff : Inside values recorded ↔
    ∀ pair ∈ sameKinds recorded, pair.1 < values.length ∧ pair.2 < values.length := by
  constructor
  · intro inside pair member
    obtain ⟨entry, listed, same⟩ := mem_sameKinds.mp member
    exact inside entry listed pair.1 pair.2 same
  · intro inside entry listed value other same
    exact inside (value, other) (mem_sameKinds.mpr ⟨entry, listed, same⟩)

instance : Decidable (Inside values recorded) :=
  decidable_of_iff _ inside_iff.symm

theorem length_partition : (partition values recorded).labels.length = values.length := by
  rw [partition, Partition.length_unionAll, Partition.length_discrete]

theorem Inside.canonical (inside : Inside values recorded) : (partition values recorded).Canonical := by
  refine (Partition.canonical_discrete values.length).unionAll fun pair member => ?_
  rw [Partition.length_discrete]
  exact inside_iff.mp inside pair member

/-- Values that constraints put into one class. -/
def Joined (recorded : List Recorded) : Nat → Nat → Prop :=
  Relation.EqvGen fun a b => ∃ entry ∈ recorded, entry.constraint = .sameAs a b

/-- Values are in one class exactly if constraints join them. -/
theorem Inside.label_eq_iff (inside : Inside values recorded) {first second : Nat}
    (firstInside : first < values.length) (secondInside : second < values.length) :
    (partition values recorded).label first = (partition values recorded).label second ↔
      Joined recorded first second := by
  rw [Joined, partition,
    Partition.label_discrete_unionAll_iff (inside_iff.mp inside) firstInside secondInside]
  simp only [mem_sameKinds]

/-! ## The class of a value -/

def classmates (values : List ProvisionalValue) (recorded : List Recorded) (value : Nat) : List Nat :=
  (partition values recorded).members ((partition values recorded).label value)

theorem mem_classmates {value other : Nat} : other ∈ classmates values recorded value ↔
    other < values.length ∧
      (partition values recorded).label other = (partition values recorded).label value := by
  rw [classmates, Partition.mem_members, length_partition]

def reportOf (values : List ProvisionalValue) (recorded : List Recorded) (members : List Nat) :
    Option Diagnostic :=
  (solveClass values recorded 0 members).2

def reported (values : List ProvisionalValue) (recorded : List Recorded) : List Nat :=
  (partition values recorded).leaders.filter fun leader =>
    (reportOf values recorded ((partition values recorded).members leader)).isSome

/-- The diagnostics are those of the classes that are reported, in order. -/
theorem solveClasses_reports {number : Nat} {list : List (List Nat)} :
    List.Forall₂ (fun members report => reportOf values recorded members = some report)
      (list.filter fun members => (reportOf values recorded members).isSome)
      (solveClasses values recorded number list).2 := by
  induction list generalizing number with
  | nil => exact .nil
  | cons first rest ih =>
      have isReport : (solveClass values recorded number first).2 = reportOf values recorded first := rfl
      rw [solveClasses]
      dsimp only
      rw [isReport]
      cases own : reportOf values recorded first with
      | none =>
          rw [List.filter_cons_of_neg (by simp [own])]
          exact ih
      | some report =>
          rw [List.filter_cons_of_pos (by simp [own])]
          exact .cons own ih

/-- Each class is solved on its own, and numbered by its place among those that are reported. -/
theorem solveClasses_numbered {number : Nat} {list : List (List Nat)} {place : Nat}
    {members : List Nat} (found : list[place]? = some members) :
    ∃ own, (solveClasses values recorded number list).1[place]? =
        some (solveClass values recorded own members).1 ∧ number ≤ own ∧
      ((reportOf values recorded members).isSome = true →
        (list.filter fun members => (reportOf values recorded members).isSome)[own - number]? =
          some members) := by
  induction list generalizing number place with
  | nil => cases found
  | cons first rest ih =>
      cases place with
      | zero =>
          obtain rfl := Option.some.inj found
          refine ⟨number, rfl, Nat.le_refl number, fun isReported => ?_⟩
          rw [List.filter_cons_of_pos (by simp [isReported]), Nat.sub_self]
          rfl
      | succ place =>
          have isReport : (solveClass values recorded number first).2 = reportOf values recorded first :=
            rfl
          obtain ⟨own, isClass, above, isPlace⟩ := @ih
            (number + (solveClass values recorded number first).2.toList.length) place found
          refine ⟨own, isClass, by omega, fun isReported => ?_⟩
          have here := isPlace isReported
          rw [isReport] at above here
          cases isFirst : reportOf values recorded first with
          | none =>
              rw [isFirst] at here
              rw [List.filter_cons_of_neg (by simp [isFirst])]
              exact here
          | some report =>
              rw [isFirst, Option.toList_some, List.length_singleton] at above here
              have next : own - number = own - (number + 1) + 1 := by omega
              rw [List.filter_cons_of_pos (by simp [isFirst]), next]
              exact here

/-- The classes are numbered by their leaders. -/
theorem classOf_solve {value : Nat} (present : value < values.length) :
    (solve values recorded).classOf[value]? =
      some ((partition values recorded).leaders.idxOf ((partition values recorded).label value)) := by
  have within : value < (partition values recorded).labels.length := by rwa [length_partition]
  rw [solve, Partition.label_eq_getElem within]
  dsimp only
  rw [List.getElem?_map, List.getElem?_eq_getElem within, Option.map_some]

/-- The label of a value leads its class. -/
theorem Inside.label_mem_leaders (inside : Inside values recorded) {value : Nat}
    (present : value < values.length) :
    (partition values recorded).label value ∈ (partition values recorded).leaders := by
  have within : value < (partition values recorded).labels.length := by rwa [length_partition]
  exact Partition.mem_leaders.mpr ⟨inside.canonical.inside value within, inside.canonical.fixed value within⟩

/-- The diagnostics of a solution are those of the classes that are reported, in order. -/
theorem diagnostics_solve :
    List.Forall₂ (fun leader report =>
        reportOf values recorded ((partition values recorded).members leader) = some report)
      (reported values recorded) (solve values recorded).diagnostics := by
  have reports := @solveClasses_reports values recorded 0
    ((partition values recorded).leaders.map (partition values recorded).members)
  rw [List.filter_map, List.forall₂_map_left_iff] at reports
  exact reports

/-- The class of a value is that of its classmates, numbered by the place of its leader among
those of the classes that are reported. -/
theorem class?_numbered (inside : Inside values recorded) {value : Nat} (present : value < values.length) :
    ∃ number, (solve values recorded).class? value =
        some (solveClass values recorded number (classmates values recorded value)).1 ∧
      ((reportOf values recorded (classmates values recorded value)).isSome = true →
        (reported values recorded)[number]? = some ((partition values recorded).label value)) := by
  have listed : ((partition values recorded).leaders.map (partition values recorded).members)[
      (partition values recorded).leaders.idxOf ((partition values recorded).label value)]? =
        some (classmates values recorded value) := by
    rw [List.getElem?_map, List.getElem?_idxOf (inside.label_mem_leaders present)]
    rfl
  obtain ⟨own, isClass, -, isPlace⟩ :=
    @solveClasses_numbered values recorded 0 _ _ _ listed
  refine ⟨own, ?_, fun isReported => ?_⟩
  · rw [class?, classOf_solve present, Option.bind_some]
    exact isClass
  · have place := isPlace isReported
    rw [List.filter_map, List.getElem?_map, Option.map_eq_some_iff] at place
    obtain ⟨leader, isLeader, same⟩ := place
    -- classes with the same members have the same leader
    have own : value ∈ (partition values recorded).members leader :=
      same ▸ mem_classmates.mpr ⟨present, rfl⟩
    rw [(Partition.mem_members.mp own).2]
    exact isLeader

/-- The class of a value is that of its classmates, and what it reports is at its number. -/
theorem class?_solve (inside : Inside values recorded) {value : Nat} (present : value < values.length) :
    ∃ number, (solve values recorded).class? value =
        some (solveClass values recorded number (classmates values recorded value)).1 ∧
      ∀ report, (solveClass values recorded number (classmates values recorded value)).2 = some report →
        (solve values recorded).diagnostics[number]? = some report := by
  obtain ⟨number, isClass, isPlace⟩ := class?_numbered inside present
  refine ⟨number, isClass, fun report isReport => ?_⟩
  have isReport : reportOf values recorded (classmates values recorded value) = some report := isReport
  obtain ⟨other, found, isOther⟩ :=
    getElem?_of_forall₂ diagnostics_solve (isPlace (by rw [isReport]; rfl))
  rwa [Option.some.inj (isReport.symm.trans isOther)]

/-- What there is to know of a class depends on its label only. -/
theorem class?_congr {first second : Nat} (firstInside : first < values.length)
    (secondInside : second < values.length)
    (same : (partition values recorded).label first = (partition values recorded).label second) :
    (solve values recorded).class? first = (solve values recorded).class? second := by
  rw [class?, class?, classOf_solve firstInside, classOf_solve secondInside, same]

/-! ## Kinds and reports -/

/-- The width of a class, which is that of its first member. -/
def classWidth (values : List ProvisionalValue) (recorded : List Recorded) (value : Nat) : Width :=
  values[(classmates values recorded value).headD 0]?.elim .narrow ProvisionalValue.width

def left (values : List ProvisionalValue) (recorded : List Recorded) (value : Nat) : Narrowing :=
  narrowing values recorded (classWidth values recorded value) (classmates values recorded value)

/-- The first member of a class is one of the values. -/
theorem exists_classWidth {value : Nat} (present : value < values.length) :
    ∃ other ∈ classmates values recorded value, ∃ record, values[other]? = some record ∧
      record.width = classWidth values recorded value := by
  have own : value ∈ classmates values recorded value := mem_classmates.mpr ⟨present, rfl⟩
  cases members : classmates values recorded value with
  | nil =>
      rw [members] at own
      cases own
  | cons first rest =>
      have isMember : first ∈ classmates values recorded value := members ▸ List.mem_cons_self
      obtain ⟨record, found⟩ : ∃ record, values[first]? = some record :=
        ⟨_, List.getElem?_eq_getElem (mem_classmates.mp isMember).1⟩
      refine ⟨first, List.mem_cons_self, record, found, ?_⟩
      rw [classWidth, members, List.headD_cons, found, Option.elim_some]

theorem kindOf_solve (inside : Inside values recorded) {value : Nat} (present : value < values.length) :
    (solve values recorded).kindOf value =
      (left values recorded value).resolved (classWidth values recorded value) := by
  obtain ⟨number, isClass, -⟩ := class?_solve inside present
  rw [kindOf, isClass]
  rfl

theorem isConflicting_solve (inside : Inside values recorded) {value : Nat}
    (present : value < values.length) :
    (solve values recorded).isConflicting value = (left values recorded value).isConflict := by
  obtain ⟨number, isClass, -⟩ := class?_solve inside present
  rw [isConflicting, isClass]
  rfl

/-- A conflicting class has a diagnostic, which reports the conflict. -/
theorem exists_report (inside : Inside values recorded) {value : Nat} (present : value < values.length)
    (conflict : (solve values recorded).isConflicting value = true) :
    ∃ number report, (solve values recorded).diagnosticOf value = some number ∧
      (solve values recorded).diagnostics[number]? = some report ∧ report.isConflict = true := by
  obtain ⟨number, isClass, reports⟩ := class?_solve inside present
  rw [isConflicting, isClass, Option.elim_some] at conflict
  obtain ⟨report, found, isConflict⟩ : ∃ report,
      (solveClass values recorded number (classmates values recorded value)).2 = some report ∧
        report.isConflict = true := by
    simp only [solveClass] at conflict ⊢
    generalize narrowing values recorded _ (classmates values recorded value) = left at conflict ⊢
    cases left with
    | remaining _ _ => cases conflict
    | mixed | emptied _ _ => exact ⟨_, rfl, rfl⟩
  refine ⟨number, report, ?_, reports report found, isConflict⟩
  have numbered : (solveClass values recorded number (classmates values recorded value)).1.diagnostic =
      (solveClass values recorded number (classmates values recorded value)).2.map fun _ => number :=
    rfl
  rw [diagnosticOf, isClass, Option.bind_some, numbered, found, Option.map_some]

/-- Only values that there are conflict. -/
theorem present_of_isConflicting {value : Nat}
    (conflict : (solve values recorded).isConflicting value = true) : value < values.length := by
  by_contra outside
  have nothing : (solve values recorded).classOf[value]? = none := by
    rw [List.getElem?_eq_none_iff, solve]
    dsimp only
    rw [List.length_map, length_partition]
    exact Nat.not_lt.mp outside
  rw [isConflicting, class?, nothing] at conflict
  cases conflict

theorem width_defaultKind (width : Width) : (defaultKind width).width = width := by
  cases width <;> rfl

/-- A conflicting class has the kind that its width has by default. -/
theorem kindOf_eq_default (inside : Inside values recorded) {value : Nat}
    (present : value < values.length) (conflict : (solve values recorded).isConflicting value = true) :
    (solve values recorded).kindOf value = defaultKind (classWidth values recorded value) := by
  rw [isConflicting_solve inside present] at conflict
  rw [kindOf_solve inside present]
  cases isLeft : left values recorded value with
  | remaining _ _ =>
      rw [isLeft] at conflict
      cases conflict
  | mixed | emptied _ _ => rfl

/-- What is left for a class that is not conflicting: kinds of the width of all members, of
which the class has one. -/
theorem left_of_free (inside : Inside values recorded) {value : Nat} (present : value < values.length)
    (free : (solve values recorded).isConflicting value = false) :
    (∀ other ∈ classmates values recorded value, ∀ record, values[other]? = some record →
        record.width = classWidth values recorded value) ∧
      ∃ kinds constrained, left values recorded value = .remaining kinds constrained ∧
        (Narrowing.remaining (.ofWidth (classWidth values recorded value)) false).restrictAll
          (classmates values recorded value).contains 0 recorded = .remaining kinds constrained := by
  rw [isConflicting_solve inside present] at free
  have narrowed : left values recorded value = narrowing values recorded
    (classWidth values recorded value) (classmates values recorded value) := rfl
  rw [narrowing] at narrowed
  split at narrowed
  · rename_i uniform
    refine ⟨fun other isMember record found => ?_, ?_⟩
    · refine eq_of_beq (List.all_eq_true.mp uniform _ (List.mem_filterMap.mpr ⟨other, isMember, ?_⟩))
      rw [found, Option.map_some]
    · rw [← narrowed]
      cases isLeft : left values recorded value with
      | remaining kinds constrained => exact ⟨kinds, constrained, rfl, rfl⟩
      | mixed | emptied _ _ =>
          rw [isLeft] at free
          cases free
  · rw [Narrowing.restrictAll_of_isConflict rfl] at narrowed
    rw [narrowed] at free
    cases free

/-- The kind of a class that is not conflicting has the width of its members. -/
theorem width_kindOf (inside : Inside values recorded) {value : Nat} (present : value < values.length)
    (free : (solve values recorded).isConflicting value = false) :
    ((solve values recorded).kindOf value).width = classWidth values recorded value := by
  obtain ⟨-, kinds, constrained, isLeft, remains⟩ := left_of_free inside present free
  have nonempty : KindSet.ofWidth (classWidth values recorded value) ≠ .empty := by
    cases classWidth values recorded value <;> decide
  obtain ⟨left, within, -, -⟩ := Narrowing.restrictAll_eq_remaining nonempty remains
  rw [kindOf_solve inside present, isLeft]
  cases constrained with
  | false => exact width_defaultKind _
  | true =>
      obtain ⟨kind, preferred⟩ := KindSet.exists_preferred left
      rw [Narrowing.resolved, preferred, Option.getD_some]
      exact KindSet.contains_ofWidth.mp (within kind (KindSet.contains_of_preferred preferred))

/-- The kind of a class that is not conflicting is allowed by the constraints on its members. -/
theorem contains_kindOf (inside : Inside values recorded) {entry : Recorded} (listed : entry ∈ recorded)
    {allowed : KindSet} (isAllowed : entry.constraint.kinds = some allowed)
    (present : entry.constraint.owner < values.length)
    (free : (solve values recorded).isConflicting entry.constraint.owner = false) :
    allowed.contains ((solve values recorded).kindOf entry.constraint.owner) = true := by
  obtain ⟨-, kinds, constrained, isLeft, remains⟩ := left_of_free inside present free
  have nonempty : KindSet.ofWidth (classWidth values recorded entry.constraint.owner) ≠ .empty := by
    cases classWidth values recorded entry.constraint.owner <;> decide
  obtain ⟨left, -, -, restricts⟩ := Narrowing.restrictAll_eq_remaining nonempty remains
  obtain ⟨rfl, within⟩ := restricts entry listed allowed isAllowed
    (List.contains_iff_mem.mpr (mem_classmates.mpr ⟨present, rfl⟩))
  obtain ⟨kind, preferred⟩ := KindSet.exists_preferred left
  rw [kindOf_solve inside present, isLeft, Narrowing.resolved, preferred, Option.getD_some]
  exact within kind (KindSet.contains_of_preferred preferred)

end Solution

end Dalvik
