import Dalvik.Proofs.Typing.Leaders
import Mathlib.Data.List.Sort

/-!
# What constraints assign

The kind of each class is told by the constraints alone, in whatever order they were recorded: by
the width of its least member and the kinds that all constraints on its members allow.  A class
that cannot have a kind, that no constraint restricts, or that is left with several kinds has one
diagnostic, and diagnostics come in the order of the least members.
-/

namespace Dalvik

namespace Solution

/-! ## Classes and their kinds, whatever the order of recording -/

structure Leads (values : List ProvisionalValue) (recorded : List Recorded) (first : Nat) : Prop where
  present : first < values.length
  least : ∀ other, Joined recorded first other → first ≤ other

def Mixes (values : List ProvisionalValue) (recorded : List Recorded) (first : Nat) : Prop :=
  ∃ own, values[first]? = some own ∧ ∃ other record, Joined recorded first other ∧
    values[other]? = some record ∧ record.width ≠ own.width

/-- A constraint on a member of a class allows some kinds. -/
def Limits (recorded : List Recorded) (first : Nat) (kinds : KindSet) : Prop :=
  ∃ entry ∈ recorded, Joined recorded first entry.constraint.owner ∧
    entry.constraint.kinds = some kinds

/-- A kind of the width of a class's least value that all constraints on its members allow. -/
def Allows (values : List ProvisionalValue) (recorded : List Recorded) (first : Nat)
    (kind : Kind) : Prop :=
  (∃ own, values[first]? = some own ∧ kind.width = own.width) ∧
    ∀ kinds, Limits recorded first kinds → kinds.contains kind = true

/-- The kind of the class with a least value, whether it is conflicting, and what is reported of
it. -/
inductive Verdict (values : List ProvisionalValue) (recorded : List Recorded) (first : Nat) :
    Kind → Bool → Option DiagnosticKind → Prop where
  | conflict {own : ProvisionalValue} (isOwn : values[first]? = some own)
      (fails : Mixes values recorded first ∨ ∀ kind, ¬ Allows values recorded first kind) :
      Verdict values recorded first (defaultKind own.width) true (some .conflict)
  | unconstrained {own : ProvisionalValue} (isOwn : values[first]? = some own)
      (uniform : ¬ Mixes values recorded first) (free : ∀ kinds, ¬ Limits recorded first kinds) :
      Verdict values recorded first (defaultKind own.width) false (some .unconstrained)
  | determined {kind : Kind} (uniform : ¬ Mixes values recorded first)
      (limited : ∃ kinds, Limits recorded first kinds) (allowed : Allows values recorded first kind)
      (only : ∀ other, Allows values recorded first other → other = kind) :
      Verdict values recorded first kind false none
  | ambiguous {kind other : Kind} (uniform : ¬ Mixes values recorded first)
      (limited : ∃ kinds, Limits recorded first kinds) (allowed : Allows values recorded first kind)
      (preferred : ∀ own, Allows values recorded first own →
        Kind.all.idxOf kind ≤ Kind.all.idxOf own)
      (also : Allows values recorded first other) (differs : other ≠ kind) :
      Verdict values recorded first kind false (some .ambiguous)

/-- A solution that has the classes and kinds that constraints tell. -/
structure Assigns (values : List ProvisionalValue) (recorded : List Recorded)
    (solution : Solution) : Prop where
  /-- Each value has a class. -/
  total : ∀ value < values.length, (solution.class? value).isSome = true
  /-- Values have one class exactly if constraints join them. -/
  classes : ∀ first < values.length, ∀ second < values.length,
    (solution.classOf[first]? = solution.classOf[second]? ↔ Joined recorded first second)
  /-- The members of a class have its kind, and are conflicting if it is. -/
  verdicts : ∀ first, Leads values recorded first → ∀ value, Joined recorded first value →
    ∃ report, Verdict values recorded first (solution.kindOf value) (solution.isConflicting value) report
  /-- There is one diagnostic for each class that is reported, in the order of their least values,
  and each member of the class refers to it. -/
  reports : ∃ firsts : List Nat, firsts.Pairwise (· < ·) ∧
    (∀ first, first ∈ firsts ↔ Leads values recorded first ∧ ∃ kind conflicting report,
      Verdict values recorded first kind conflicting (some report)) ∧
    List.Forall₂ (fun first diagnostic => ∃ conflicting,
      Verdict values recorded first diagnostic.resolved conflicting (some diagnostic.kind))
      firsts solution.diagnostics ∧
    ∀ first, Leads values recorded first → ∀ value, Joined recorded first value → ∀ number,
      (solution.diagnosticOf value = some number ↔ firsts[number]? = some first)

variable {values : List ProvisionalValue} {recorded other : List Recorded} {first : Nat}

/-- A kind of the right width is allowed where nothing limits a class. -/
theorem allows_defaultKind {own : ProvisionalValue} (isOwn : values[first]? = some own)
    (free : ∀ kinds, ¬ Limits recorded first kinds) :
    Allows values recorded first (defaultKind own.width) :=
  ⟨⟨own, isOwn, width_defaultKind own.width⟩, fun kinds limits => absurd limits (free kinds)⟩

/-- Constraints tell one kind of a class. -/
theorem Verdict.unique {kind kind' : Kind} {conflicting conflicting' : Bool}
    {report report' : Option DiagnosticKind} (one : Verdict values recorded first kind conflicting report)
    (two : Verdict values recorded first kind' conflicting' report') :
    kind = kind' ∧ conflicting = conflicting' ∧ report = report' := by
  have clash : ∀ {own : Kind},
      (Mixes values recorded first ∨ ∀ kind, ¬ Allows values recorded first kind) →
        ¬ Mixes values recorded first → ¬ Allows values recorded first own := by
    rintro own (mixes | nothing) uniform
    · exact absurd mixes uniform
    · exact nothing own
  cases one with
  | conflict isOwn fails =>
      cases two with
      | conflict isOwn' _ =>
          obtain rfl := Option.some.inj (isOwn.symm.trans isOwn')
          exact ⟨rfl, rfl, rfl⟩
      | unconstrained isOwn' uniform free =>
          exact absurd (allows_defaultKind isOwn' free) (clash fails uniform)
      | determined uniform _ allowed _ | ambiguous uniform _ allowed _ _ _ =>
          exact absurd allowed (clash fails uniform)
  | unconstrained isOwn uniform free =>
      cases two with
      | conflict _ fails => exact absurd (allows_defaultKind isOwn free) (clash fails uniform)
      | unconstrained isOwn' _ _ =>
          obtain rfl := Option.some.inj (isOwn.symm.trans isOwn')
          exact ⟨rfl, rfl, rfl⟩
      | determined _ limited _ _ | ambiguous _ limited _ _ _ _ =>
          obtain ⟨kinds, limits⟩ := limited
          exact absurd limits (free kinds)
  | determined uniform limited allowed only =>
      cases two with
      | conflict _ fails => exact absurd allowed (clash fails uniform)
      | unconstrained _ _ free =>
          obtain ⟨kinds, limits⟩ := limited
          exact absurd limits (free kinds)
      | determined _ _ allowed' _ => exact ⟨(only _ allowed').symm, rfl, rfl⟩
      | ambiguous _ _ allowed' _ also differs =>
          exact absurd ((only _ also).trans (only _ allowed').symm) differs
  | ambiguous uniform limited allowed preferred also differs =>
      cases two with
      | conflict _ fails => exact absurd allowed (clash fails uniform)
      | unconstrained _ _ free =>
          obtain ⟨kinds, limits⟩ := limited
          exact absurd limits (free kinds)
      | determined _ _ _ only => exact absurd ((only _ also).trans (only _ allowed).symm) differs
      | ambiguous _ _ allowed' preferred' _ _ =>
          have same := Nat.le_antisymm (preferred _ allowed') (preferred' _ allowed)
          exact ⟨List.idxOf_inj (Kind.mem_all _) |>.mp same, rfl, rfl⟩

/-! ## The classes of a solution -/

namespace Inside

variable (inside : Inside values recorded)
include inside

theorem mem_classmates {value : Nat} (present : value < values.length) {other : Nat} :
    other ∈ classmates values recorded value ↔ Joined recorded value other := by
  rw [Solution.mem_classmates]
  constructor
  · rintro ⟨isOther, same⟩
    exact (inside.label_eq_iff present isOther).mp same.symm
  · intro joined
    have isOther := (inside.present_of_joined joined).mp present
    exact ⟨isOther, ((inside.label_eq_iff present isOther).mpr joined).symm⟩

/-- The least values of classes are the leaders. -/
theorem leads_iff : Leads values recorded first ↔
    first < values.length ∧ (partition values recorded).label first = first := by
  constructor
  · rintro ⟨present, least⟩
    obtain ⟨-, joined⟩ := inside.joined_label present
    exact ⟨present, Nat.le_antisymm (label_le present) (least _ (.symm _ _ joined))⟩
  · rintro ⟨present, isLabel⟩
    refine ⟨present, fun other joined => ?_⟩
    rw [← isLabel]
    exact inside.label_le_of_joined ((inside.present_of_joined joined).mp present) joined

/-- Each value is in the class of a least value. -/
theorem exists_leads {value : Nat} (present : value < values.length) :
    ∃ first, Leads values recorded first ∧ Joined recorded first value := by
  obtain ⟨isFirst, joined⟩ := inside.joined_label present
  refine ⟨_, inside.leads_iff.mpr ⟨isFirst, ?_⟩, joined⟩
  exact (inside.label_eq_iff isFirst present).mpr joined

/-- The least value of a class comes first among its members. -/
theorem head_classmates (leads : Leads values recorded first) :
    (classmates values recorded first).headD 0 = first := by
  obtain ⟨present, isLabel⟩ := inside.leads_iff.mp leads
  rw [classmates, isLabel]
  refine Partition.head_members (fun number within => ?_) ?_
  · exact label_le (by rwa [length_partition] at within)
  · rw [Partition.mem_leaders, length_partition]
    exact ⟨present, isLabel⟩

/-- The width of a class is that of its least value. -/
theorem classWidth_eq {own : ProvisionalValue} (leads : Leads values recorded first)
    (isOwn : values[first]? = some own) : classWidth values recorded first = own.width := by
  rw [classWidth, inside.head_classmates leads, isOwn, Option.elim_some]

/-- Constraints leave a class of one width the kinds that it allows. -/
theorem narrowing_leaves {own : ProvisionalValue} (leads : Leads values recorded first)
    (isOwn : values[first]? = some own) (uniform : ¬ Mixes values recorded first) :
    (left values recorded first).Leaves (Allows values recorded first)
      (∃ kinds, Limits recorded first kinds) := by
  have sameWidth : ∀ width ∈ (classmates values recorded first).filterMap
      (fun member => values[member]?.map ProvisionalValue.width), width = own.width := by
    intro width listed
    obtain ⟨other, isMember, isWidth⟩ := List.mem_filterMap.mp listed
    obtain ⟨record, isRecord, rfl⟩ := Option.map_eq_some_iff.mp isWidth
    by_contra differs
    exact uniform ⟨own, isOwn, other, record, (inside.mem_classmates leads.present).mp isMember,
      isRecord, differs⟩
  have nonempty : KindSet.ofWidth own.width ≠ .empty := by
    cases own.width <;> decide
  rw [left, inside.classWidth_eq leads isOwn, narrowing]
  rw [if_pos (List.all_eq_true.mpr fun width listed => beq_iff_eq.mpr (sameWidth width listed))]
  have restricts : ∀ kinds, Narrowing.Restricts (classmates values recorded first).contains recorded kinds ↔
      Limits recorded first kinds := by
    intro kinds
    simp only [Narrowing.Restricts, Limits, List.contains_iff_mem, inside.mem_classmates leads.present]
  refine (Narrowing.restrictAll_leaves nonempty).congr (fun kind => ?_) ?_
  · simp only [restricts, KindSet.contains_ofWidth, Allows, isOwn, Option.some.injEq, exists_eq_left']
  · simp only [restricts, Bool.false_eq_true, false_or]

/-- A class with values of two widths is left no kinds. -/
theorem narrowing_of_mixes (leads : Leads values recorded first)
    (mixes : Mixes values recorded first) : left values recorded first = .mixed := by
  obtain ⟨own, isOwn, other, record, joined, isRecord, differs⟩ := mixes
  rw [left, inside.classWidth_eq leads isOwn, narrowing]
  rw [if_neg, Narrowing.restrictAll_of_isConflict rfl]
  intro uniform
  refine differs (eq_of_beq (List.all_eq_true.mp uniform _ (List.mem_filterMap.mpr ⟨other, ?_, ?_⟩)))
  · exact (inside.mem_classmates leads.present).mpr joined
  · rw [isRecord, Option.map_some]

/-- What a class is solved to, and what is reported of it, is what constraints tell. -/
theorem verdict (leads : Leads values recorded first) :
    Verdict values recorded first
        ((left values recorded first).resolved (classWidth values recorded first))
        (left values recorded first).isConflict
        ((reportOf values recorded (classmates values recorded first)).map Diagnostic.kind) := by
  obtain ⟨own, isOwn⟩ : ∃ own, values[first]? = some own :=
    ⟨_, List.getElem?_eq_getElem leads.present⟩
  have isReport : reportOf values recorded (classmates values recorded first) =
      report values recorded (classmates values recorded first)
        ((left values recorded first).resolved (classWidth values recorded first))
        (left values recorded first) := rfl
  rw [isReport, inside.classWidth_eq leads isOwn]
  by_cases mixes : Mixes values recorded first
  · rw [inside.narrowing_of_mixes leads mixes]
    exact .conflict isOwn (.inl mixes)
  · have leaves := inside.narrowing_leaves leads isOwn mixes
    generalize left values recorded first = narrowing at leaves
    cases leaves with
    | emptied nothing => exact .conflict isOwn (.inr nothing)
    | @remaining kinds constrained exactly nonempty isLimited =>
        cases constrained with
        | false =>
            refine .unconstrained isOwn mixes fun kinds limits => ?_
            exact absurd (isLimited.mpr ⟨kinds, limits⟩) Bool.false_ne_true
        | true =>
            have limited := isLimited.mp rfl
            obtain ⟨kind, preferred⟩ := KindSet.exists_preferred nonempty
            have contains := KindSet.contains_of_preferred preferred
            rw [Narrowing.resolved, preferred, Option.getD_some, report]
            cases only : kinds.single with
            | some single =>
                have isKinds := KindSet.eq_ofKind_of_single only
                refine .determined mixes limited ((exactly kind).mp contains) fun other isAllowed => ?_
                have isOther := (exactly other).mpr isAllowed
                rw [isKinds, KindSet.contains_ofKind] at isOther contains
                exact isOther.symm.trans contains
            | none =>
                obtain ⟨other, also, differs⟩ := KindSet.exists_other contains only
                refine .ambiguous mixes limited ((exactly kind).mp contains) (fun own isAllowed => ?_)
                  ((exactly other).mp also) differs
                exact KindSet.idxOf_le_of_preferred preferred ((exactly own).mpr isAllowed)

end Inside

/-! ## The diagnostics of a solution -/

/-- A diagnostic tells the kind of the class that it is about. -/
theorem resolved_of_reportOf {value : Nat} {report : Diagnostic}
    (isReport : reportOf values recorded (classmates values recorded value) = some report) :
    report.resolved = (left values recorded value).resolved (classWidth values recorded value) := by
  have isReport : Solution.report values recorded (classmates values recorded value)
      ((left values recorded value).resolved (classWidth values recorded value))
      (left values recorded value) = some report := isReport
  generalize (left values recorded value).resolved (classWidth values recorded value) = kind at isReport ⊢
  cases isLeft : left values recorded value with
  | mixed | emptied _ _ =>
      rw [isLeft] at isReport
      exact (Option.some.inj isReport) ▸ rfl
  | remaining kinds constrained =>
      rw [isLeft] at isReport
      cases constrained with
      | false => exact (Option.some.inj isReport) ▸ rfl
      | true =>
          rw [Solution.report] at isReport
          split at isReport
          · cases isReport
          · exact (Option.some.inj isReport) ▸ rfl

/-- The classes that are reported come in the order of their least values. -/
theorem pairwise_reported : (reported values recorded).Pairwise (· < ·) :=
  (Partition.pairwise_leaders _).sublist List.filter_sublist

namespace Inside

variable (inside : Inside values recorded)
include inside

/-- The least value of a class has its members for classmates. -/
theorem classmates_of_leads (leads : Leads values recorded first) :
    classmates values recorded first = (partition values recorded).members first := by
  rw [classmates, (inside.leads_iff.mp leads).2]

theorem mem_reported : first ∈ reported values recorded ↔ Leads values recorded first ∧
    (reportOf values recorded (classmates values recorded first)).isSome = true := by
  rw [reported, List.mem_filter, Partition.mem_leaders, length_partition, ← inside.leads_iff]
  refine and_congr_right fun leads => ?_
  rw [inside.classmates_of_leads leads]

/-- The classes that are reported are those of which constraints tell that there is something to
report. -/
theorem mem_reported_iff : first ∈ reported values recorded ↔ Leads values recorded first ∧
    ∃ kind conflicting report, Verdict values recorded first kind conflicting (some report) := by
  rw [inside.mem_reported]
  refine and_congr_right fun leads => ?_
  have own := inside.verdict leads
  constructor
  · intro isReported
    obtain ⟨report, isReport⟩ := Option.isSome_iff_exists.mp isReported
    rw [isReport, Option.map_some] at own
    exact ⟨_, _, _, own⟩
  · rintro ⟨kind, conflicting, report, told⟩
    obtain ⟨-, -, isReport⟩ := own.unique told
    rw [← Option.isSome_map, isReport]
    rfl

/-- Each diagnostic is what constraints tell of a class that is reported. -/
theorem diagnostics_told : List.Forall₂ (fun first diagnostic => ∃ conflicting,
      Verdict values recorded first diagnostic.resolved conflicting (some diagnostic.kind))
    (reported values recorded) (solve values recorded).diagnostics := by
  have leading : ∀ first ∈ reported values recorded, Leads values recorded first :=
    fun first listed => (inside.mem_reported.mp listed).1
  refine ((List.forall₂_and_left _ _).mpr ⟨leading, diagnostics_solve⟩).imp ?_
  rintro first diagnostic ⟨leads, isReport⟩
  rw [← inside.classmates_of_leads leads] at isReport
  have own := inside.verdict leads
  rw [isReport, Option.map_some, ← resolved_of_reportOf isReport] at own
  exact ⟨_, own⟩

/-- Values that are joined have one class. -/
theorem class?_of_joined (present : first < values.length) {value : Nat} (joined : Joined recorded first value) :
    (solve values recorded).class? value = (solve values recorded).class? first := by
  have isValue := (inside.present_of_joined joined).mp present
  exact class?_congr isValue present ((inside.label_eq_iff isValue present).mpr (.symm _ _ joined))

/-- The members of a class refer to its diagnostic, which has the place of the class among those
that are reported. -/
theorem diagnosticOf_iff (leads : Leads values recorded first) {value number : Nat}
    (joined : Joined recorded first value) :
    (solve values recorded).diagnosticOf value = some number ↔
      (reported values recorded)[number]? = some first := by
  obtain ⟨own, isClass, isPlace⟩ := class?_numbered inside leads.present
  rw [(inside.leads_iff.mp leads).2] at isPlace
  have numbered : (solve values recorded).diagnosticOf value =
      (reportOf values recorded (classmates values recorded first)).map fun _ => own := by
    rw [diagnosticOf, inside.class?_of_joined leads.present joined, isClass, Option.bind_some]
    rfl
  rw [numbered, Option.map_eq_some_iff]
  constructor
  · rintro ⟨report, isReport, rfl⟩
    exact isPlace (by rw [isReport]; rfl)
  · intro found
    have isReported := (inside.mem_reported.mp (List.mem_of_getElem? found)).2
    obtain ⟨report, isReport⟩ := Option.isSome_iff_exists.mp isReported
    have place := isPlace isReported
    refine ⟨report, isReport, ?_⟩
    have nodup : (reported values recorded).Nodup := pairwise_reported.imp Nat.ne_of_lt
    obtain ⟨within, -⟩ := List.getElem?_eq_some_iff.mp place
    exact (List.getElem?_inj within nodup).mp (place.trans found.symm)

/-- Values are in one class of the solution exactly if constraints join them. -/
theorem classOf_iff {second : Nat} (isFirst : first < values.length) (isSecond : second < values.length) :
    (solve values recorded).classOf[first]? = (solve values recorded).classOf[second]? ↔
      Joined recorded first second := by
  rw [classOf_solve isFirst, classOf_solve isSecond, Option.some.injEq,
    List.idxOf_inj (inside.label_mem_leaders isFirst)]
  exact inside.label_eq_iff isFirst isSecond

/-- Values have the classes and kinds that constraints tell, and diagnostics are about what
constraints leave open. -/
theorem assigns : Assigns values recorded (solve values recorded) where
  total value present := by
    obtain ⟨number, isClass, -⟩ := class?_numbered inside present
    rw [isClass]
    rfl
  classes first isFirst second isSecond := inside.classOf_iff isFirst isSecond
  verdicts first leads value joined := by
    have alike := inside.class?_of_joined leads.present joined
    rw [kindOf, isConflicting, alike, ← kindOf, ← isConflicting, kindOf_solve inside leads.present,
      isConflicting_solve inside leads.present]
    exact ⟨_, inside.verdict leads⟩
  reports := by
    exact ⟨reported values recorded, pairwise_reported, fun first => inside.mem_reported_iff,
      inside.diagnostics_told, fun first leads value joined number => inside.diagnosticOf_iff leads joined⟩

end Inside

/-! ## Orders of recording -/

/-- Solutions that give values the same classes and kinds, and report the same of them. -/
structure Agree (values : List ProvisionalValue) (one two : Solution) : Prop where
  classOf : one.classOf = two.classOf
  kindOf : ∀ value < values.length, one.kindOf value = two.kindOf value
  isConflicting : ∀ value < values.length, one.isConflicting value = two.isConflicting value
  diagnosticOf : ∀ value < values.length, one.diagnosticOf value = two.diagnosticOf value
  diagnostics : one.diagnostics.map (fun diagnostic => (diagnostic.kind, diagnostic.resolved)) =
    two.diagnostics.map fun diagnostic => (diagnostic.kind, diagnostic.resolved)

/-- What constraints tell depends on which there are only. -/
theorem Verdict.of_mem_iff (same : ∀ entry, entry ∈ recorded ↔ entry ∈ other) {kind : Kind}
    {conflicting : Bool} {report : Option DiagnosticKind}
    (told : Verdict values recorded first kind conflicting report) :
    Verdict values other first kind conflicting report := by
  have limits : ∀ kinds, Limits recorded first kinds ↔ Limits other first kinds := by
    simp only [Limits, Joined, same, implies_true]
  have allows : ∀ kind, Allows values recorded first kind ↔ Allows values other first kind := by
    simp only [Allows, limits, implies_true]
  have mixes : Mixes values recorded first ↔ Mixes values other first := by
    simp only [Mixes, Joined, same]
  cases told with
  | conflict isOwn fails => exact .conflict isOwn (by simpa only [mixes, allows] using fails)
  | unconstrained isOwn uniform free =>
      exact .unconstrained isOwn (by rwa [← mixes]) (by simpa only [limits] using free)
  | determined uniform limited allowed only =>
      exact .determined (by rwa [← mixes]) (by simpa only [limits] using limited)
        ((allows _).mp allowed) (by simpa only [allows] using only)
  | ambiguous uniform limited allowed preferred also differs =>
      exact .ambiguous (by rwa [← mixes]) (by simpa only [limits] using limited)
        ((allows _).mp allowed) (by simpa only [allows] using preferred) ((allows _).mp also) differs

/-- The same constraints, recorded in another order or more than once, are solved alike. -/
theorem agree_of_mem_iff (inside : Inside values recorded)
    (same : ∀ entry, entry ∈ other ↔ entry ∈ recorded) :
    Agree values (solve values recorded) (solve values other) := by
  have insideOther : Inside values other := fun entry listed => inside entry ((same entry).mp listed)
  have joined : Joined other = Joined recorded := by
    unfold Joined
    simp only [same]
  have leads : ∀ first, Leads values other first ↔ Leads values recorded first := by
    intro first
    constructor
    · rintro ⟨present, least⟩
      exact ⟨present, joined ▸ least⟩
    · rintro ⟨present, least⟩
      exact ⟨present, joined ▸ least⟩
  have own := inside.assigns
  have others := insideOther.assigns
  have alike : ∀ value < values.length,
      (solve values recorded).kindOf value = (solve values other).kindOf value ∧
        (solve values recorded).isConflicting value = (solve values other).isConflicting value := by
    intro value present
    obtain ⟨first, isFirst, isMember⟩ := inside.exists_leads present
    obtain ⟨_, told⟩ := own.verdicts first isFirst value isMember
    obtain ⟨_, toldOther⟩ := others.verdicts first ((leads first).mpr isFirst) value (joined ▸ isMember)
    obtain ⟨isKind, isConflict, -⟩ := told.unique (toldOther.of_mem_iff same)
    exact ⟨isKind, isConflict⟩
  have listed : reported values recorded = reported values other := by
    refine List.Pairwise.eq_of_mem_iff pairwise_reported pairwise_reported fun first => ?_
    rw [inside.mem_reported_iff, insideOther.mem_reported_iff, leads]
    refine and_congr_right fun _ => ?_
    constructor
    · rintro ⟨kind, conflicting, report, told⟩
      exact ⟨kind, conflicting, report, told.of_mem_iff fun entry => (same entry).symm⟩
    · rintro ⟨kind, conflicting, report, told⟩
      exact ⟨kind, conflicting, report, told.of_mem_iff same⟩
  constructor
  · have partitions := partition_congr inside insideOther fun first _ second _ => by rw [joined]
    rw [solve, solve, partitions]
  · exact fun value present => (alike value present).1
  · exact fun value present => (alike value present).2
  · intro value present
    obtain ⟨first, isFirst, isMember⟩ := inside.exists_leads present
    refine Option.ext fun number => ?_
    rw [inside.diagnosticOf_iff isFirst isMember, listed,
      insideOther.diagnosticOf_iff ((leads first).mpr isFirst) (joined ▸ isMember)]
  · -- both lists of diagnostics are what constraints tell of the same classes
    have one := inside.diagnostics_told
    have two := insideOther.diagnostics_told
    rw [listed] at one
    rw [← List.forall₂_eq_eq_eq, List.forall₂_map_left_iff, List.forall₂_map_right_iff]
    refine (forall₂_trans one.flip two).imp ?_
    rintro diagnostic diagnostic' ⟨first, ⟨_, told⟩, _, toldOther⟩
    obtain ⟨isKind, -, isReport⟩ := told.unique (toldOther.of_mem_iff same)
    exact Prod.ext (Option.some.inj isReport) isKind

/-- Solving finds the classes and kinds that constraints tell, in whatever order and how often they
are recorded. -/
theorem solve_assigns (inside : Inside values recorded) :
    Assigns values recorded (solve values recorded) ∧
      ∀ other, (∀ entry, entry ∈ other ↔ entry ∈ recorded) →
        Agree values (solve values recorded) (solve values other) :=
  ⟨inside.assigns, fun _ same => agree_of_mem_iff inside same⟩

def eightValues : List ProvisionalValue :=
  [⟨.ofNat 0, 0, some (.at 0), .narrow⟩, ⟨.ofNat 1, 0, some .param, .narrow⟩,
    ⟨.ofNat 2, 0, some (.at 2), .wide⟩, ⟨.ofNat 4, 0, none, .narrow⟩,
    ⟨.ofNat 5, 0, some (.at 4), .narrow⟩, ⟨.ofNat 6, 0, some (.at 6), .wide⟩,
    ⟨.ofNat 8, 0, some (.at 8), .narrow⟩, ⟨.ofNat 9, 0, some .param, .narrow⟩]

/-- Constraints that join two pairs of the eight values. -/
def eightConstraints : List Recorded :=
  [⟨some 10, .oneOf 3 .narrowNumber, .opcode⟩, ⟨some 12, .exactly 1 .float, .anchor⟩,
    ⟨some 12, .sameAs 2 4, .opcode⟩, ⟨some 14, .exactly 6 .int, .opcode⟩,
    ⟨some 16, .exactly 1 .object, .opcode⟩, ⟨some 18, .sameAs 3 0, .opcode⟩,
    ⟨some 20, .oneOf 5 .wide, .anchor⟩, ⟨some 22, .exactly 1 .float, .opcode⟩]

/-- Eight values are in six classes, two of which conflict; from the last constraint to the first,
they are solved alike. -/
theorem assigns_eightValues : Inside eightValues eightConstraints ∧
    Assigns eightValues eightConstraints (solve eightValues eightConstraints) ∧
    Agree eightValues (solve eightValues eightConstraints)
      (solve eightValues eightConstraints.reverse) ∧
    (solve eightValues eightConstraints).classOf = [0, 1, 2, 0, 2, 3, 4, 5] ∧
    (solve eightValues eightConstraints).diagnostics.map
        (fun diagnostic => (diagnostic.kind, diagnostic.resolved)) =
      [(.ambiguous, .int), (.conflict, .int), (.conflict, .long), (.ambiguous, .long),
        (.unconstrained, .int)] := by
  have inside : Inside eightValues eightConstraints := by decide
  obtain ⟨assigns, agree⟩ := solve_assigns inside
  refine ⟨inside, assigns, agree eightConstraints.reverse fun entry => List.mem_reverse, ?_, ?_⟩
  · decide
  · decide

end Solution

end Dalvik
