import Dalvik.Kind
import Mathlib.Data.List.Basic

/-!
# Sets of kinds

A set of kinds is given by the kinds it contains.
-/

namespace Dalvik

theorem Kind.mem_all (kind : Kind) : kind ∈ Kind.all := by
  cases kind <;> decide

namespace KindSet

theorem ext_contains {first second : KindSet}
    (same : ∀ kind, first.contains kind = second.contains kind) : first = second := by
  obtain ⟨int, long, float, double, object⟩ := first
  obtain ⟨int', long', float', double', object'⟩ := second
  obtain rfl : int = int' := same .int
  obtain rfl : long = long' := same .long
  obtain rfl : float = float' := same .float
  obtain rfl : double = double' := same .double
  obtain rfl : object = object' := same .object
  rfl

@[simp] theorem contains_empty (kind : Kind) : empty.contains kind = false := by
  cases kind <;> rfl

@[simp] theorem contains_inter (first second : KindSet) (kind : Kind) :
    (first.inter second).contains kind = (first.contains kind && second.contains kind) := by
  cases kind <;> rfl

@[simp] theorem contains_ofKind {own kind : Kind} : (ofKind own).contains kind = true ↔ own = kind := by
  cases own <;> cases kind <;> decide

@[simp] theorem contains_ofWidth {width : Width} {kind : Kind} :
    (ofWidth width).contains kind = true ↔ kind.width = width := by
  cases width <;> cases kind <;> decide

theorem mem_kinds {set : KindSet} {kind : Kind} : kind ∈ set.kinds ↔ set.contains kind = true := by
  rw [kinds, List.mem_filter]
  exact and_iff_right kind.mem_all

theorem contains_of_preferred {set : KindSet} {kind : Kind} (found : set.preferred = some kind) :
    set.contains kind = true :=
  mem_kinds.mp (List.mem_of_head? found)

/-- A set of kinds that is not empty has a preferred one. -/
theorem exists_preferred {set : KindSet} (nonempty : set ≠ empty) :
    ∃ kind, set.preferred = some kind := by
  cases found : set.preferred with
  | some kind => exact ⟨kind, rfl⟩
  | none =>
      refine absurd (ext_contains fun kind => ?_) nonempty
      have nothing : set.kinds = [] := List.head?_eq_none_iff.mp found
      rw [contains_empty, Bool.eq_false_iff]
      intro contains
      have member := mem_kinds.mpr contains
      rw [nothing] at member
      cases member

theorem eq_ofKind_of_single {set : KindSet} {kind : Kind} (found : set.single = some kind) :
    set = ofKind kind := by
  unfold single at found
  split at found
  · rename_i only isOnly
    obtain rfl := Option.some.inj found
    refine ext_contains fun other => Bool.eq_iff_iff.mpr ?_
    rw [← mem_kinds, isOnly, List.mem_singleton, contains_ofKind, eq_comm]
  · cases found

@[simp] theorem single_ofKind (kind : Kind) : (ofKind kind).single = some kind := by
  cases kind <;> rfl

@[simp] theorem preferred_ofKind (kind : Kind) : (ofKind kind).preferred = some kind := by
  cases kind <;> rfl

@[simp] theorem isWidthOnly_ofKind (kind : Kind) : (ofKind kind).isWidthOnly = false := by
  cases kind <;> rfl

/-- The preferred kind of a set comes before the others. -/
theorem idxOf_le_of_preferred {set : KindSet} {kind other : Kind} (found : set.preferred = some kind)
    (contains : set.contains other = true) : Kind.all.idxOf kind ≤ Kind.all.idxOf other := by
  rw [preferred, kinds, List.head?_filter, List.find?_eq_some_iff_append] at found
  obtain ⟨-, before, after, same, refused⟩ := found
  have outside : ∀ own, set.contains own = true → own ∉ before := fun own isOwn member => by
    simpa [isOwn] using refused own member
  rw [same, List.idxOf_append_of_notMem (outside other contains)]
  apply Nat.le_trans _ (Nat.le_add_right _ _)
  by_cases inside : kind ∈ before
  · rw [List.idxOf_append_of_mem inside]
    exact Nat.le_of_lt (List.idxOf_lt_length_of_mem inside)
  · rw [List.idxOf_append_of_notMem inside, List.idxOf_cons_self]
    exact Nat.le_refl _

/-- A set with a preferred kind and not just one has another one. -/
theorem exists_other {set : KindSet} {kind : Kind} (contains : set.contains kind = true)
    (several : set.single = none) : ∃ other, set.contains other = true ∧ other ≠ kind := by
  by_contra nothing
  have only : set = ofKind kind := by
    refine ext_contains fun other => Bool.eq_iff_iff.mpr ?_
    rw [contains_ofKind]
    constructor
    · intro isOther
      by_contra differs
      exact nothing ⟨other, isOther, Ne.symm differs⟩
    · rintro rfl
      exact contains
  rw [only, single_ofKind] at several
  cases several

theorem isWidthOnly_iff {set : KindSet} : set.isWidthOnly = true ↔ set = ofWidth set.width := by
  constructor
  · intro only
    rw [isWidthOnly, Bool.or_eq_true, beq_iff_eq, beq_iff_eq] at only
    rcases only with rfl | rfl <;> rfl
  · intro same
    rw [same]
    cases set.width <;> rfl

end KindSet

end Dalvik
