import Dalvik.Typing.Partition
import Mathlib.Data.List.GetD
import Mathlib.Logic.Relation

/-!
# The classes of a partition

Joining the classes of pairs puts exactly those numbers into one class that the
pairs connect.
-/

namespace Dalvik.Partition

@[simp] theorem label_discrete (size number : Nat) : (discrete size).label number = number := by
  unfold label discrete
  by_cases inside : number < size
  · rw [List.getD_eq_getElem _ _ (by rwa [List.length_range]), List.getElem_range]
  · rw [List.getD_eq_default _ _ (by rw [List.length_range]; exact Nat.not_lt.mp inside)]

theorem label_eq_getElem {partition : Partition} {number : Nat}
    (inside : number < partition.labels.length) :
    partition.label number = partition.labels[number] :=
  List.getD_eq_getElem _ _ inside

@[simp] theorem length_discrete (size : Nat) : (discrete size).labels.length = size :=
  List.length_range

theorem union_eq (partition : Partition) (first second : Nat) :
    partition.union first second =
      if partition.label first = partition.label second then partition
      else ⟨partition.labels.map fun label =>
        if label = max (partition.label first) (partition.label second) then
          min (partition.label first) (partition.label second)
        else label⟩ :=
  rfl

@[simp] theorem length_union (partition : Partition) (first second : Nat) :
    (partition.union first second).labels.length = partition.labels.length := by
  rw [union_eq]
  split <;> simp

/-- Two classes become one, with the lesser label. -/
theorem label_union {partition : Partition} {number : Nat} (first second : Nat)
    (inside : number < partition.labels.length) :
    (partition.union first second).label number =
      if partition.label number = max (partition.label first) (partition.label second) then
        min (partition.label first) (partition.label second)
      else partition.label number := by
  rw [union_eq]
  by_cases same : partition.label first = partition.label second
  · rw [if_pos same, ← same, Nat.max_self, Nat.min_self]
    split
    · rename_i equal
      exact equal
    · rfl
  · rw [if_neg same, label_eq_getElem (by simpa using inside), List.getElem_map,
      label_eq_getElem inside]

/-- Numbers are in one class after a join if they were, or if they were in the two
classes that are joined. -/
theorem label_union_eq_iff {partition : Partition} {a b : Nat} (first second : Nat)
    (aInside : a < partition.labels.length) (bInside : b < partition.labels.length) :
    (partition.union first second).label a = (partition.union first second).label b ↔
      partition.label a = partition.label b ∨
      (partition.label a = partition.label first ∧ partition.label b = partition.label second) ∨
      (partition.label a = partition.label second ∧ partition.label b = partition.label first) := by
  rw [label_union first second aInside, label_union first second bInside]
  rcases Nat.le_total (partition.label first) (partition.label second) with below | above
  · rw [Nat.max_eq_right below, Nat.min_eq_left below]
    split <;> split <;> grind
  · rw [Nat.max_eq_left above, Nat.min_eq_right above]
    split <;> split <;> grind

@[simp] theorem length_unionAll (partition : Partition) (pairs : List (Nat × Nat)) :
    (partition.unionAll pairs).labels.length = partition.labels.length := by
  unfold unionAll
  induction pairs generalizing partition with
  | nil => rfl
  | cons pair rest ih => exact (ih _).trans (length_union _ _ _)

variable {partition : Partition} {pairs : List (Nat × Nat)}

/-- Joins keep what is in one class together. -/
theorem label_unionAll_of_eq {a b : Nat} (aInside : a < partition.labels.length)
    (bInside : b < partition.labels.length) (same : partition.label a = partition.label b) :
    (partition.unionAll pairs).label a = (partition.unionAll pairs).label b := by
  unfold unionAll
  induction pairs generalizing partition with
  | nil => exact same
  | cons pair rest ih =>
      apply ih (by simpa using aInside) (by simpa using bInside)
      exact (label_union_eq_iff pair.1 pair.2 aInside bInside).mpr (.inl same)

/-- Each pair ends up in one class. -/
theorem label_unionAll_of_mem {pair : Nat × Nat} (member : pair ∈ pairs)
    (firstInside : pair.1 < partition.labels.length)
    (secondInside : pair.2 < partition.labels.length) :
    (partition.unionAll pairs).label pair.1 = (partition.unionAll pairs).label pair.2 := by
  induction pairs generalizing partition with
  | nil => cases member
  | cons head rest ih =>
      rcases List.mem_cons.mp member with rfl | inRest
      · change ((partition.union pair.1 pair.2).unionAll rest).label pair.1 =
          ((partition.union pair.1 pair.2).unionAll rest).label pair.2
        apply label_unionAll_of_eq (by simpa using firstInside) (by simpa using secondInside)
        exact (label_union_eq_iff pair.1 pair.2 firstInside secondInside).mpr (.inr (.inl ⟨rfl, rfl⟩))
      · exact ih inRest (by simpa using firstInside) (by simpa using secondInside)

/-- What is in one class after joins is connected, if it was before and all pairs are. -/
theorem connected_of_label_unionAll {connected : Nat → Nat → Prop} (equivalence : Equivalence connected)
    (joins : ∀ pair ∈ pairs, connected pair.1 pair.2 ∧ pair.1 < partition.labels.length ∧
      pair.2 < partition.labels.length)
    (before : ∀ a b, a < partition.labels.length → b < partition.labels.length →
      partition.label a = partition.label b → connected a b)
    {a b : Nat} (aInside : a < partition.labels.length) (bInside : b < partition.labels.length)
    (same : (partition.unionAll pairs).label a = (partition.unionAll pairs).label b) :
    connected a b := by
  induction pairs generalizing partition with
  | nil => exact before a b aInside bInside same
  | cons pair rest ih =>
      obtain ⟨⟨own, firstInside, secondInside⟩, others⟩ := List.forall_mem_cons.mp joins
      refine @ih (partition.union pair.1 pair.2) (by simpa using others) ?_ (by simpa using aInside)
        (by simpa using bInside) same
      intro x y xInside yInside equal
      rw [length_union] at xInside yInside
      rcases (label_union_eq_iff pair.1 pair.2 xInside yInside).mp equal with
        equal | ⟨inFirst, inSecond⟩ | ⟨inSecond, inFirst⟩
      · exact before x y xInside yInside equal
      · exact equivalence.trans (before x pair.1 xInside firstInside inFirst)
          (equivalence.trans own (before pair.2 y secondInside yInside inSecond.symm))
      · exact equivalence.trans (before x pair.2 xInside secondInside inSecond)
          (equivalence.trans (equivalence.symm own) (before pair.1 y firstInside yInside inFirst.symm))

/-- Numbers are in one class exactly if the pairs connect them. -/
theorem label_discrete_unionAll_iff {size a b : Nat}
    (inside : ∀ pair ∈ pairs, pair.1 < size ∧ pair.2 < size) (aInside : a < size) (bInside : b < size) :
    ((discrete size).unionAll pairs).label a = ((discrete size).unionAll pairs).label b ↔
      Relation.EqvGen (fun x y => (x, y) ∈ pairs) a b := by
  constructor
  · refine connected_of_label_unionAll (Relation.EqvGen.is_equivalence _) ?_ ?_
      (by rwa [length_discrete]) (by rwa [length_discrete])
    · intro pair member
      rw [length_discrete]
      exact ⟨.rel _ _ member, inside pair member⟩
    · intro x y _ _ same
      rw [label_discrete, label_discrete] at same
      exact same ▸ .refl x
  · intro connected
    clear aInside bInside
    induction connected with
    | rel x y member =>
        obtain ⟨xInside, yInside⟩ := inside _ member
        exact label_unionAll_of_mem member (by rwa [length_discrete]) (by rwa [length_discrete])
    | refl => rfl
    | symm x y _ ih => exact ih.symm
    | trans x y z _ _ first second => exact first.trans second

end Dalvik.Partition
