import Dalvik.Proofs.Typing.Solution

/-!
# The least members of classes

Each class is labelled with its least member, and classes are numbered in the order of these.  So
labels and numbers are known from what is in one class, however that came about.
-/

namespace Dalvik

namespace Partition

variable {partition : Partition}

/-- Joins do not raise a label. -/
theorem label_union_le {number : Nat} (first second : Nat)
    (inside : number < partition.labels.length) :
    (partition.union first second).label number ≤ partition.label number := by
  rw [label_union first second inside]
  split
  · rename_i isMax
    rw [isMax]
    exact Nat.le_trans (Nat.min_le_left _ _) (Nat.le_max_left _ _)
  · exact Nat.le_refl _

theorem label_unionAll_le {pairs : List (Nat × Nat)} {number : Nat}
    (inside : number < partition.labels.length) :
    (partition.unionAll pairs).label number ≤ partition.label number := by
  induction pairs generalizing partition with
  | nil => exact Nat.le_refl _
  | cons pair rest ih =>
      exact Nat.le_trans (ih (by rwa [length_union])) (label_union_le pair.1 pair.2 inside)

/-- The numbers of some labels come in order. -/
theorem pairwise_numbers (labels : List Nat) (test : Nat × Nat → Bool) :
    ((labels.zipIdx.filter test).map Prod.snd).Pairwise (· < ·) := by
  have numbers : (labels.zipIdx.map Prod.snd).Pairwise (· < ·) := by
    rw [List.zipIdx_map_snd]
    exact List.pairwise_lt_range'
  exact numbers.sublist (List.filter_sublist.map Prod.snd)

theorem pairwise_leaders (partition : Partition) : partition.leaders.Pairwise (· < ·) :=
  pairwise_numbers _ _

theorem pairwise_members (partition : Partition) (leader : Nat) :
    (partition.members leader).Pairwise (· < ·) :=
  pairwise_numbers _ _

/-- The first member of a class is its leader, if no label is above its number. -/
theorem head_members (below : ∀ number < partition.labels.length, partition.label number ≤ number)
    {leader : Nat} (leads : leader ∈ partition.leaders) :
    (partition.members leader).headD 0 = leader := by
  have own := leader_mem_members leads
  cases isList : partition.members leader with
  | nil =>
      rw [isList] at own
      cases own
  | cons first rest =>
      rw [List.headD_cons]
      have isFirst : first ∈ partition.members leader := isList ▸ List.mem_cons_self
      obtain ⟨inside, label⟩ := mem_members.mp isFirst
      apply Nat.le_antisymm
      · have ordered := partition.pairwise_members leader
        rw [isList] at own ordered
        rcases List.mem_cons.mp own with rfl | later
        · exact Nat.le_refl _
        · exact Nat.le_of_lt (List.rel_of_pairwise_cons ordered later)
      · exact label ▸ below first inside

end Partition

namespace Solution

variable {values : List ProvisionalValue} {recorded other : List Recorded}

theorem label_le {value : Nat} (present : value < values.length) :
    (partition values recorded).label value ≤ value := by
  have below := @Partition.label_unionAll_le (.discrete values.length) (sameKinds recorded) value
    (by rwa [Partition.length_discrete])
  rwa [Partition.label_discrete] at below

namespace Inside

variable (inside : Inside values recorded)
include inside

/-- What is in one class with a value there is, is there too. -/
theorem present_of_joined {first second : Nat} (joined : Joined recorded first second) :
    first < values.length ↔ second < values.length := by
  induction joined with
  | rel first second member =>
      obtain ⟨entry, listed, same⟩ := member
      obtain ⟨isFirst, isSecond⟩ := inside entry listed first second same
      exact iff_of_true isFirst isSecond
  | refl => rfl
  | symm _ _ _ ih => exact ih.symm
  | trans _ _ _ _ _ one two => exact one.trans two

/-- The label of a value is a member of its class. -/
theorem joined_label {value : Nat} (present : value < values.length) :
    (partition values recorded).label value < values.length ∧
      Joined recorded ((partition values recorded).label value) value := by
  have within : value < (partition values recorded).labels.length := by rwa [length_partition]
  have below := inside.canonical.inside value within
  rw [length_partition] at below
  exact ⟨below, (inside.label_eq_iff below present).mp (inside.canonical.fixed value within)⟩

/-- A class has the label that is its least member. -/
theorem label_le_of_joined {first second : Nat} (present : second < values.length)
    (joined : Joined recorded first second) : (partition values recorded).label first ≤ second := by
  have isFirst := (inside.present_of_joined joined).mpr present
  rw [(inside.label_eq_iff isFirst present).mpr joined]
  exact label_le present

end Inside

/-- Classes that have the same members have the same labels. -/
theorem partition_congr (inside : Inside values recorded) (insideOther : Inside values other)
    (same : ∀ first < values.length, ∀ second < values.length,
      Joined recorded first second ↔ Joined other first second) :
    partition values recorded = partition values other := by
  have labels : ∀ value < values.length,
      (partition values recorded).label value = (partition values other).label value := by
    intro value present
    obtain ⟨ownPresent, own⟩ := inside.joined_label present
    obtain ⟨otherPresent, others⟩ := insideOther.joined_label present
    apply Nat.le_antisymm
    · exact inside.label_le_of_joined otherPresent
        (.symm _ _ ((same _ otherPresent _ present).mpr others))
    · exact insideOther.label_le_of_joined ownPresent
        (.symm _ _ ((same _ ownPresent _ present).mp own))
  suffices (partition values recorded).labels = (partition values other).labels from
    congrArg Partition.mk this
  apply List.ext_getElem
  · rw [length_partition, length_partition]
  · intro value isOwn isOther
    have present : value < values.length := by rwa [length_partition] at isOwn
    have label := labels value present
    rwa [Partition.label_eq_getElem isOwn, Partition.label_eq_getElem isOther] at label

end Solution

end Dalvik
