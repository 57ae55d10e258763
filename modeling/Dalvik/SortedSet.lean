/-!
# Sorted sets

Finite sets of things that have a distinct number each, kept as their list by
increasing number.  Two sets with the same members are equal.
-/

namespace Dalvik

/-- Things that are told apart and ordered by a number. -/
class Keyed (α : Type) where
  key : α → Nat
  key_injective : ∀ {a b : α}, key a = key b → a = b

instance : Keyed Nat := ⟨id, id⟩

/-- A set, as its members by increasing key. -/
structure SortedSet (α : Type) [Keyed α] where
  elements : List α
  ascending : elements.Pairwise fun a b => Keyed.key a < Keyed.key b

namespace SortedSet

variable {α : Type} [Keyed α]

@[ext] theorem ext_elements {s t : SortedSet α} (h : s.elements = t.elements) : s = t := by
  cases s
  cases t
  cases h
  rfl

instance [DecidableEq α] : DecidableEq (SortedSet α) := fun s t =>
  if h : s.elements = t.elements then isTrue (ext_elements h)
  else isFalse fun equal => h (congrArg elements equal)

instance : Membership α (SortedSet α) := ⟨fun set member => member ∈ set.elements⟩

/-- A set is given by its members. -/
theorem eq_of_mem_iff {s t : SortedSet α} (same : ∀ member, member ∈ s ↔ member ∈ t) : s = t := by
  have nodup : ∀ set : SortedSet α, set.elements.Nodup := by
    intro set
    refine set.ascending.imp ?_
    rintro first _ before rfl
    exact Nat.lt_irrefl _ before
  refine ext_elements (List.Perm.eq_of_pairwise ?_ s.ascending t.ascending
    ((List.perm_ext_iff_of_nodup (nodup s) (nodup t)).mpr same))
  exact fun _ _ _ _ before after => absurd before (Nat.lt_asymm after)

/-- Put an element into an ascending list; one of its key stays. -/
def place (element : α) : List α → List α
  | [] => [element]
  | head :: tail =>
      if Keyed.key element < Keyed.key head then element :: head :: tail
      else if Keyed.key head < Keyed.key element then head :: place element tail
      else head :: tail

theorem mem_place {element other : α} {list : List α} :
    other ∈ place element list ↔ other = element ∨ other ∈ list := by
  induction list with
  | nil => simp [place]
  | cons head tail ih =>
      unfold place
      split
      · simp
      · split
        · simp only [List.mem_cons, ih]
          grind
        · have same : element = head := Keyed.key_injective (by omega)
          subst same
          simp

theorem ascending_place {element : α} {list : List α}
    (ascending : list.Pairwise fun a b => Keyed.key a < Keyed.key b) :
    (place element list).Pairwise fun a b => Keyed.key a < Keyed.key b := by
  induction list with
  | nil => simp [place]
  | cons head tail ih =>
      have parts := List.pairwise_cons.1 ascending
      unfold place
      split
      · rename_i before
        refine List.pairwise_cons.2 ⟨fun other member => ?_, ascending⟩
        rcases List.mem_cons.1 member with rfl | member
        · exact before
        · exact Nat.lt_trans before (parts.1 other member)
      · split
        · rename_i after
          refine List.pairwise_cons.2 ⟨fun other member => ?_, ih parts.2⟩
          rcases mem_place.1 member with rfl | member
          · exact after
          · exact parts.1 other member
        · exact ascending

def merge : List α → List α → List α
  | [], second => second
  | head :: tail, [] => head :: tail
  | head :: tail, other :: rest =>
      if Keyed.key head < Keyed.key other then head :: merge tail (other :: rest)
      else if Keyed.key other < Keyed.key head then other :: merge (head :: tail) rest
      else head :: merge tail rest
termination_by first second => first.length + second.length

theorem mem_merge {element : α} {first second : List α} :
    element ∈ merge first second ↔ element ∈ first ∨ element ∈ second := by
  fun_induction merge first second with
  | case1 second => simp
  | case2 head tail => simp
  | case3 head tail other rest before ih =>
      simp only [List.mem_cons, ih]
      grind
  | case4 head tail other rest notBefore after ih =>
      simp only [List.mem_cons, ih]
      grind
  | case5 head tail other rest notBefore notAfter ih =>
      have same : head = other := Keyed.key_injective (by omega)
      subst same
      simp only [List.mem_cons, ih]
      grind

theorem ascending_merge {first second : List α}
    (ascendingFirst : first.Pairwise fun a b => Keyed.key a < Keyed.key b)
    (ascendingSecond : second.Pairwise fun a b => Keyed.key a < Keyed.key b) :
    (merge first second).Pairwise fun a b => Keyed.key a < Keyed.key b := by
  fun_induction merge first second with
  | case1 second => exact ascendingSecond
  | case2 head tail => exact ascendingFirst
  | case3 head tail other rest before ih =>
      have first := List.pairwise_cons.1 ascendingFirst
      have second := List.pairwise_cons.1 ascendingSecond
      refine List.pairwise_cons.2 ⟨fun member isMember => ?_, ih first.2 ascendingSecond⟩
      rcases mem_merge.1 isMember with inFirst | inSecond
      · exact first.1 member inFirst
      · rcases List.mem_cons.1 inSecond with rfl | inRest
        · exact before
        · exact Nat.lt_trans before (second.1 member inRest)
  | case4 head tail other rest notBefore after ih =>
      have first := List.pairwise_cons.1 ascendingFirst
      have second := List.pairwise_cons.1 ascendingSecond
      refine List.pairwise_cons.2 ⟨fun member isMember => ?_, ih ascendingFirst second.2⟩
      rcases mem_merge.1 isMember with inFirst | inSecond
      · rcases List.mem_cons.1 inFirst with rfl | inTail
        · exact after
        · exact Nat.lt_trans after (first.1 member inTail)
      · exact second.1 member inSecond
  | case5 head tail other rest notBefore notAfter ih =>
      have same : head = other := Keyed.key_injective (by omega)
      subst same
      have first := List.pairwise_cons.1 ascendingFirst
      have second := List.pairwise_cons.1 ascendingSecond
      refine List.pairwise_cons.2 ⟨fun member isMember => ?_, ih first.2 second.2⟩
      rcases mem_merge.1 isMember with inFirst | inSecond
      · exact first.1 member inFirst
      · exact second.1 member inSecond

def empty : SortedSet α := ⟨[], List.Pairwise.nil⟩

def singleton (element : α) : SortedSet α := ⟨[element], List.pairwise_singleton _ _⟩

def insert (set : SortedSet α) (element : α) : SortedSet α :=
  ⟨place element set.elements, ascending_place set.ascending⟩

def isEmpty (set : SortedSet α) : Bool :=
  set.elements.isEmpty

def contains [DecidableEq α] (set : SortedSet α) (element : α) : Bool :=
  set.elements.contains element

def filter (set : SortedSet α) (test : α → Bool) : SortedSet α :=
  ⟨set.elements.filter test, set.ascending.filter test⟩

def ofList (list : List α) : SortedSet α :=
  list.foldl insert empty

def union (first second : SortedSet α) : SortedSet α :=
  ⟨merge first.elements second.elements, ascending_merge first.ascending second.ascending⟩

@[simp] theorem mem_insert {set : SortedSet α} {element other : α} :
    other ∈ set.insert element ↔ other = element ∨ other ∈ set :=
  mem_place

@[simp] theorem mem_union {first second : SortedSet α} {element : α} :
    element ∈ first.union second ↔ element ∈ first ∨ element ∈ second :=
  mem_merge

@[simp] theorem mem_filter {set : SortedSet α} {test : α → Bool} {element : α} :
    element ∈ set.filter test ↔ element ∈ set ∧ test element = true :=
  List.mem_filter

@[simp] theorem mem_foldl_insert {set : SortedSet α} {list : List α} {element : α} :
    element ∈ list.foldl insert set ↔ element ∈ set ∨ element ∈ list := by
  induction list generalizing set with
  | nil => simp
  | cons head tail ih =>
      rw [List.foldl_cons, ih, mem_insert, List.mem_cons, or_assoc, or_left_comm]

@[simp] theorem mem_ofList {list : List α} {element : α} :
    element ∈ ofList list ↔ element ∈ list := by
  refine mem_foldl_insert.trans ?_
  exact or_iff_right (List.not_mem_nil)

theorem contains_iff_mem [DecidableEq α] {set : SortedSet α} {element : α} :
    set.contains element = true ↔ element ∈ set :=
  List.contains_iff_mem

end SortedSet

end Dalvik
