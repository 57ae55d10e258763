/-!
# Partitions

A partition of the numbers below a size.  Each number is labelled with the
least member of its class.
-/

namespace Dalvik

structure Partition where
  labels : List Nat
  deriving DecidableEq, Repr

namespace Partition

def discrete (size : Nat) : Partition :=
  ⟨List.range size⟩

/-- The least member of the class of a number. -/
def label (partition : Partition) (number : Nat) : Nat :=
  partition.labels.getD number number

def union (partition : Partition) (first second : Nat) : Partition :=
  let a := partition.label first
  let b := partition.label second
  if a = b then partition
  else ⟨partition.labels.map fun label => if label = max a b then min a b else label⟩

def unionAll (partition : Partition) (pairs : List (Nat × Nat)) : Partition :=
  pairs.foldl (fun partition pair => partition.union pair.1 pair.2) partition

def leaders (partition : Partition) : List Nat :=
  (partition.labels.zipIdx.filter fun (label, number) => label = number).map Prod.snd

def members (partition : Partition) (leader : Nat) : List Nat :=
  (partition.labels.zipIdx.filter fun (label, _) => label = leader).map Prod.snd

end Partition

end Dalvik
