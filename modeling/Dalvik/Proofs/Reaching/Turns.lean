import Dalvik.Proofs.Reaching.Run

/-!
# The order in which blocks are taken

At first blocks are taken in the order of the schedule; those that are queued again
come after all of it.
-/

namespace Dalvik

namespace Solving

variable {graph : FlowGraph} {frame : RegisterFrame} {solving : Solving}

/-- Whether the blocks of the schedule that were not taken yet come first in the
queue, with known ones after them. -/
def InTurn (graph : FlowGraph) (solving : Solving) : Prop :=
  ∃ done rest extra, graph.schedule = done ++ rest ∧ solving.queue = rest ++ extra ∧
    (∀ block ∈ done, (solving.statesOf block).isSome = true) ∧
    ∀ block ∈ extra, (solving.statesOf block).isSome = true

theorem inTurn_start (graph : FlowGraph) : InTurn graph (start graph) :=
  ⟨[], graph.schedule, [], rfl, (List.append_nil _).symm, by simp, by simp⟩

namespace InTurn

/-- A block that is taken for the first time comes after all that are before it in
the schedule. -/
theorem first (inTurn : InTurn graph solving) (closed : graph.Closed) {block : Nat}
    {queue : List Nat} (first : solving.queue = block :: queue) :
    (solving.statesOf block).isSome = true ∨
      ∀ source earlier later, graph.schedule = earlier ++ later → source ∈ earlier → block ∈ later →
        (solving.statesOf source).isSome = true := by
  obtain ⟨done, rest, extra, schedule, queued, doneKnown, extraKnown⟩ := inTurn
  cases rest with
  | nil =>
      refine .inl (extraKnown block ?_)
      rw [← List.nil_append extra, ← queued, first]
      exact List.mem_cons_self
  | cons next rest =>
      obtain ⟨rfl, -⟩ := List.cons.inj (first.symm.trans queued)
      refine .inr fun source earlier later split inEarlier inLater => doneKnown source ?_
      have disjoint : block ∉ earlier := fun again =>
        (List.nodup_append'.mp (split ▸ FlowGraph.nodup_schedule closed)).2.2 again inLater
      rcases List.append_eq_append_iff.mp (split.symm.trans schedule) with
        ⟨more, rfl, -⟩ | ⟨more, rfl, same⟩
      · exact List.mem_append_left _ inEarlier
      · cases more with
        | nil => simpa using inEarlier
        | cons head more =>
            obtain ⟨rfl, -⟩ := List.cons.inj same
            exact absurd (List.mem_append_right _ List.mem_cons_self) disjoint

theorem step (inTurn : InTurn graph solving) {block : Nat} {queue : List Nat}
    (first : solving.queue = block :: queue) {after : Solving}
    (takes : Takes graph frame solving block queue after) : InTurn graph after := by
  obtain ⟨done, rest, extra, schedule, queued, doneKnown, extraKnown⟩ := inTurn
  obtain ⟨more, appended, moreKnown⟩ := takes.appends
  rw [first] at queued
  cases rest with
  | nil =>
      rw [List.nil_append] at queued
      refine ⟨done, [], queue ++ more, schedule, appended,
        fun other listed => takes.stays (doneKnown other listed), fun other listed => ?_⟩
      rcases List.mem_append.mp listed with old | new
      · exact takes.stays (extraKnown other (queued ▸ List.mem_cons_of_mem _ old))
      · exact takes.stays (moreKnown other new)
  | cons next rest =>
      obtain ⟨rfl, rfl⟩ := List.cons.inj queued
      refine ⟨done ++ [block], rest, extra ++ more, by rw [schedule, List.append_assoc]; rfl,
        appended.trans (List.append_assoc _ _ _), fun other listed => ?_, fun other listed => ?_⟩
      · rcases List.mem_append.mp listed with old | new
        · exact takes.stays (doneKnown other old)
        · rw [List.mem_singleton.mp new, takes.own]
          rfl
      · rcases List.mem_append.mp listed with old | new
        · exact takes.stays (extraKnown other old)
        · exact takes.stays (moreKnown other new)

end InTurn

end Solving

end Dalvik
