import Dalvik.Proofs.Listing.Assembly

/-!
# The pool while methods are assembled

Assembling only interns, so what a method refers to stays what it is while
later methods are read.
-/

namespace Dalvik.Listing.Draft

variable {draft : Draft} {frame : Frame} {line : Nat} {opcode : Opcode} {pool later : Pool}

theorem extends_gather {sofar gathered : Gathered} {token : Token}
    (gathers : draft.gather frame line opcode sofar token = .ok gathered) :
    sofar.pool.Extends gathered.pool := by
  rcases gather_interns gathers with ⟨same, -⟩ | ⟨item, reference, isItem, -⟩
  · exact same ▸ .refl _
  · have grown := sofar.pool.extends_intern item
    rwa [isItem] at grown

theorem extends_assembleInstruction {pending : DraftInstruction} {instruction : Instruction}
    (success : draft.assembleInstruction frame pool pending = .ok (later, instruction)) :
    pool.Extends later := by
  simp only [assembleInstruction, bind_eq_ok] at success
  obtain ⟨gathered, gathers, _, -, offset, -, success⟩ := success
  have grown : pool.Extends gathered.pool :=
    @foldlM_induction _ _ _ _ (fun sofar => pool.Extends sofar.pool) _ _ _
      (fun _ _ _ _ step grown => grown.trans (extends_gather step)) gathers (.refl pool)
  split at success
  all_goals
    simp only [bind_eq_ok, pure_eq_ok, Prod.mk.injEq] at success
    obtain ⟨payload, -, units, -, rfl, -⟩ := success
    exact grown

theorem extends_assembleInstructions {lines : List DraftInstruction}
    {instructions : List Instruction}
    (success : draft.assembleInstructions frame pool lines = .ok (later, instructions)) :
    pool.Extends later := by
  induction lines generalizing pool instructions with
  | nil =>
      obtain ⟨rfl, -⟩ := Prod.mk.inj (Except.ok.inj success)
      exact .refl pool
  | cons first rest ih =>
      simp only [assembleInstructions, bind_eq_ok, pure_eq_ok, Prod.exists, Prod.mk.injEq] at success
      obtain ⟨middle, instruction, one, last, others, more, rfl, -⟩ := success
      exact (extends_assembleInstruction one).trans (ih more)

theorem extends_assembleCatch {sofar after : Pool × List TryItem} {entry : DraftCatch}
    (success : draft.assembleCatch sofar entry = .ok after) : sofar.1.Extends after.1 := by
  simp only [assembleCatch, bind_eq_ok, pure_eq_ok] at success
  obtain ⟨start, -, stop, -, addr, -, rfl⟩ := success
  cases entry.exception with
  | none => exact .refl _
  | some type => exact sofar.1.extends_intern (.type type)

/-- Code names the method of its draft, in a pool that has only grown. -/
theorem method_of_assemble {code : Code} (success : draft.assemble pool = .ok (later, code)) :
    pool.Extends later ∧ (pool.Canonical → later.method code.method = .ok draft.method) := by
  simp only [assemble, bind_eq_ok, pure_eq_ok, Prod.exists, Prod.mk.injEq] at success
  obtain ⟨frame, -, first, instructions, assembled, second, tries, catches, rfl, rfl⟩ := success
  have grown : pool.Extends second :=
    @foldlM_induction _ _ _ _ (fun sofar => pool.Extends sofar.1) _ _ _
      (fun _ _ _ _ step grown => grown.trans (extends_assembleCatch step)) catches
      (extends_assembleInstructions assembled)
  refine ⟨grown.trans (second.extends_intern (.method draft.method)), fun canonical => ?_⟩
  exact Pool.item_eq_method.mp
    ((grown.canonical canonical).item_intern (.method draft.method))

end Dalvik.Listing.Draft
