import Dalvik.Proofs.Binary.Tiling
import Dalvik.Proofs.Flow.Reachability
import Dalvik.Proofs.Listing.Layout

/-!
# Where instructions are placed

Code that is decoded, and code that is read from a listing, has its instructions one
after the other: each ends before the next one starts.
-/

namespace Dalvik

/-- Instructions that follow one another are code as they are. -/
theorem Code.apart_ofInstructions {instructions : List Instruction}
    (ordered : instructions.Pairwise fun earlier later => earlier.nextAddr ≤ later.addr)
    (method : Nat) (flags : AccessFlags) (registers : Nat) (tries : List TryItem) :
    (Code.ofInstructions method flags registers instructions tries).Apart := by
  have sorted : instructions.Pairwise fun first second => decide (first.addr ≤ second.addr) := by
    refine ordered.imp fun {earlier later} before => decide_eq_true ?_
    exact Nat.le_trans (Nat.le_of_lt earlier.addr_lt_nextAddr) before
  rw [Code.Apart, Code.ofInstructions, List.mergeSort_of_pairwise sorted]
  exact ordered

/-! ## Decoded code -/

namespace Binary

/-- Decoded instructions end before the next one starts. -/
theorem decode_apart {bytes : List UInt8} {instructions : List Instruction}
    (success : decode bytes = .ok instructions) (method : Nat) (flags : AccessFlags)
    (registers : Nat) (tries : List TryItem) :
    (Code.ofInstructions method flags registers instructions tries).Apart := by
  obtain ⟨items, -, tiles, rfl⟩ := decode_tiles success
  refine Code.apart_ofInstructions ?_ method flags registers tries
  refine tiles.apart.filterMap Item.instruction? fun earlier later before => ?_
  intro first isFirst second isSecond
  rwa [instruction?_eq_some_iff.mp isFirst, instruction?_eq_some_iff.mp isSecond] at before

end Binary

/-! ## Listings -/

namespace Listing

/-- The code of a listing has its instructions one after the other and a frame of at most
as many registers as there are. -/
theorem read_apart {text : String} {listing : Listing} (success : read text = .ok listing) :
    ∀ code ∈ listing.methods, code.Apart ∧ code.registers < 65536 := by
  intro code isCode
  obtain ⟨bodies, spelled, codes⟩ := read_assembles success
  obtain ⟨entries, -, laidOut⟩ := exists_of_forall₂ (laidOut_of_spells success spelled).flip isCode
  obtain ⟨_, -, draft, pool, later, holds, assembled⟩ := exists_of_forall₂ codes.flip isCode
  obtain ⟨frame, instructions, ⟨isFrame, registers⟩, -⟩ := Draft.assembled_of_assemble assembled
  refine ⟨apart_of_resolved laidOut.instructions, ?_⟩
  rw [registers]
  exact holds.frame_lt isFrame

end Listing

end Dalvik
