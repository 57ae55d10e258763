import Dalvik.Proofs.Binary.RoundTrip
import Dalvik.Proofs.Listing.Assembly
import Dalvik.Proofs.Listing.Reading

/-!
# The shape of assembled instructions

An instruction that is assembled has the operands its opcode requires, and the
decoder reads the same operands from its code units.
-/

namespace Dalvik

/-- Only table instructions carry a table. -/
theorem Format.shape_payload (format : Format) : format.shape.payload = decide (format = .f31t) := by
  cases format <;> rfl

/-- References of the same kind and index are the same. -/
theorem PoolRef.option_ext {first second : Option PoolRef}
    (kind : first.map PoolRef.kind = second.map PoolRef.kind)
    (index : first.map PoolRef.index = second.map PoolRef.index) : first = second := by
  match first, second, kind, index with
  | none, none, _, _ => rfl
  | some ⟨kind, index⟩, some ⟨kind', index'⟩, sameKind, sameIndex =>
      obtain rfl := Option.some.inj sameKind
      obtain rfl := Option.some.inj sameIndex
      rfl

/-- Operands that are those an opcode requires pass the check for it. -/
theorem Instruction.checkShape_eq_ok {instruction : Instruction} {opcode : Opcode}
    (format : instruction.format = opcode.format)
    (counted : opcode.format.shape.registers.accepts instruction.regs.length = true)
    (literal : instruction.literal.isSome = opcode.format.shape.literal)
    (offset : instruction.offset.isSome = opcode.format.shape.offset)
    (reference : instruction.reference.isSome = opcode.format.shape.reference)
    (payload : instruction.payload.isSome = opcode.format.shape.payload)
    (table : payloadFault opcode instruction.payload = none)
    (kind : referenceFault opcode instruction.reference = none) :
    instruction.checkShape opcode = .ok () := by
  have clear : instruction.shapeFault? opcode = none := by
    unfold shapeFault?
    dsimp only
    rw [if_neg (not_not_intro format), counted, literal, offset, reference, payload, table, kind]
    simp [presenceFault]
  unfold checkShape
  rw [clear]

namespace Listing.Draft

/-- A data table that an instruction carries is one that is written, of the opcode's kind. -/
theorem payloadAt_eq_ok {draft : Draft} {line : Nat} {opcode : Opcode} {addr target : Addr}
    {payload : Payload} (found : draft.payloadAt line opcode addr target = .ok payload) :
    ∃ table, draft.payloads.lookup target = some table ∧
      draft.resolvePayload line addr table = .ok payload ∧
      (opcode.family == .switch) = payload.isSwitch := by
  unfold payloadAt at found
  split at found
  · cases found
  · rename_i table written
    simp only [bind_eq_ok] at found
    obtain ⟨resolved, resolves, found⟩ := found
    split at found
    · cases found
    · rename_i same
      obtain rfl := pure_eq_ok.mp found
      exact ⟨table, written, resolves, not_not.mp same⟩

namespace Assembled

variable {draft : Draft} {frame : Frame} {pending : DraftInstruction} {gathered : Gathered}
  {instruction : Instruction}

/-- An offset is there exactly if a label is. -/
theorem isSome_offset (assembled : Assembled draft frame pending gathered instruction) :
    instruction.offset.isSome = gathered.target.isSome := by
  have offsets := optionMapM_eq_ok.mp assembled.offset
  cases leads : gathered.target with
  | none =>
      rw [leads] at offsets
      rw [show instruction.offset = none from offsets]
      rfl
  | some target =>
      rw [leads] at offsets
      obtain ⟨offset, -, isOffset⟩ := offsets
      rw [isOffset]
      rfl

/-- A reference is to the section that the opcode names. -/
theorem kind (assembled : Assembled draft frame pending gathered instruction) :
    instruction.reference.map PoolRef.kind = pending.opcode.reference := by
  have together : gathered.reference.isSome = pending.opcode.reference.isSome := by
    rw [assembled.fits.reference, pending.opcode.isSome_reference]
  obtain ⟨pool, gathers⟩ := assembled.gathers
  have named := gather_induction (fun token _ _ _ => gather_reference) gathers (by simp)
  rw [assembled.reference]
  cases isReference : gathered.reference with
  | none =>
      rw [isReference] at together
      exact (Option.isSome_eq_false_iff.mp together.symm |> Option.isNone_iff_eq_none.mp).symm
  | some reference =>
      rw [isReference] at together
      obtain ⟨kind, isKind⟩ := Option.isSome_iff_exists.mp together.symm
      rcases named reference isReference with isString | same
      · have string := assembled.fits.string kind reference isKind isReference isString
        rw [Option.map_some, isString, isKind, string]
      · exact same.symm

/-- The optional operands are those of the format. -/
theorem suits (assembled : Assembled draft frame pending gathered instruction) :
    Operands.Suits
      { regs := gathered.regs
        literal := gathered.literal
        offset := instruction.offset
        index := gathered.reference.map PoolRef.index } pending.opcode.format.shape where
  literal := assembled.fits.literal
  offset := assembled.isSome_offset.trans assembled.fits.target
  index := Option.isSome_map.trans assembled.fits.reference

theorem opcode_eq (assembled : Assembled draft frame pending gathered instruction) :
    instruction.opcode = some pending.opcode := by
  rw [Instruction.opcode, assembled.opcodeByte, Opcode.ofValue?_value]

/-- The operands of an instruction are those its opcode requires. -/
theorem checkShape (assembled : Assembled draft frame pending gathered instruction) :
    instruction.checkShape pending.opcode = .ok () := by
  obtain ⟨counted, -⟩ := Binary.encode_eq_ok.mp assembled.encodes
  apply Instruction.checkShape_eq_ok
  case format => exact assembled.format
  case counted =>
    rw [assembled.regs]
    exact counted
  case literal =>
    rw [assembled.literal]
    exact assembled.suits.literal
  case offset => exact assembled.suits.offset
  case reference =>
    rw [assembled.reference]
    exact assembled.fits.reference
  case payload =>
    rw [Format.shape_payload]
    by_cases isTable : pending.opcode.format = .f31t
    · obtain ⟨target, payload, -, -, carries⟩ := assembled.payload (assembled.format.trans isTable)
      rw [carries, isTable]
      rfl
    · rw [assembled.noPayload fun same => isTable (assembled.format.symm.trans same),
        decide_eq_false isTable]
      rfl
  case table =>
    by_cases isTable : instruction.format = .f31t
    · obtain ⟨target, payload, -, found, carries⟩ := assembled.payload isTable
      obtain ⟨table, -, -, same⟩ := payloadAt_eq_ok found
      rw [carries, Instruction.payloadFault, if_pos same]
    · rw [assembled.noPayload isTable]
      rfl
  case kind =>
    have kind := assembled.kind
    unfold Instruction.referenceFault
    cases isReference : instruction.reference with
    | none => cases pending.opcode.reference <;> rfl
    | some reference =>
        rw [isReference, Option.map_some] at kind
        rw [← kind]
        exact if_pos rfl

/-- An instruction is decoded from its code units. -/
theorem decode_units (assembled : Assembled draft frame pending gathered instruction) :
    Binary.decode (Binary.bytesOfUnits instruction.units) =
      .ok [{ instruction with addr := 0, payload := none }] := by
  have held := Binary.decodeInstruction_held assembled.suits assembled.encodes 0
  have here : (Binary.decodeInstruction 0 pending.opcode instruction.units).addr = 0 := rfl
  rw [Binary.decode_single assembled.encodes]
  generalize Binary.decodeInstruction 0 pending.opcode instruction.units = decoded at held here ⊢
  have reference : decoded.reference = instruction.reference := by
    apply PoolRef.option_ext
    · rw [held.kind, assembled.kind]
    · rw [held.index, assembled.reference]
  have carries := held.payload
  have opcodeByte := held.opcodeByte.trans assembled.opcodeByte.symm
  have format := held.format.trans assembled.format.symm
  have regs := held.regs.trans assembled.regs.symm
  have literal := held.literal.trans assembled.literal.symm
  have offset := held.offset
  have units := held.units
  clear held assembled
  cases decoded
  cases instruction
  simp_all

end Assembled

end Listing.Draft

namespace Listing

/-- Every instruction of a listing has the shape its opcode requires, and is the one that the
decoder reads from its code units. -/
theorem wellShaped_of_read {text : String} {listing : Listing} (success : read text = .ok listing) :
    ∀ code ∈ listing.methods, ∀ instruction ∈ code.instructions,
      (∃ opcode, instruction.opcode = some opcode ∧ instruction.checkShape opcode = .ok ()) ∧
        Binary.decode (Binary.bytesOfUnits instruction.units) =
          .ok [{ instruction with addr := 0, payload := none }] := by
  intro code isCode instruction member
  obtain ⟨bodies, -, codes⟩ := read_assembles success
  obtain ⟨entries, -, draft, pool, later, -, assembled⟩ := exists_of_forall₂ codes.flip isCode
  obtain ⟨frame, instructions, -, sorted, each⟩ := Draft.assembled_of_assemble assembled
  rw [sorted, List.mem_mergeSort] at member
  obtain ⟨pending, -, gathered, assembled⟩ := exists_of_forall₂ each.flip member
  exact ⟨⟨pending.opcode, assembled.opcode_eq, assembled.checkShape⟩, assembled.decode_units⟩

/-- A switch with a label before and one after it, and a table whose keys wrap around. -/
def switchText : String :=
  ".class La/B;\n.method f(I)V\n.registers 7\n:top\npacked-switch p1, :table\n.annotation C\n" ++
  "nop\n.end annotation\n:end\nreturn-void\n:table\n.packed-switch 0x7fffffff\n:top\n:end\n" ++
  ".end packed-switch\n.end method\n"

theorem read_switchText :
    ∃ listing, read switchText = .ok listing ∧ listing.methods.length = 1 :=
  exists_ok_of_decide (by decide +kernel)

def switchBody : List Entry :=
  [.label "top", .instruction .packedSwitch [.reg ⟨true, 1⟩, .label "table"], .label "end",
    .instruction .returnVoid [], .label "table", .table (.packed 0x7fffffff ["top", "end"])]

theorem spells_switchText : Spells (writtenLines switchText) [switchBody] := by
  have written : writtenLines switchText =
      [".class La/B;", ".method f(I)V", ".registers 7", ":top", "packed-switch p1, :table",
        ".annotation C", "nop", ".end annotation", ":end", "return-void", ":table",
        ".packed-switch 0x7fffffff", ":top", ":end", ".end packed-switch", ".end method"].map
        String.toList := by
    decide +kernel
  have table : TableLines ".packed-switch 0x7fffffff".toList ([":top", ":end"].map String.toList)
      (.packed 0x7fffffff ["top", "end"]) :=
    .packed (by decide +kernel) (by decide +kernel)
      (.cons (by decide +kernel) (.cons (by decide +kernel) .nil))
  have body : Body ([".registers 7", ":top", "packed-switch p1, :table", ".annotation C", "nop",
      ".end annotation", ":end", "return-void", ":table", ".packed-switch 0x7fffffff", ":top", ":end",
      ".end packed-switch"].map String.toList) switchBody := by
    refine .piece (.passive (by decide +kernel)) ?_
    refine .piece (.label (by decide +kernel)) ?_
    refine .piece (@Piece.instruction _ "packed-switch".toList _ _ (by decide +kernel)
      (by decide +kernel) (by decide +kernel)) ?_
    refine .piece (@Piece.metadata _ ["nop".toList] (by decide +kernel) (by decide +kernel)) ?_
    refine .piece (.label (by decide +kernel)) ?_
    refine .piece (@Piece.instruction _ "return-void".toList _ _ (by decide +kernel)
      (by decide +kernel) (by decide +kernel)) ?_
    refine .piece (.label (by decide +kernel)) ?_
    exact .single (@Piece.table _ ([":top", ":end"].map String.toList) _ table (by decide +kernel))
  rw [written]
  exact .between (.passive (by decide +kernel))
    (.method (by decide +kernel) body (by decide +kernel) .nothing)

theorem wellShaped_switchText :
    ∃ listing, read switchText = .ok listing ∧
      ∃ code ∈ listing.methods, ∃ instruction ∈ code.instructions,
        instruction.opcode = some .packedSwitch ∧ instruction.checkShape .packedSwitch = .ok () ∧
          Binary.decode (Binary.bytesOfUnits instruction.units) =
            .ok [{ instruction with addr := 0, payload := none }] := by
  obtain ⟨listing, success, -⟩ := read_switchText
  obtain ⟨bodies, spelled, codes⟩ := read_assembles success
  obtain rfl := spelled.unique spells_switchText
  obtain ⟨code, isCode, draft, pool, later, holds, assembled⟩ := exists_of_forall₂ codes List.mem_cons_self
  obtain ⟨frame, instructions, -, sorted, each⟩ := Draft.assembled_of_assemble assembled
  have isLine : (0, Opcode.packedSwitch, [.reg ⟨true, 1⟩, .label "table"]) ∈
      draft.instructions.map fun pending => (pending.addr, pending.opcode, pending.tokens) := by
    rw [holds.instructions]
    exact List.mem_cons_self
  obtain ⟨pending, isPending, same⟩ := List.mem_map.mp isLine
  obtain ⟨instruction, listed, gathered, assembled⟩ := exists_of_forall₂ each isPending
  have member : instruction ∈ code.instructions := by
    rw [sorted, List.mem_mergeSort]
    exact listed
  have isSwitch : instruction.opcode = some .packedSwitch :=
    assembled.opcode_eq.trans (congrArg (fun line => some line.2.1) same)
  obtain ⟨⟨opcode, isOpcode, shaped⟩, decoded⟩ :=
    wellShaped_of_read success code isCode instruction member
  obtain rfl := Option.some.inj (isSwitch.symm.trans isOpcode)
  exact ⟨listing, success, code, isCode, instruction, member, isSwitch, shaped, decoded⟩

end Listing

end Dalvik
