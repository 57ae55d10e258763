import Dalvik.Proofs.Listing.Reading
import Dalvik.Proofs.Listing.Shape
import Mathlib.Data.List.Nodup

/-!
# Where a listing's code is laid out

The instructions and tables of a method follow one another from address zero
in the order in which they are written, and branch offsets lead from an
instruction to the labels that it or its table names.
-/

namespace Dalvik.Listing

/-! ## Labels and tables of a body -/

/-- A label of a body is at the address of the entry after it. -/
def Denotes (entries : List Entry) (name : String) (addr : Addr) : Prop :=
  (addr, .label name) ∈ place 0 entries

def Reaches (entries : List Entry) (addr : Addr) (name : String) (offset : Int32) : Prop :=
  ∃ target, Denotes entries name target ∧ addr.offsetBy? offset = some target

/-- The cases of a table as they are written, with the keys of consecutive cases. -/
def DraftPayload.cases : DraftPayload → List (Int32 × String)
  | .packed firstKey labels =>
      labels.mapIdx fun position label => (firstKey + Int32.ofNat position, label)
  | .sparse entries => entries
  | .array _ _ => []

/-- A written table with its labels as offsets from an address. -/
inductive Resolves (entries : List Entry) (addr : Addr) : DraftPayload → Payload → Prop where
  | packed {firstKey : Int32} {labels : List String} {targets : List Int32}
      (each : List.Forall₂ (Reaches entries addr) labels targets) :
      Resolves entries addr (.packed firstKey labels) (.packedSwitch firstKey targets)
  | sparse {written : List (Int32 × String)} {targets : List Int32}
      (each : List.Forall₂ (fun entry => Reaches entries addr entry.2) written targets) :
      Resolves entries addr (.sparse written) (.sparseSwitch (written.map Prod.fst) targets)
  | array {width : Nat} {elements : List UInt64} :
      Resolves entries addr (.array width elements) (.arrayData (UInt16.ofNat width) elements)

namespace Resolves

variable {entries : List Entry} {addr : Addr} {written : DraftPayload} {payload : Payload}

/-- A table is as long as it is written, if its elements have a width. -/
theorem size_eq (resolves : Resolves entries addr written payload)
    (small : ∀ width elements, written = .array width elements → width < 65536) :
    payload.size = written.size := by
  cases resolves with
  | packed each => simp only [Payload.size, DraftPayload.size, each.length_eq]
  | sparse each => simp only [Payload.size, DraftPayload.size, List.length_map]
  | @array width elements =>
      rw [Payload.size, DraftPayload.size, Binary.toNat_ofNat16 (small width elements rfl)]

/-- Consecutive cases have consecutive keys, which wrap around. -/
theorem packedCases_of_labels {labels : List String} {targets : List Int32}
    (each : List.Forall₂ (Reaches entries addr) labels targets) (key : Int32) :
    List.Forall₂ (fun entry read => read.1 = entry.1 ∧ Reaches entries addr entry.2 read.2)
      (labels.mapIdx fun position label => (key + Int32.ofNat position, label))
      (Payload.packedCases key targets) := by
  induction each generalizing key with
  | nil => exact .nil
  | cons first _ ih =>
      have later : ∀ position : Nat,
          key + Int32.ofNat (position + 1) = key + 1 + Int32.ofNat position := by
        intro position
        rw [Int32.ofNat_add, Int32.add_comm (Int32.ofNat position), Int32.add_assoc]
        rfl
      rw [List.mapIdx_cons, Payload.packedCases]
      simp only [later]
      exact .cons ⟨(Int32.add_zero key).symm, first⟩ (ih (key + 1))

/-- The cases of a table have the written keys, and lead to the written labels. -/
theorem cases_eq (resolves : Resolves entries addr written payload) :
    List.Forall₂ (fun entry read => read.1 = entry.1 ∧ Reaches entries addr entry.2 read.2)
      written.cases payload.cases := by
  cases resolves with
  | packed each => exact packedCases_of_labels each _
  | sparse each =>
      rw [DraftPayload.cases, Payload.cases]
      induction each with
      | nil => exact .nil
      | cons first _ ih => exact .cons ⟨rfl, first⟩ ih
  | array => exact .nil

end Resolves

/-! ## Entries one after the other -/

/-- The first entry is placed at the address that placing begins at. -/
theorem head?_place {addr : Nat} {entries : List Entry} {placed : Nat × Entry}
    (first : placed ∈ (place addr entries).head?) : placed.1 = addr := by
  cases entries with
  | nil => cases first
  | cons entry entries =>
      obtain rfl := Option.some.inj first
      rfl

theorem place_isChain (addr : Nat) (entries : List Entry) :
    (place addr entries).IsChain fun placed later => later.1 = placed.1 + placed.2.size := by
  induction entries generalizing addr with
  | nil => exact .nil
  | cons entry entries ih =>
      refine List.isChain_cons.mpr ⟨fun later first => ?_, ih _⟩
      exact head?_place first

theorem le_of_mem_place {addr : Nat} {entries : List Entry} {placed : Nat × Entry}
    (member : placed ∈ place addr entries) : addr ≤ placed.1 := by
  induction entries generalizing addr with
  | nil => cases member
  | cons entry entries ih =>
      rcases List.mem_cons.mp member with rfl | later
      · exact Nat.le_refl _
      · exact Nat.le_of_add_right_le (ih later)

theorem mem_of_mem_place {addr : Nat} {entries : List Entry} {placed : Nat × Entry}
    (member : placed ∈ place addr entries) : placed.2 ∈ entries := by
  induction entries generalizing addr with
  | nil => cases member
  | cons entry entries ih =>
      rcases List.mem_cons.mp member with rfl | later
      · exact List.mem_cons_self
      · exact List.mem_cons_of_mem _ (ih later)

theorem place_pairwise (addr : Nat) (entries : List Entry) :
    (place addr entries).Pairwise fun placed later => placed.1 + placed.2.size ≤ later.1 := by
  induction entries generalizing addr with
  | nil => exact .nil
  | cons entry entries ih =>
      exact List.pairwise_cons.mpr ⟨fun later member => le_of_mem_place member, ih _⟩

/-! ## Instructions of a body -/

/-- An instruction as it is written: at its address, with the last label of its line as target,
and with the table that is written there. -/
structure Resolved (entries : List Entry) (written : Nat × Opcode × List Token)
    (instruction : Instruction) : Prop where
  addr : instruction.addr = written.1
  opcode : instruction.opcode = some written.2.1
  size : instruction.size = written.2.1.format.size
  labels : ∀ name, .label name ∈ written.2.2 → ∃ target, Denotes entries name target
  target : ∀ name, (written.2.2.filterMap Token.label?).getLast? = some name →
    ∃ target, Denotes entries name target ∧ instruction.target = some target
  table : instruction.format = .f31t → ∃ target table payload,
    instruction.target = some target ∧ (target, .table table) ∈ place 0 entries ∧
      instruction.payload = some payload ∧ Resolves entries instruction.addr table payload ∧
      payload.size = table.size ∧
      List.Forall₂ (fun entry read => read.1 = entry.1 ∧
        ∃ label, Denotes entries entry.2 label ∧ instruction.addr.offsetBy? read.2 = some label)
        table.cases payload.cases

/-- Code that is laid out as its body is written. -/
structure LaidOut (entries : List Entry) (code : Code) : Prop where
  first : ∀ placed ∈ (place 0 entries).head?, placed.1 = 0
  next : (place 0 entries).IsChain fun placed later => later.1 = placed.1 + placed.2.size
  disjoint : (place 0 entries).Pairwise fun placed later => placed.1 + placed.2.size ≤ later.1
  labels : ∀ name addr other, Denotes entries name addr → Denotes entries name other → addr = other
  instructions : List.Forall₂ (Resolved entries) (instructionLines entries) code.instructions

/-! ## Labels of a draft -/

namespace Draft

variable {draft : Draft} {entries : List Entry} {line : Nat}

theorem Holds.mem_labels (holds : draft.Holds entries) {name : String} {addr : Addr} :
    (name, addr) ∈ draft.labels ↔ Denotes entries name addr := by
  rw [holds.labels, List.mem_filterMap]
  constructor
  · rintro ⟨⟨addr', entry⟩, member, isLabel⟩
    cases entry with
    | label name' =>
        obtain ⟨rfl, rfl⟩ := Prod.mk.inj (Option.some.inj isLabel)
        exact member
    | instruction opcode tokens => cases isLabel
    | table written => cases isLabel
  · exact fun member => ⟨_, member, rfl⟩

/-- A label is written once. -/
theorem Holds.denotes_unique (holds : draft.Holds entries) {name : String} {addr other : Addr}
    (first : Denotes entries name addr) (second : Denotes entries name other) : addr = other := by
  have same := List.inj_on_of_nodup_map holds.distinct (holds.mem_labels.mpr first)
    (holds.mem_labels.mpr second) rfl
  exact (Prod.mk.inj same).2

theorem Holds.denotes_of_labelAddr (holds : draft.Holds entries) {name : String} {addr : Addr}
    (found : draft.labelAddr line name = .ok addr) : Denotes entries name addr := by
  unfold labelAddr at found
  split at found
  · rename_i addr' isLabel
    obtain rfl := Except.ok.inj found
    obtain ⟨before, after, labels, -⟩ := List.lookup_eq_some_iff.mp isLabel
    apply holds.mem_labels.mp
    rw [labels]
    exact List.mem_append_cons_self
  · cases found

/-- The table at an address is the one that is placed there. -/
theorem Holds.table_of_lookup (holds : draft.Holds entries) {target : Addr}
    {written : DraftPayload} (found : draft.payloads.lookup target = some written) :
    (target, .table written) ∈ place 0 entries := by
  obtain ⟨before, after, payloads, -⟩ := List.lookup_eq_some_iff.mp found
  have member : (target, written) ∈ draft.payloads := by
    rw [payloads]
    exact List.mem_append_cons_self
  rw [holds.payloads, List.mem_filterMap] at member
  obtain ⟨⟨addr', entry⟩, member, isTable⟩ := member
  cases entry with
  | table written' =>
      obtain ⟨rfl, rfl⟩ := Prod.mk.inj (Option.some.inj isTable)
      exact member
  | instruction opcode tokens => cases isTable
  | label name => cases isTable

/-- The offset to an address leads there. -/
theorem offsetBy?_of_offsetTo {addr target : Addr} {offset : Int32}
    (success : offsetTo line addr target = .ok offset) : addr.offsetBy? offset = some target := by
  unfold offsetTo at success
  dsimp only at success
  split at success
  · rename_i fits
    obtain rfl := Except.ok.inj success
    have exact_eq : (Int32.ofInt (addr.distanceTo target)).toInt = addr.distanceTo target :=
      Int32.toInt_ofInt_of_le fits.1 fits.2
    have lands : (addr : Int) + addr.distanceTo target = (target : Int) := by
      unfold Addr.distanceTo
      omega
    unfold Addr.offsetBy?
    dsimp only
    rw [exact_eq, lands, if_neg (Int.not_lt.mpr (Int.natCast_nonneg target)), Int.toNat_natCast]
  · cases success

theorem Holds.reaches (holds : draft.Holds entries) {addr : Addr} {name : String} {offset : Int32}
    (success : draft.offsetToLabel line addr name = .ok offset) :
    Reaches entries addr name offset := by
  obtain ⟨target, found, offsets⟩ := bind_eq_ok.mp success
  exact ⟨target, holds.denotes_of_labelAddr found, offsetBy?_of_offsetTo offsets⟩

/-- Labels of a table become offsets that lead to them. -/
theorem Holds.resolves (holds : draft.Holds entries) {addr : Addr} {written : DraftPayload}
    {payload : Payload} (success : draft.resolvePayload line addr written = .ok payload) :
    Resolves entries addr written payload := by
  cases written with
  | packed firstKey labels =>
      simp only [resolvePayload, bind_eq_ok, pure_eq_ok] at success
      obtain ⟨targets, resolved, rfl⟩ := success
      exact .packed ((mapM_eq_ok.mp resolved).imp fun _ _ => holds.reaches)
  | sparse cases =>
      simp only [resolvePayload, bind_eq_ok, pure_eq_ok] at success
      obtain ⟨targets, resolved, rfl⟩ := success
      exact .sparse ((mapM_eq_ok.mp resolved).imp fun _ _ => holds.reaches)
  | array width elements =>
      obtain rfl := Except.ok.inj success
      exact .array

end Draft

/-! ## Code of a draft -/

namespace Draft.Assembled

variable {draft : Draft} {frame : Frame} {pending : DraftInstruction} {gathered : Gathered}
  {instruction : Instruction}

/-- The branch offset leads to the target that is gathered. -/
theorem target_eq (assembled : Assembled draft frame pending gathered instruction) :
    instruction.target = gathered.target := by
  have offsets := optionMapM_eq_ok.mp assembled.offset
  unfold Instruction.target
  cases leads : gathered.target with
  | none =>
      rw [leads] at offsets
      rw [show instruction.offset = none from offsets]
      rfl
  | some target =>
      rw [leads] at offsets
      obtain ⟨offset, isOffset, same⟩ := offsets
      rw [same, assembled.addr]
      exact offsetBy?_of_offsetTo isOffset

/-- An instruction is assembled as it is written. -/
theorem resolved {entries : List Entry} (holds : draft.Holds entries)
    (small : ∀ width elements, .table (.array width elements) ∈ entries → width < 65536)
    (assembled : Assembled draft frame pending gathered instruction) :
    Resolved entries (pending.addr, pending.opcode, pending.tokens) instruction := by
  obtain ⟨pool, gathers⟩ := assembled.gathers
  obtain ⟨addrs, found, last⟩ := gathered_target gathers
  have denoted := (mapM_eq_ok.mp found).imp fun _ _ => holds.denotes_of_labelAddr
  rw [Option.or_none] at last
  constructor
  case addr => exact assembled.addr
  case opcode =>
    rw [Instruction.opcode, assembled.opcodeByte, Opcode.ofValue?_value]
  case size => rw [Instruction.size, assembled.format]
  case labels =>
    intro name member
    have isName : name ∈ pending.tokens.filterMap Token.label? :=
      List.mem_filterMap.mpr ⟨_, member, rfl⟩
    obtain ⟨target, -, denotes⟩ := exists_of_forall₂ denoted isName
    exact ⟨target, denotes⟩
  case target =>
    intro name isLast
    obtain ⟨target, isTarget, denotes⟩ := getLast?_of_forall₂ denoted isLast
    exact ⟨target, denotes, assembled.target_eq.trans (last.trans isTarget)⟩
  case table =>
    intro isTable
    obtain ⟨target, payload, leads, carried, isPayload⟩ := assembled.payload isTable
    obtain ⟨written, placed, resolved, -⟩ := payloadAt_eq_ok carried
    have resolves := holds.resolves resolved
    have member := holds.table_of_lookup placed
    rw [assembled.target_eq, assembled.addr]
    refine ⟨target, written, payload, leads, member, isPayload, resolves, resolves.size_eq ?_,
      resolves.cases_eq⟩
    rintro width elements rfl
    exact small width elements (mem_of_mem_place member)

end Draft.Assembled

/-- Every instruction targets all labels of its line. -/
def Aimed (entries : List Entry) (code : Code) : Prop :=
  List.Forall₂ (fun (written : Nat × Opcode × List Token) instruction =>
    ∀ name, .label name ∈ written.2.2 →
      ∃ target, Denotes entries name target ∧ instruction.target = some target)
    (instructionLines entries) code.instructions

/-- The labels of a line are at one address. -/
def OneTarget (entries : List Entry) : Prop :=
  ∀ written ∈ instructionLines entries, ∀ name other, .label name ∈ written.2.2 →
    .label other ∈ written.2.2 → ∀ target, Denotes entries name target →
    Denotes entries other target

theorem instructionAt?_eq_some {placed : Nat × Entry} {written : Nat × Opcode × List Token}
    (isInstruction : instructionAt? placed = some written) :
    written.1 = placed.1 ∧ written.2.1.format.size = placed.2.size := by
  obtain ⟨addr, entry⟩ := placed
  cases entry with
  | instruction opcode tokens =>
      obtain rfl := Option.some.inj isInstruction
      exact ⟨rfl, rfl⟩
  | label name => cases isInstruction
  | table table => cases isInstruction

/-- Each instruction of a body ends before the next one begins. -/
theorem instructionLines_apart (entries : List Entry) :
    (instructionLines entries).Pairwise fun earlier later =>
      earlier.1 + earlier.2.1.format.size ≤ later.1 := by
  refine (place_pairwise 0 entries).filterMap _ fun earlier later before => ?_
  intro first isFirst second isSecond
  obtain ⟨start, size⟩ := instructionAt?_eq_some isFirst
  obtain ⟨next, -⟩ := instructionAt?_eq_some isSecond
  rw [start, size, next]
  exact before

/-- Instructions that are laid out as their lines end before the next one begins. -/
theorem apart_of_resolved {entries : List Entry} {instructions : List Instruction}
    (resolved : List.Forall₂ (Resolved entries) (instructionLines entries) instructions) :
    instructions.Pairwise fun earlier later => earlier.nextAddr ≤ later.addr := by
  have apart := instructionLines_apart entries
  generalize instructionLines entries = lines at resolved apart
  induction resolved with
  | nil => exact .nil
  | cons first rest ih =>
      obtain ⟨before, apart⟩ := List.pairwise_cons.mp apart
      refine List.pairwise_cons.mpr ⟨fun instruction member => ?_, ih apart⟩
      obtain ⟨written, isLine, each⟩ := exists_of_forall₂ rest.flip member
      rw [Instruction.nextAddr, first.addr, first.size, each.addr]
      exact before written isLine

namespace Draft.Holds

variable {draft : Draft} {entries : List Entry} {pool later : Pool} {code : Code}

/-- The lines of a draft are in the order of their addresses. -/
theorem ascending_instructions (holds : draft.Holds entries) :
    draft.instructions.Pairwise fun earlier later => earlier.addr ≤ later.addr := by
  have apart := instructionLines_apart entries
  rw [← holds.instructions, List.pairwise_map] at apart
  exact apart.imp fun {_ _} before => Nat.le_of_add_right_le before

/-- The code of a draft is its lines, each assembled in its frame. -/
theorem assembled_lines (holds : draft.Holds entries)
    (success : draft.assemble pool = .ok (later, code)) :
    ∃ frame, draft.frame = .ok frame ∧ code.registers = frame.registers ∧
      List.Forall₂ (fun pending instruction =>
        ∃ gathered, Assembled draft frame pending gathered instruction)
        draft.instructions code.instructions := by
  obtain ⟨frame, instructions, ⟨isFrame, registers⟩, isSorted, assembled⟩ :=
    assembled_of_assemble success
  have addrs : draft.instructions.map DraftInstruction.addr = instructions.map Instruction.addr :=
    map_eq_of_forall₂ assembled fun _ _ ⟨_, assembled⟩ => assembled.addr.symm
  have sorted : instructions.Pairwise fun first second => decide (first.addr ≤ second.addr) := by
    have ascending := holds.ascending_instructions
    rw [← List.pairwise_map (f := DraftInstruction.addr), addrs, List.pairwise_map] at ascending
    exact ascending.imp fun {_ _} => decide_eq_true
  rw [isSorted, List.mergeSort_of_pairwise sorted]
  exact ⟨frame, isFrame, registers, assembled⟩

/-- The code of a draft is its lines, each assembled as it is written. -/
theorem resolved_lines (holds : draft.Holds entries)
    (small : ∀ width elements, .table (.array width elements) ∈ entries → width < 65536)
    (success : draft.assemble pool = .ok (later, code)) :
    List.Forall₂ (Resolved entries) (instructionLines entries) code.instructions := by
  obtain ⟨frame, -, -, assembled⟩ := holds.assembled_lines success
  rw [← holds.instructions, List.forall₂_map_left_iff]
  exact assembled.imp fun pending instruction ⟨gathered, assembled⟩ =>
    assembled.resolved holds small

theorem laidOut (holds : draft.Holds entries)
    (small : ∀ width elements, .table (.array width elements) ∈ entries → width < 65536)
    (success : draft.assemble pool = .ok (later, code)) : LaidOut entries code where
  first _ := head?_place
  next := place_isChain 0 entries
  disjoint := place_pairwise 0 entries
  labels _ _ _ := holds.denotes_unique
  instructions := holds.resolved_lines small success

end Draft.Holds

/-- Every instruction targets all labels of its line exactly if they are at one address. -/
theorem LaidOut.aimed_iff {entries : List Entry} {code : Code} (laidOut : LaidOut entries code) :
    Aimed entries code ↔ OneTarget entries := by
  constructor
  · intro aimed written member name other isName isOther target denotes
    obtain ⟨instruction, -, targets⟩ := exists_of_forall₂ aimed member
    obtain ⟨target', denotes', leads⟩ := targets name isName
    obtain ⟨target'', denotes'', leads'⟩ := targets other isOther
    obtain rfl := laidOut.labels name target target' denotes denotes'
    obtain rfl := Option.some.inj (leads.symm.trans leads')
    exact denotes''
  · intro oneTarget
    refine ((List.forall₂_and_left _ _).mpr ⟨oneTarget, laidOut.instructions⟩).imp ?_
    rintro written instruction ⟨same, resolved⟩ name isName
    have isLabel : name ∈ written.2.2.filterMap Token.label? :=
      List.mem_filterMap.mpr ⟨_, isName, rfl⟩
    obtain ⟨last, isLast⟩ := Option.isSome_iff_exists.mp
      (List.getLast?_isSome.mpr (List.ne_nil_of_mem isLabel))
    obtain ⟨target, denotes, leads⟩ := resolved.target last isLast
    obtain ⟨token, inLine, isToken⟩ := List.mem_filterMap.mp (List.mem_of_getLast? isLast)
    obtain rfl := Token.label?_eq_some_iff.mp isToken
    exact ⟨target, same last name inLine isName target denotes, leads⟩

/-- The elements of array tables have a width. -/
theorem Piece.width_lt {block : List (List Char)} {entries : List Entry} (piece : Piece block entries)
    {width : Nat} {elements : List UInt64} (isTable : .table (.array width elements) ∈ entries) :
    width < 65536 := by
  cases piece with
  | passive => cases isTable
  | metadata => cases isTable
  | label => cases List.mem_singleton.mp isTable
  | instruction => cases List.mem_singleton.mp isTable
  | table spelled =>
      obtain rfl := Entry.table.inj (List.mem_singleton.mp isTable)
      cases spelled with
      | array opens isWidth known =>
          exact (by decide : ∀ width ∈ [1, 2, 4, 8], width < 65536) width known

theorem Body.width_lt {lines : List (List Char)} {entries : List Entry} (body : Body lines entries)
    {width : Nat} {elements : List UInt64} (isTable : .table (.array width elements) ∈ entries) :
    width < 65536 := by
  induction body with
  | nothing => cases isTable
  | piece first _ ih =>
      rcases List.mem_append.mp isTable with inFirst | inRest
      · exact first.width_lt inFirst
      · exact ih inRest

theorem Spells.exists_body {lines : List (List Char)} {bodies : List (List Entry)}
    (spelled : Spells lines bodies) {entries : List Entry} (member : entries ∈ bodies) :
    ∃ inner, Body inner entries := by
  induction spelled with
  | nothing => cases member
  | between _ _ ih => exact ih member
  | method opens body closes _ ih =>
      rcases List.mem_cons.mp member with rfl | later
      · exact ⟨_, body⟩
      · exact ih later

/-- Code is laid out as the body is written that a listing spells for it. -/
theorem laidOut_of_spells {text : String} {listing : Listing} {bodies : List (List Entry)}
    (success : read text = .ok listing) (spelled : Spells (writtenLines text) bodies) :
    List.Forall₂ LaidOut (bodies.filter hasCode) listing.methods := by
  obtain ⟨others, spelled', codes⟩ := read_assembles success
  obtain rfl := spelled'.unique spelled
  have small : ∀ entries ∈ others.filter hasCode, ∀ width elements,
      .table (.array width elements) ∈ entries → width < 65536 := by
    intro entries member width elements isTable
    obtain ⟨inner, body⟩ := spelled.exists_body (List.mem_of_mem_filter member)
    exact body.width_lt isTable
  refine ((List.forall₂_and_left _ _).mpr ⟨small, codes⟩).imp ?_
  rintro entries code ⟨small, draft, pool, later, holds, assembled⟩
  exact holds.laidOut small assembled

/-- A listing spells its methods in one way.  Its code is laid out as they are written, and every
instruction targets all labels of its line exactly if they are at one address. -/
theorem layout_of_read {text : String} {listing : Listing} (success : read text = .ok listing) :
    ∃ bodies, (∀ others, Spells (writtenLines text) others ↔ others = bodies) ∧
      List.Forall₂ (fun entries code => LaidOut entries code ∧
        (Aimed entries code ↔ OneTarget entries)) (bodies.filter hasCode) listing.methods := by
  obtain ⟨bodies, spelled, -⟩ := read_assembles success
  refine ⟨bodies, fun others => ⟨fun other => other.unique spelled, ?_⟩, ?_⟩
  · rintro rfl
    exact spelled
  · exact (laidOut_of_spells success spelled).imp fun _ _ laidOut => ⟨laidOut, laidOut.aimed_iff⟩

theorem layout_switchText :
    ∃ listing, (read switchText = .ok listing ∧ listing.methods.length = 1) ∧
      ∃ bodies, (∀ others, Spells (writtenLines switchText) others ↔ others = bodies) ∧
        List.Forall₂ (fun entries code => LaidOut entries code ∧
          (Aimed entries code ↔ OneTarget entries)) (bodies.filter hasCode) listing.methods := by
  obtain ⟨listing, success, one⟩ := read_switchText
  exact ⟨listing, ⟨success, one⟩, layout_of_read success⟩

/-! ## A line with two labels -/

/-- A jump whose line names two labels, of which only the last one is followed. -/
def twoLabelsText : String :=
  ".class La/B;\n.method static f(I)V\n    .registers 1\n    :top\n    goto :top, :end\n" ++
  "    :end\n    return-void\n.end method\n"

def twoLabelsBody : List Entry :=
  [.label "top", .instruction .goto [.label "top", .label "end"], .label "end",
    .instruction .returnVoid []]

theorem spells_twoLabelsText : Spells (writtenLines twoLabelsText) [twoLabelsBody] := by
  have written : writtenLines twoLabelsText =
      [".class La/B;", ".method static f(I)V", ".registers 1", ":top", "goto :top, :end", ":end",
        "return-void", ".end method"].map String.toList := by
    decide +kernel
  have body : Body ([".registers 1", ":top", "goto :top, :end", ":end", "return-void"].map
      String.toList) twoLabelsBody := by
    refine .piece (.passive (by decide +kernel)) ?_
    refine .piece (.label (by decide +kernel)) ?_
    refine .piece (@Piece.instruction _ "goto".toList _ _ (by decide +kernel) (by decide +kernel)
      (by decide +kernel)) ?_
    refine .piece (.label (by decide +kernel)) ?_
    exact .single (@Piece.instruction _ "return-void".toList _ _ (by decide +kernel)
      (by decide +kernel) (by decide +kernel))
  rw [written]
  exact .between (.passive (by decide +kernel))
    (.method (by decide +kernel) body (by decide +kernel) .nothing)

theorem not_oneTarget_twoLabelsBody : ¬ OneTarget twoLabelsBody := by
  intro oneTarget
  have first : Denotes twoLabelsBody "top" 0 := List.mem_cons_self
  have last := oneTarget (0, .goto, [.label "top", .label "end"]) List.mem_cons_self "top" "end"
    List.mem_cons_self (List.mem_cons_of_mem _ List.mem_cons_self) 0 first
  have same : 0 = Opcode.goto.format.size := by
    simpa [Denotes, twoLabelsBody, place, Entry.size] using last
  exact absurd same (by decide)

theorem not_aimed_twoLabelsText :
    ∃ listing bodies, read twoLabelsText = .ok listing ∧
      Spells (writtenLines twoLabelsText) bodies ∧
      ¬ List.Forall₂ Aimed (bodies.filter hasCode) listing.methods := by
  have known : ∃ listing, read twoLabelsText = .ok listing ∧ listing.methods.length = 1 :=
    exists_ok_of_decide (by decide +kernel)
  obtain ⟨listing, success, one⟩ := known
  have laidOut := laidOut_of_spells success spells_twoLabelsText
  refine ⟨listing, [twoLabelsBody], success, spells_twoLabelsText, fun aimed => ?_⟩
  generalize listing.methods = methods at laidOut aimed
  cases laidOut with
  | cons placed _ =>
      cases aimed with
      | cons aimed _ => exact not_oneTarget_twoLabelsBody (placed.aimed_iff.mp aimed)

end Dalvik.Listing
