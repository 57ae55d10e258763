import Dalvik.Proofs.Binary.Tables
import Dalvik.Proofs.Opcode

/-!
# How the decoder cuts code into items

Decoded code is cut into instructions and data tables, each beginning where
the one before it ends, and a table belongs to the instructions that point to
its first unit.
-/

namespace Dalvik

theorem Payload.size_pos (table : Payload) : 0 < table.size := by
  cases table <;> simp only [Payload.size] <;> omega

namespace Binary

namespace Item

def addr : Item → Nat
  | .instruction read => read.addr
  | .payload addr _ => addr

def endAddr : Item → Nat
  | .instruction read => read.nextAddr
  | .payload addr table => addr + table.size

theorem addr_lt_endAddr (item : Item) : item.addr < item.endAddr := by
  cases item with
  | instruction read => exact Nat.lt_add_of_pos_right read.format.size_pos
  | payload addr table => exact Nat.lt_add_of_pos_right table.size_pos

def map (act : Instruction → Instruction) : Item → Item
  | .instruction read => .instruction (act read)
  | .payload addr table => .payload addr table

end Item

/-- An instruction read at an address, which opens with its opcode byte. -/
structure ReadAt (addr : Nat) (read : Instruction) : Prop where
  addr : read.addr = addr
  opens : read.units.head?.map lowByte = some read.opcodeByte.toNat

/-- The items that the bytes from an address on are cut into. -/
inductive Tiles : Nat → List UInt8 → List Item → Prop where
  /-- Less than a unit is left. -/
  | finished {addr : Nat} {bytes : List UInt8} (short : bytes.length < 2) : Tiles addr bytes []
  /-- Nothing is read after an unknown opcode. -/
  | unknown {addr : Nat} {last : Instruction} {rest : List UInt8} (readAt : ReadAt addr last)
      (unknown : last.opcode = none) (single : last.units.length = 1) :
      Tiles addr (bytesOfUnits last.units ++ rest) [.instruction last]
  | instruction {addr : Nat} {read : Instruction} {opcode : Opcode} {rest : List UInt8}
      {items : List Item} (readAt : ReadAt addr read) (known : read.opcode = some opcode)
      (format : read.format = opcode.format) (counted : read.units.length = opcode.format.size)
      (later : Tiles (addr + opcode.format.size) rest items) :
      Tiles addr (bytesOfUnits read.units ++ rest) (.instruction read :: items)
  | payload {addr : Nat} {table : Payload} {block rest : List UInt8} {items : List Item}
      (stored : Stored table block) (fills : Fills table block rest)
      (later : Tiles (addr + table.size) rest items) :
      Tiles addr (block ++ rest) (.payload addr table :: items)

/-! ## Units of the code -/

/-- Units of bytes are found after as many units as come before the bytes. -/
theorem drop_unitsOfBytes {count : Nat} {block : List UInt8} (even : block.length = 2 * count)
    (rest : List UInt8) : (unitsOfBytes (block ++ rest)).drop count = unitsOfBytes rest := by
  induction count generalizing block with
  | zero =>
      obtain rfl := List.length_eq_zero_iff.mp even
      rfl
  | succ count ih =>
      obtain ⟨low, high, others, rfl⟩ : ∃ low high others, block = low :: high :: others := by
        match block, even with
        | low :: high :: others, _ => exact ⟨low, high, others, rfl⟩
      have fewer : others.length = 2 * count := by
        simp only [List.length_cons] at even
        omega
      exact ih fewer

theorem unitsOfBytes_append (units : List UInt16) (rest : List UInt8) :
    unitsOfBytes (bytesOfUnits units ++ rest) = units ++ unitsOfBytes rest := by
  induction units with
  | nil => rfl
  | cons unit units ih =>
      rw [bytesOfUnits_cons, List.cons_append, List.cons_append, unitsOfBytes, ih,
        UInt8.toNat_ofNat_of_lt' (lowByte_lt unit), UInt8.toNat_ofNat_of_lt' (highByte_lt unit),
        unitOfBytes_bytes, List.cons_append]

namespace Tiles

variable {addr : Nat} {bytes : List UInt8} {items : List Item}

/-- Nothing is cut from no bytes. -/
theorem eq_nil (tiles : Tiles addr bytes items) (empty : bytes = []) : items = [] := by
  cases tiles with
  | finished short => rfl
  | unknown readAt unknown single =>
      have long := congrArg List.length empty
      rw [List.length_append, length_bytesOfUnits, single, List.length_nil] at long
      omega
  | @instruction _ _ opcode _ _ readAt known format counted later =>
      have long := congrArg List.length empty
      have positive := opcode.format.size_pos
      rw [List.length_append, length_bytesOfUnits, counted, List.length_nil] at long
      omega
  | @payload _ table block _ _ stored fills later =>
      have long := congrArg List.length empty
      have positive := table.size_pos
      rw [List.length_append, List.length_nil] at long
      rcases fills with whole | ⟨whole, -⟩ <;> omega

/-- Every item begins at or after the address that cutting begins at. -/
theorem le_addr (tiles : Tiles addr bytes items) {item : Item} (member : item ∈ items) :
    addr ≤ item.addr := by
  induction tiles with
  | finished short => cases member
  | unknown readAt unknown single =>
      obtain rfl := List.mem_singleton.mp member
      exact Nat.le_of_eq readAt.addr.symm
  | instruction readAt known format counted later ih =>
      rcases List.mem_cons.mp member with rfl | inLater
      · exact Nat.le_of_eq readAt.addr.symm
      · exact Nat.le_of_add_right_le (ih inLater)
  | payload stored fills later ih =>
      rcases List.mem_cons.mp member with rfl | inLater
      · exact Nat.le_refl _
      · exact Nat.le_of_add_right_le (ih inLater)

/-- Every item ends before the next one begins. -/
theorem apart (tiles : Tiles addr bytes items) :
    items.Pairwise fun earlier later => earlier.endAddr ≤ later.addr := by
  induction tiles with
  | finished short => exact .nil
  | unknown readAt unknown single => exact List.pairwise_singleton _ _
  | instruction readAt known format counted later ih =>
      refine List.pairwise_cons.mpr ⟨fun item member => ?_, ih⟩
      rw [Item.endAddr, Instruction.nextAddr, Instruction.size, readAt.addr, format]
      exact later.le_addr member
  | payload stored fills later ih =>
      exact List.pairwise_cons.mpr ⟨fun item member => later.le_addr member, ih⟩

/-- Items come in the order of their addresses, which no two share. -/
theorem ascending (tiles : Tiles addr bytes items) :
    items.Pairwise fun earlier later => earlier.addr < later.addr :=
  tiles.apart.imp fun {earlier _} before => Nat.lt_of_lt_of_le earlier.addr_lt_endAddr before

/-- An instruction has the units that are at its address. -/
theorem units_eq (tiles : Tiles addr bytes items) {read : Instruction}
    (member : .instruction read ∈ items) :
    ∃ before, read.addr = addr + before ∧
      read.units = ((unitsOfBytes bytes).drop before).take read.units.length := by
  induction tiles with
  | finished short => cases member
  | @unknown addr last rest readAt unknown single =>
      obtain rfl : read = last := by simpa using member
      refine ⟨0, readAt.addr, ?_⟩
      rw [unitsOfBytes_append, List.drop_zero, List.take_left]
  | @instruction addr first opcode rest items readAt known format counted later ih =>
      rcases List.mem_cons.mp member with same | inLater
      · obtain rfl := Item.instruction.inj same
        refine ⟨0, readAt.addr, ?_⟩
        rw [unitsOfBytes_append, List.drop_zero, List.take_left]
      · obtain ⟨before, place, found⟩ := ih inLater
        refine ⟨opcode.format.size + before, by rw [place, Nat.add_assoc], ?_⟩
        have even : (bytesOfUnits first.units).length = 2 * opcode.format.size := by
          rw [length_bytesOfUnits, counted]
        rw [← List.drop_drop, drop_unitsOfBytes even]
        exact found
  | @payload addr table block rest items stored fills later ih =>
      rcases List.mem_cons.mp member with same | inLater
      · cases same
      rcases fills with even | ⟨-, ended⟩
      · obtain ⟨before, place, found⟩ := ih inLater
        refine ⟨table.size + before, by rw [place, Nat.add_assoc], ?_⟩
        rw [← List.drop_drop, drop_unitsOfBytes even]
        exact found
      · rw [later.eq_nil ended] at inLater
        cases inLater

/-- An instruction with a known opcode has the opcode's format and size. -/
theorem known (tiles : Tiles addr bytes items) {read : Instruction}
    (member : .instruction read ∈ items) {opcode : Opcode} (isOpcode : read.opcode = some opcode) :
    read.format = opcode.format ∧ read.units.length = opcode.format.size := by
  induction tiles with
  | finished short => cases member
  | unknown readAt unknown single =>
      obtain rfl := Item.instruction.inj (List.mem_singleton.mp member)
      cases unknown.symm.trans isOpcode
  | instruction readAt known format counted later ih =>
      rcases List.mem_cons.mp member with same | inLater
      · obtain rfl := Item.instruction.inj same
        obtain rfl := Option.some.inj (known.symm.trans isOpcode)
        exact ⟨format, counted⟩
      · exact ih inLater
  | payload stored fills later ih =>
      rcases List.mem_cons.mp member with same | inLater
      · cases same
      · exact ih inLater

/-- An instruction with an unknown opcode is the last item and has one unit. -/
theorem unknown_last (tiles : Tiles addr bytes items) {read : Instruction}
    (member : .instruction read ∈ items) (isUnknown : read.opcode = none) :
    items.getLast? = some (.instruction read) ∧ read.units.length = 1 := by
  induction tiles with
  | finished short => cases member
  | unknown readAt unknown single =>
      obtain rfl := Item.instruction.inj (List.mem_singleton.mp member)
      exact ⟨rfl, single⟩
  | instruction readAt known format counted later ih =>
      rcases List.mem_cons.mp member with same | inLater
      · obtain rfl := Item.instruction.inj same
        cases known.symm.trans isUnknown
      · obtain ⟨last, single⟩ := ih inLater
        exact ⟨by rw [List.getLast?_cons, last]; rfl, single⟩
  | payload stored fills later ih =>
      rcases List.mem_cons.mp member with same | inLater
      · cases same
      · obtain ⟨last, single⟩ := ih inLater
        exact ⟨by rw [List.getLast?_cons, last]; rfl, single⟩

/-- Items are cut the same way whatever tables their instructions carry. -/
theorem map {act : Instruction → Instruction}
    (carries : ∀ read, ∃ payload, act read = { read with payload })
    (tiles : Tiles addr bytes items) : Tiles addr bytes (items.map (Item.map act)) := by
  induction tiles with
  | finished short => exact .finished short
  | @unknown addr last rest readAt unknown single =>
      obtain ⟨payload, same⟩ := carries last
      rw [List.map_singleton, Item.map, same]
      exact @Tiles.unknown addr { last with payload } rest ⟨readAt.addr, readAt.opens⟩ unknown single
  | @instruction addr read opcode rest items readAt known format counted later ih =>
      obtain ⟨payload, same⟩ := carries read
      rw [List.map_cons, Item.map, same]
      exact @Tiles.instruction addr { read with payload } opcode rest _
        ⟨readAt.addr, readAt.opens⟩ known format counted ih
  | payload stored fills later ih => exact .payload stored fills ih

end Tiles

/-! ## What the decoder reads -/

/-- What reading the next item comes to. -/
theorem decodeItems_cons {total fuel addr : Nat} {opcodeByte high : UInt8} {rest : List UInt8}
    {items : List Item} (place : total = 2 * addr + (opcodeByte :: high :: rest).length)
    (read : decodeItems total (fuel + 1) (opcodeByte :: high :: rest) = .ok items) :
    (opensPayload opcodeByte high = true ∧ ∃ table after later,
      takePayload high rest = .ok (table, after) ∧ decodeItems total fuel after = .ok later ∧
      items = .payload addr table :: later) ∨
    (Opcode.ofValue? opcodeByte = none ∧
      items = [.instruction (unknownInstruction addr opcodeByte high)]) ∨
    (∃ opcode later, Opcode.ofValue? opcodeByte = some opcode ∧
      2 * opcode.format.size ≤ (opcodeByte :: high :: rest).length ∧
      decodeItems total fuel ((opcodeByte :: high :: rest).drop (2 * opcode.format.size)) =
        .ok later ∧
      items = .instruction (decodeInstruction addr opcode
        (unitsOfBytes ((opcodeByte :: high :: rest).take (2 * opcode.format.size)))) :: later) := by
  have here : (total - (opcodeByte :: high :: rest).length) / 2 = addr := by omega
  rw [decodeItems] at read
  dsimp only at read
  rw [here] at read
  split at read
  · rename_i opens
    simp only [bind_eq_ok, pure_eq_ok, Prod.exists] at read
    obtain ⟨table, after, taken, later, others, rfl⟩ := read
    exact .inl ⟨opens, table, after, later, taken, others, rfl⟩
  · split at read
    · rename_i unknown
      exact .inr (.inl ⟨unknown, (Except.ok.inj read).symm⟩)
    · rename_i opcode known
      right
      right
      unfold endsBefore at read
      split at read
      · cases read
      · rename_i long
        obtain ⟨later, others, done⟩ := bind_eq_ok.mp read
        obtain rfl := pure_eq_ok.mp done
        refine ⟨opcode, later, known, ?_, others, rfl⟩
        rw [decide_eq_true_eq, List.length_take] at long
        omega

/-- The units that an instruction is read from are the bytes it takes. -/
theorem readAt_decodeInstruction {opcodeByte high : UInt8} {rest : List UInt8} {opcode : Opcode}
    (found : Opcode.ofValue? opcodeByte = some opcode) (addr : Nat) {units : List UInt16}
    (stored : bytesOfUnits units = opcodeByte :: high :: rest) :
    ReadAt addr (decodeInstruction addr opcode units) := by
  refine ⟨rfl, ?_⟩
  cases units with
  | nil => cases stored
  | cons unit units =>
      rw [bytesOfUnits_cons] at stored
      have first := congrArg UInt8.toNat (List.cons.inj stored).1
      rw [UInt8.toNat_ofNat_of_lt' (lowByte_lt unit)] at first
      change some (lowByte unit) = some opcode.value.toNat
      rw [first, Opcode.value_of_ofValue? found]

/-- An instruction is read from as many bytes as its opcode takes. -/
theorem Tiles.decoded {addr : Nat} {opcodeByte high : UInt8} {rest : List UInt8} {opcode : Opcode}
    {items : List Item} (found : Opcode.ofValue? opcodeByte = some opcode)
    (long : 2 * opcode.format.size ≤ (opcodeByte :: high :: rest).length)
    (later : Tiles (addr + opcode.format.size)
      ((opcodeByte :: high :: rest).drop (2 * opcode.format.size)) items) :
    Tiles addr (opcodeByte :: high :: rest) (.instruction (decodeInstruction addr opcode
      (unitsOfBytes ((opcodeByte :: high :: rest).take (2 * opcode.format.size)))) :: items) := by
  generalize isUnits :
    unitsOfBytes ((opcodeByte :: high :: rest).take (2 * opcode.format.size)) = units
  have even : ((opcodeByte :: high :: rest).take (2 * opcode.format.size)).length =
      2 * opcode.format.size := List.length_take_of_le long
  have stored := bytesOfUnits_unitsOfBytes even
  rw [isUnits] at stored
  have counted : units.length = opcode.format.size := by
    have both := congrArg List.length stored
    rw [length_bytesOfUnits, even] at both
    omega
  have opens : ∃ others, bytesOfUnits units = opcodeByte :: high :: others := by
    have positive := opcode.format.size_pos
    obtain ⟨fewer, isSize⟩ : ∃ fewer, 2 * opcode.format.size = fewer + 1 + 1 :=
      ⟨2 * opcode.format.size - 2, by omega⟩
    rw [stored, isSize]
    exact ⟨rest.take fewer, rfl⟩
  obtain ⟨others, opens⟩ := opens
  have tiles := Tiles.instruction (readAt_decodeInstruction found addr opens)
    (Opcode.ofValue?_value opcode) rfl counted later
  rwa [show (decodeInstruction addr opcode units).units = units from rfl, stored,
    List.take_append_drop] at tiles

/-- The items that are read tile the bytes. -/
theorem decodeItems_tiles {total fuel : Nat} {bytes : List UInt8} {items : List Item} {addr : Nat}
    (enough : bytes.length ≤ fuel) (place : total = 2 * addr + bytes.length)
    (read : decodeItems total fuel bytes = .ok items) : Tiles addr bytes items := by
  induction fuel generalizing bytes items addr with
  | zero =>
      obtain rfl := List.length_eq_zero_iff.mp (Nat.le_zero.mp enough)
      obtain rfl := Except.ok.inj read
      exact .finished (by decide)
  | succ fuel ih =>
      match bytes, enough, place, read with
      | [], _, _, read =>
          obtain rfl := Except.ok.inj read
          exact .finished (by decide)
      | [_], _, _, read =>
          obtain rfl := Except.ok.inj read
          exact .finished (by simp)
      | opcodeByte :: high :: rest, enough, place, read =>
          rcases decodeItems_cons place read with table | unknown | known
          · obtain ⟨opens, table, after, later, taken, others, rfl⟩ := table
            obtain rfl : opcodeByte = 0 := by
              simp only [opensPayload, Bool.and_eq_true, beq_iff_eq] at opens
              exact opens.1.1
            obtain ⟨block, whole, stored, fills⟩ := takePayload_eq_ok opens taken
            have total_eq := congrArg List.length whole
            rw [List.length_append] at total_eq
            rw [whole]
            refine .payload stored fills ?_
            have positive := table.size_pos
            rcases fills with even | ⟨odd, ended⟩
            · exact ih (by omega) (by omega) others
            · rw [ended] at others ⊢
              cases fuel <;> cases others <;> exact .finished (by decide)
          · obtain ⟨unknown, rfl⟩ := unknown
            have readAt : ReadAt addr (unknownInstruction addr opcodeByte high) :=
              ⟨rfl, congrArg some (lowByte_unitOfBytes _ opcodeByte.toNat_lt)⟩
            have tiles := @Tiles.unknown _ _ rest readAt unknown rfl
            rwa [show (unknownInstruction addr opcodeByte high).units =
              [unitOfBytes opcodeByte.toNat high.toNat] from rfl, bytesOfUnits_unitOfBytes] at tiles
          · obtain ⟨opcode, later, found, long, others, rfl⟩ := known
            have positive := opcode.format.size_pos
            have left : ((opcodeByte :: high :: rest).drop (2 * opcode.format.size)).length =
              (opcodeByte :: high :: rest).length - 2 * opcode.format.size := List.length_drop
            exact .decoded found long (ih (by omega) (by omega) others)

/-! ## Instructions as they are read -/

/-- Units of an opcode's size, which start with its byte. -/
structure HeldBy (opcode : Opcode) (units : List UInt16) : Prop where
  counted : units.length = opcode.format.size
  opens : lowByte (units.getD 0 0) = opcode.value.toNat

/-- Bytes that start with an opcode's byte are the units of an instruction. -/
theorem heldBy_bytes {opcodeByte high : UInt8} {rest : List UInt8} {opcode : Opcode}
    (found : Opcode.ofValue? opcodeByte = some opcode)
    (long : 2 * opcode.format.size ≤ (opcodeByte :: high :: rest).length) :
    HeldBy opcode
      (unitsOfBytes ((opcodeByte :: high :: rest).take (2 * opcode.format.size))) := by
  have even := List.length_take_of_le long
  constructor
  · have both := congrArg List.length (bytesOfUnits_unitsOfBytes even)
    rw [length_bytesOfUnits, even] at both
    omega
  · have positive := opcode.format.size_pos
    obtain ⟨fewer, isSize⟩ : ∃ fewer, 2 * opcode.format.size = fewer + 1 + 1 :=
      ⟨2 * opcode.format.size - 2, by omega⟩
    rw [isSize, List.take_succ_cons, List.take_succ_cons, unitsOfBytes, List.getD_cons_zero,
      lowByte_unitOfBytes _ opcodeByte.toNat_lt, Opcode.value_of_ofValue? found]

/-- An instruction among the items of code has an unknown opcode, or is read from the units that
its opcode takes. -/
theorem read_of_items {total fuel : Nat} {bytes : List UInt8} {items : List Item}
    (success : decodeItems total fuel bytes = .ok items) {read : Instruction}
    (member : .instruction read ∈ items) :
    (∃ opcodeByte high, Opcode.ofValue? opcodeByte = none ∧
      read = unknownInstruction read.addr opcodeByte high) ∨
    ∃ opcode units, HeldBy opcode units ∧ read = decodeInstruction read.addr opcode units := by
  induction fuel generalizing bytes items with
  | zero =>
      obtain rfl := Except.ok.inj success
      cases member
  | succ fuel ih =>
      match bytes, success with
      | [], success | [_], success =>
          obtain rfl := Except.ok.inj success
          cases member
      | opcodeByte :: high :: rest, success =>
          rw [decodeItems] at success
          dsimp only at success
          split at success
          · simp only [bind_eq_ok, pure_eq_ok, Prod.exists] at success
            obtain ⟨table, after, -, later, others, rfl⟩ := success
            rcases List.mem_cons.mp member with same | inLater
            · cases same
            · exact ih others inLater
          · split at success
            · rename_i unknown
              obtain rfl := Except.ok.inj success
              obtain rfl := Item.instruction.inj (List.mem_singleton.mp member)
              exact .inl ⟨opcodeByte, high, unknown, rfl⟩
            · rename_i opcode found
              split at success
              · cases success
              · rename_i long
                obtain ⟨later, others, done⟩ := bind_eq_ok.mp success
                obtain rfl := pure_eq_ok.mp done
                rcases List.mem_cons.mp member with same | inLater
                · obtain rfl := Item.instruction.inj same
                  unfold endsBefore at long
                  rw [decide_eq_true_eq, List.length_take] at long
                  exact .inr ⟨opcode, _, heldBy_bytes found (by omega), rfl⟩
                · exact ih others inLater

/-! ## Tables that belong to instructions -/

theorem instruction?_eq_some_iff {item : Item} {read : Instruction} :
    item.instruction? = some read ↔ item = .instruction read := by
  cases item <;> simp [Item.instruction?]

theorem payloadAt?_eq_some_iff {target : Addr} {item : Item} {table : Payload} :
    item.payloadAt? target = some table ↔ item = .payload target table := by
  cases item with
  | instruction read => simp [Item.payloadAt?]
  | payload addr table' =>
      simp only [Item.payloadAt?, Item.payload.injEq, Option.ite_none_right_eq_some,
        Option.some.injEq]

/-- A table is found by its address, at which no other item begins. -/
theorem findSome?_payloadAt? {items : List Item}
    (ascending : items.Pairwise fun earlier later => earlier.addr < later.addr) (target : Addr)
    (table : Payload) :
    items.findSome? (Item.payloadAt? target) = some table ↔ .payload target table ∈ items := by
  constructor
  · intro found
    obtain ⟨item, member, isTable⟩ := List.exists_of_findSome?_eq_some found
    exact payloadAt?_eq_some_iff.mp isTable ▸ member
  · intro member
    obtain ⟨before, after, rfl⟩ := List.append_of_mem member
    have least := (List.pairwise_append.mp ascending).2.2
    have nothing : before.findSome? (Item.payloadAt? target) = none := by
      refine List.findSome?_eq_none_iff.mpr fun item inBefore => ?_
      refine Option.eq_none_iff_forall_ne_some.mpr fun other isTable => ?_
      have less := least item inBefore _ List.mem_cons_self
      rw [payloadAt?_eq_some_iff.mp isTable] at less
      exact Nat.lt_irrefl target less
    rw [List.findSome?_append, nothing, Option.none_or, List.findSome?_cons_of_isSome]
    · exact payloadAt?_eq_some_iff.mpr rfl
    · rw [payloadAt?_eq_some_iff.mpr rfl]
      rfl

/-- A decoded instruction is one of the items with a table attached. -/
theorem exists_item_of_decode {bytes : List UInt8} {instructions : List Instruction}
    (success : decode bytes = .ok instructions) :
    ∃ items, decodeItems bytes.length bytes.length bytes = .ok items ∧
      ∀ read ∈ instructions, ∃ original, .instruction original ∈ items ∧
        read = attachPayload items original := by
  obtain ⟨items, found, done⟩ := bind_eq_ok.mp success
  obtain rfl := pure_eq_ok.mp done
  refine ⟨items, found, fun read member => ?_⟩
  obtain ⟨original, inItems, rfl⟩ := List.mem_map.mp member
  obtain ⟨item, isItem, isInstruction⟩ := List.mem_filterMap.mp inItems
  exact ⟨original, instruction?_eq_some_iff.mp isInstruction ▸ isItem, rfl⟩

theorem attachPayload_carries (items : List Item) (read : Instruction) :
    ∃ payload, attachPayload items read = { read with payload } := by
  unfold attachPayload
  split
  · exact ⟨_, rfl⟩
  · exact ⟨read.payload, rfl⟩

theorem filterMap_map (act : Instruction → Instruction) (items : List Item) :
    (items.map (Item.map act)).filterMap Item.instruction? =
      (items.filterMap Item.instruction?).map act := by
  rw [List.filterMap_map, List.map_filterMap]
  congr 1
  funext item
  cases item <;> rfl

theorem payload_mem_map {act : Instruction → Instruction} {items : List Item} {addr : Addr}
    {table : Payload} :
    .payload addr table ∈ items.map (Item.map act) ↔ .payload addr table ∈ items := by
  constructor
  · intro member
    obtain ⟨item, inItems, same⟩ := List.mem_map.mp member
    cases item with
    | instruction read => cases same
    | payload addr table => exact same ▸ inItems
  · intro member
    exact List.mem_map_of_mem member

/-- The instructions of decoded code are those of the items it is cut into, with the tables among
them attached. -/
theorem decode_tiles {bytes : List UInt8} {instructions : List Instruction}
    (read : decode bytes = .ok instructions) :
    ∃ items, Tiles 0 bytes items ∧ Tiles 0 bytes (items.map (Item.map (attachPayload items))) ∧
      (items.map (Item.map (attachPayload items))).filterMap Item.instruction? = instructions := by
  obtain ⟨items, found, done⟩ := bind_eq_ok.mp read
  obtain rfl := pure_eq_ok.mp done
  have tiles : Tiles 0 bytes items := decodeItems_tiles (Nat.le_refl _) (by omega) found
  exact ⟨items, tiles, tiles.map (attachPayload_carries items),
    filterMap_map (attachPayload items) items⟩

/-- Code cut into items, and the instructions among them. -/
structure Tiling (bytes : List UInt8) (items : List Item) (instructions : List Instruction) :
    Prop where
  tiles : Tiles 0 bytes items
  listed : items.filterMap Item.instruction? = instructions
  ascending : instructions.Pairwise fun earlier later => earlier.addr < later.addr
  known : ∀ read ∈ instructions, ∀ opcode, read.opcode = some opcode →
    read.format = opcode.format ∧ read.units.length = opcode.format.size ∧
      read.units = ((unitsOfBytes bytes).drop read.addr).take opcode.format.size
  unknown : ∀ read ∈ instructions, read.opcode = none →
    items.getLast? = some (.instruction read) ∧
      ∃ unit, (unitsOfBytes bytes)[read.addr]? = some unit ∧ read.units = [unit]
  tables : ∀ read ∈ instructions, read.format = .f31t → ∀ table,
    read.payload = some table ↔ ∃ target, read.target = some target ∧ .payload target table ∈ items

/-- The decoder cuts code into instructions and tables that leave no gap and do not overlap, and
gives each table to the instructions that point to it. -/
theorem decode_tiling {bytes : List UInt8} {instructions : List Instruction}
    (read : decode bytes = .ok instructions) : ∃ items, Tiling bytes items instructions := by
  obtain ⟨raw, rawTiles, tiles, listed⟩ := decode_tiles read
  have isItem : ∀ instruction ∈ instructions,
      Item.instruction instruction ∈ raw.map (Item.map (attachPayload raw)) := by
    intro instruction member
    rw [← listed] at member
    obtain ⟨item, inItems, isInstruction⟩ := List.mem_filterMap.mp member
    exact instruction?_eq_some_iff.mp isInstruction ▸ inItems
  refine ⟨raw.map (Item.map (attachPayload raw)), tiles, listed, ?ascending, ?known, ?unknown,
    ?tables⟩
  case ascending =>
    rw [← listed]
    refine tiles.ascending.filterMap Item.instruction? fun earlier later less => ?_
    intro first isFirst second isSecond
    rwa [instruction?_eq_some_iff.mp isFirst, instruction?_eq_some_iff.mp isSecond] at less
  case known =>
    intro instruction member opcode isOpcode
    obtain ⟨format, counted⟩ := tiles.known (isItem _ member) isOpcode
    obtain ⟨before, place, units⟩ := tiles.units_eq (isItem _ member)
    refine ⟨format, counted, ?_⟩
    rw [place, Nat.zero_add, ← counted]
    exact units
  case unknown =>
    intro instruction member isUnknown
    obtain ⟨last, single⟩ := tiles.unknown_last (isItem _ member) isUnknown
    obtain ⟨before, place, units⟩ := tiles.units_eq (isItem _ member)
    obtain ⟨unit, isUnit⟩ := List.length_eq_one_iff.mp single
    refine ⟨last, unit, ?_, isUnit⟩
    rw [isUnit, List.length_singleton, List.take_one, List.head?_drop] at units
    rw [place, Nat.zero_add]
    exact Option.toList_eq_singleton_iff.mp units.symm
  case tables =>
    intro instruction member isTable table
    rw [← listed, filterMap_map] at member
    obtain ⟨original, -, rfl⟩ := List.mem_map.mp member
    obtain ⟨payload, carries⟩ := attachPayload_carries raw original
    have format : original.format = .f31t := by
      rw [carries] at isTable
      exact isTable
    have target : (attachPayload raw original).target = original.target := by rw [carries]; rfl
    rw [target, attachPayload, if_pos format]
    simp only [payload_mem_map, ← findSome?_payloadAt? rawTiles.ascending]
    exact Option.bind_eq_some_iff

/-- An array with an odd number of bytes whose pad byte is missing at the end of the code, the
instruction that points to it, and one that points before the code. -/
def unpaddedBytes : List UInt8 :=
  [0x26, 2, 7, 0, 0, 0, 0, 0, 0x2b, 3, 0xf0, 0xff, 0xff, 0xff, 0, 3, 3, 0, 1, 0, 0, 0, 5, 6, 7]

theorem decode_unpaddedBytes :
    ∃ instructions, decode unpaddedBytes = .ok instructions ∧
      instructions.map Instruction.payload = [some (.arrayData 3 [0x70605]), none, none] ∧
      ∃ items, Tiling unpaddedBytes items instructions := by
  have known : ∃ instructions, decode unpaddedBytes = .ok instructions ∧
      instructions.map Instruction.payload = [some (.arrayData 3 [0x70605]), none, none] :=
    exists_ok_of_decide (by decide +kernel)
  obtain ⟨instructions, read, tables⟩ := known
  exact ⟨instructions, read, tables, decode_tiling read⟩

end Binary

end Dalvik
