import Dalvik.Proofs.Binary.RoundTrip
import Dalvik.Proofs.Binary.Tiling
import Mathlib.Algebra.Order.BigOperators.Group.List
import Mathlib.Algebra.Order.Group.Nat

/-!
# How much decoded tables hold

The entries of all data tables of code are stored in different bytes of it, so
that there are at most as many as bytes where every entry takes at least one.
Elements of no width take none, and a table may have any number of them.
-/

namespace Dalvik

namespace Payload

/-- How many keys, targets and elements a table holds. -/
def entries : Payload → Nat
  | .packedSwitch _ targets => targets.length
  | .sparseSwitch keys targets => keys.length + targets.length
  | .arrayData _ elements => elements.length

def entryBytes : Payload → Nat
  | .packedSwitch _ targets => 4 * targets.length
  | .sparseSwitch keys targets => 4 * (keys.length + targets.length)
  | .arrayData width elements => elements.length * width.toNat

def TakesBytes : Payload → Prop
  | .arrayData width _ => width ≠ 0
  | .packedSwitch _ _ | .sparseSwitch _ _ => True

theorem entries_le_entryBytes {table : Payload} (takes : table.TakesBytes) :
    table.entries ≤ table.entryBytes := by
  cases table with
  | packedSwitch firstKey targets => exact Nat.le_mul_of_pos_left _ (by decide)
  | sparseSwitch keys targets => exact Nat.le_mul_of_pos_left _ (by decide)
  | arrayData width elements =>
      refine Nat.le_mul_of_pos_right _ (Nat.pos_of_ne_zero fun zero => takes ?_)
      exact UInt16.toNat_inj.mp zero

end Payload

namespace Binary

def Item.entryBytes : Item → Nat
  | .instruction _ => 0
  | .payload _ table => table.entryBytes

/-- The entries of a table are stored among its bytes. -/
theorem Stored.entryBytes_le {table : Payload} {block : List UInt8} (stored : Stored table block) :
    table.entryBytes ≤ block.length := by
  cases stored with
  | packedSwitch counted =>
      simp only [Payload.entryBytes, length_bytesOfUnits, List.length_cons, List.length_append,
        length_flatMap_wordUnits]
      omega
  | sparseSwitch paired counted =>
      simp only [Payload.entryBytes, length_bytesOfUnits, List.length_cons, List.length_append,
        length_flatMap_wordUnits]
      omega
  | arrayData wide counted padded =>
      simp only [Payload.entryBytes, List.length_map, List.length_append,
        length_flatten_of_wide wide]
      omega

/-- The entries of different tables are stored in different bytes. -/
theorem Tiles.entryBytes_le {addr : Nat} {bytes : List UInt8} {items : List Item}
    (tiles : Tiles addr bytes items) : (items.map Item.entryBytes).sum ≤ bytes.length := by
  induction tiles with
  | finished short => exact Nat.zero_le _
  | unknown readAt unknown single => exact Nat.zero_le _
  | instruction readAt known format counted later ih =>
      rw [List.map_cons, List.sum_cons, List.length_append]
      change 0 + _ ≤ _
      omega
  | @payload _ table block _ _ stored fills later ih =>
      have here := stored.entryBytes_le
      rw [List.map_cons, List.sum_cons, List.length_append]
      change table.entryBytes + _ ≤ _
      omega

/-- Only instructions that point at a table carry one. -/
theorem format_of_payload {bytes : List UInt8} {instructions : List Instruction}
    (success : decode bytes = .ok instructions) {read : Instruction} (member : read ∈ instructions)
    {table : Payload} (carries : read.payload = some table) : read.format = .f31t := by
  obtain ⟨items, found, each⟩ := exists_item_of_decode success
  obtain ⟨original, isItem, rfl⟩ := each read member
  have without : original.payload = none := by
    rcases read_of_items found isItem with ⟨opcodeByte, high, -, same⟩ | ⟨opcode, units, -, same⟩
    all_goals
      rw [same]
      rfl
  unfold attachPayload at carries ⊢
  split
  · assumption
  · rename_i other
    rw [if_neg other] at carries
    cases without.symm.trans carries

/-- Each table that an instruction carries is one of those in the code, all of whose entries are
stored in different bytes.  So a table whose entries take bytes has at most as many of them as the
code has bytes. -/
theorem entries_of_decode {bytes : List UInt8} {instructions : List Instruction}
    (success : decode bytes = .ok instructions) :
    ∃ items, Tiling bytes items instructions ∧
      (items.map Item.entryBytes).sum ≤ bytes.length ∧
      ∀ read ∈ instructions, ∀ table, read.payload = some table →
        (∃ addr, .payload addr table ∈ items) ∧
          (table.TakesBytes → table.entries ≤ bytes.length) := by
  obtain ⟨items, tiling⟩ := decode_tiling success
  have stored := tiling.tiles.entryBytes_le
  refine ⟨items, tiling, stored, fun read member table carries => ?_⟩
  have isTable := format_of_payload success member carries
  obtain ⟨target, -, isItem⟩ := (tiling.tables read member isTable table).mp carries
  refine ⟨⟨target, isItem⟩, fun takes => ?_⟩
  calc table.entries
    _ ≤ table.entryBytes := Payload.entries_le_entryBytes takes
    _ ≤ (items.map Item.entryBytes).sum :=
        List.single_le_sum (fun _ _ => Nat.zero_le _) _ (List.mem_map_of_mem isItem)
    _ ≤ bytes.length := stored

/-- A switch on two keys and its table. -/
def twoKeysBytes : List UInt8 :=
  [0x2c, 0, 3, 0, 0, 0, 0, 2, 2, 0, 1, 0, 0, 0, 5, 0, 0, 0, 3, 0, 0, 0, 3, 0, 0, 0]

theorem entries_twoKeysBytes :
    ∃ instructions items, decode twoKeysBytes = .ok instructions ∧
      Tiling twoKeysBytes items instructions ∧ (items.map Item.entryBytes).sum ≤ 26 ∧
      ∃ read ∈ instructions, read.payload = some (.sparseSwitch [1, 5] [3, 3]) ∧
        (∃ addr, .payload addr (.sparseSwitch [1, 5] [3, 3]) ∈ items) ∧
        (Payload.sparseSwitch [1, 5] [3, 3]).entries ≤ 26 := by
  obtain ⟨instructions, success, read, member, carries⟩ :
      ∃ instructions, decode twoKeysBytes = .ok instructions ∧
        ∃ read ∈ instructions, read.payload = some (.sparseSwitch [1, 5] [3, 3]) :=
    exists_ok_of_decide (by decide +kernel)
  obtain ⟨items, tiling, stored, each⟩ := entries_of_decode success
  obtain ⟨isItem, few⟩ := each read member _ carries
  exact ⟨instructions, items, success, tiling, stored, read, member, carries, isItem, few trivial⟩

/-! ## Elements without a width -/

/-- An instruction that points at the array behind it, whose elements have no width. -/
def widthlessBytes (count : Nat) : List UInt8 :=
  bytesOfUnits [0x26, 3, 0] ++ bytesOfUnits (0x300 :: 0 :: units32 count)

theorem takeElements_widthless (count : Nat) (bytes : List UInt8) :
    takeElements 0 count bytes = .ok (List.replicate count 0, bytes) := by
  induction count with
  | zero => rfl
  | succ count ih =>
      have here : endsBefore 0 bytes = false := rfl
      have number : takeNumber 0 bytes = .ok (0, bytes) := rfl
      rw [takeElements, here, number]
      simp only [Bool.false_eq_true, if_false]
      change (takeElements 0 count bytes >>= _) = _
      rw [ih]
      rfl

theorem takeNumber_units32 {number : Nat} (small : number < span 32) :
    takeNumber 4 (bytesOfUnits (units32 number)) = .ok (number, []) := by
  have isFour : bytesOfUnits (units32 number) =
      [UInt8.ofNat (number % 65536 % 256), UInt8.ofNat (number % 65536 / 256),
        UInt8.ofNat (number / 65536 % 65536 % 256),
        UInt8.ofNat (number / 65536 % 65536 / 256)] := rfl
  have value : (bytesOfUnits (units32 number)).foldr
      (fun byte value => byte.toNat + 256 * value) 0 = number := by
    rw [span_32] at small
    simp only [isFour, List.foldr_cons, List.foldr_nil, UInt8.toNat_ofNat']
    omega
  have whole : endsBefore 4 (bytesOfUnits (units32 number)) = false := rfl
  have front : (bytesOfUnits (units32 number)).take 4 = bytesOfUnits (units32 number) := rfl
  rw [takeNumber, whole, front, value]
  rfl

/-- Fourteen bytes hold any number of elements without a width. -/
theorem decode_widthlessBytes {count : Nat} (small : count < span 32) :
    ∃ read, decode (widthlessBytes count) = .ok [read] ∧
      read.payload = some (.arrayData 0 (List.replicate count 0)) := by
  have table : takePayload 3 (0 :: 0 :: bytesOfUnits (units32 count)) =
      .ok (.arrayData 0 (List.replicate count 0), []) := by
    have width : takeNumber 2 (0 :: 0 :: bytesOfUnits (units32 count)) =
        .ok (0, bytesOfUnits (units32 count)) := rfl
    simp only [takePayload, width, takeNumber_units32 small, bind, Except.bind,
      takeElements_widthless, List.drop_nil]
    rfl
  have later : decodeItems 14 13 (bytesOfUnits (0x300 :: 0 :: units32 count)) =
      .ok [.payload 3 (.arrayData 0 (List.replicate count 0))] := by
    have opens : opensPayload 0 3 = true := rfl
    have opened : bytesOfUnits (0x300 :: 0 :: units32 count) =
        0 :: 3 :: 0 :: 0 :: bytesOfUnits (units32 count) := rfl
    have long : (0 :: 3 :: 0 :: 0 :: bytesOfUnits (units32 count)).length = 8 := rfl
    simp only [opened, decodeItems, opens, table, bind, Except.bind, long, if_true]
    rfl
  have long : (widthlessBytes count).length = 14 := rfl
  have pointing : encodeFormat .fillArrayData { regs := [.ofNat 0], offset := some 3 } =
      .ok [0x26, 3, 0] := by decide +kernel
  have items : decodeItems 14 14 (widthlessBytes count) =
      .ok [.instruction (decodeInstruction 0 .fillArrayData [0x26, 3, 0]),
        .payload 3 (.arrayData 0 (List.replicate count 0))] := by
    have first := decodeItems_encoded pointing later
    rwa [show bytesOfUnits [0x26, 3, 0] ++ _ = widthlessBytes count from rfl, long] at first
  rw [decode, long, items]
  exact ⟨_, rfl, rfl⟩

/-- A table can hold more elements than the code has bytes. -/
theorem not_entries_le_widthless :
    ¬∀ bytes instructions, decode bytes = .ok instructions →
      ∀ read ∈ instructions, ∀ table, read.payload = some table →
        table.entries ≤ bytes.length := by
  intro bounded
  obtain ⟨read, decoded, carries⟩ := decode_widthlessBytes (show 15 < span 32 by decide)
  exact absurd (bounded _ _ decoded read (List.mem_singleton_self read) _ carries) (by decide)

end Binary

end Dalvik
