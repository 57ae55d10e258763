import Dalvik.Binary.Decode
import Dalvik.Proofs.Binary.Fields
import Dalvik.Proofs.Success

/-!
# Data tables in code

How a data table is laid out in bytes, and that what the decoder takes for a
table is laid out that way and is as long as the table's size says.
-/

namespace Dalvik

namespace Binary

/-! ## The layout of a table -/

def littleEndian (bytes : List UInt8) : Nat :=
  bytes.foldr (fun byte value => byte.toNat + 256 * value) 0

def wordUnits (word : Int32) : List UInt16 :=
  units32 word.toUInt32.toNat

/-- Bytes that hold a table, from its tag to its last word or element and, after an odd
number of element bytes, the pad byte unless it is missing. -/
inductive Stored : Payload → List UInt8 → Prop where
  | packedSwitch {firstKey : Int32} {targets : List Int32} (counted : targets.length < 65536) :
      Stored (.packedSwitch firstKey targets)
        (bytesOfUnits (0x0100 :: UInt16.ofNat targets.length ::
          (wordUnits firstKey ++ targets.flatMap wordUnits)))
  | sparseSwitch {keys targets : List Int32} (paired : keys.length = targets.length)
      (counted : keys.length < 65536) :
      Stored (.sparseSwitch keys targets)
        (bytesOfUnits (0x0200 :: UInt16.ofNat keys.length ::
          (keys.flatMap wordUnits ++ targets.flatMap wordUnits)))
  | arrayData {width : UInt16} {rows : List (List UInt8)} {pad : List UInt8}
      (wide : ∀ row ∈ rows, row.length = width.toNat) (counted : rows.length < span 32)
      (padded : pad.length ≤ rows.length * width.toNat % 2) :
      Stored (.arrayData width (rows.map fun row => UInt64.ofNat (littleEndian row)))
        (bytesOfUnits (0x0300 :: width :: units32 rows.length) ++ rows.flatten ++ pad)

/-! ## Numbers that are taken from bytes -/

/-- A number is made of the bytes that are taken for it. -/
theorem takeNumber_eq_ok {count number : Nat} {bytes after : List UInt8}
    (taken : takeNumber count bytes = .ok (number, after)) :
    ∃ field : List UInt8, field.length = count ∧ number = littleEndian field ∧
      bytes = field ++ after := by
  unfold takeNumber endsBefore at taken
  split at taken
  · cases taken
  · rename_i enough
    obtain ⟨rfl, rfl⟩ := Prod.mk.inj (Except.ok.inj taken)
    refine ⟨bytes.take count, ?_, rfl, (List.take_append_drop count bytes).symm⟩
    have most := List.length_take_le count bytes
    simp only [decide_eq_true_eq] at enough
    omega

/-- A unit is read from the two bytes that it is stored in. -/
theorem bytesOfUnits_littleEndian {field : List UInt8} (two : field.length = 2) :
    bytesOfUnits [UInt16.ofNat (littleEndian field)] = field ∧ littleEndian field < 65536 := by
  obtain ⟨low, high, rfl⟩ := List.length_eq_two.mp two
  have smallLow := low.toNat_lt
  have smallHigh := high.toNat_lt
  have number : littleEndian [low, high] = low.toNat + 256 * high.toNat := rfl
  refine ⟨?_, by omega⟩
  rw [number]
  exact bytesOfUnits_unitOfBytes low high []

/-- Two units are read from the four bytes that they are stored in. -/
theorem bytesOfUnits_units32 {field : List UInt8} (four : field.length = 4) :
    bytesOfUnits (units32 (littleEndian field)) = field ∧ littleEndian field < span 32 := by
  obtain ⟨first, second, third, fourth, rfl⟩ := List.length_eq_four.mp four
  have low := @bytesOfUnits_littleEndian [first, second] rfl
  have high := @bytesOfUnits_littleEndian [third, fourth] rfl
  have number : littleEndian [first, second, third, fourth] =
      littleEndian [first, second] + 65536 * littleEndian [third, fourth] := by
    simp only [littleEndian, List.foldr_cons, List.foldr_nil]
    omega
  have lowUnit : UInt16.ofNat (littleEndian [first, second, third, fourth]) =
      UInt16.ofNat (littleEndian [first, second]) := by
    apply UInt16.toNat_inj.mp
    simp only [UInt16.toNat_ofNat']
    omega
  have highUnit : littleEndian [first, second, third, fourth] / 65536 =
      littleEndian [third, fourth] := by
    omega
  constructor
  · rw [units32, lowUnit, highUnit, ← List.singleton_append, bytesOfUnits_append, low.1, high.1]
    rfl
  · rw [span_32]
    omega

/-- A word of a table is stored in the four bytes it was taken from. -/
theorem bytesOfUnits_wordUnits {field : List UInt8} (four : field.length = 4) :
    bytesOfUnits (wordUnits (Int32.ofNat (littleEndian field))) = field := by
  obtain ⟨same, small⟩ := bytesOfUnits_units32 four
  have number : (Int32.ofNat (littleEndian field)).toUInt32.toNat = littleEndian field := by
    change (UInt32.ofNat (littleEndian field)).toNat = _
    exact UInt32.toNat_ofNat_of_lt' small
  rw [wordUnits, number, same]

/-- The words of a row are stored in the bytes they were taken from. -/
theorem takeWords_eq_ok {count : Nat} {bytes after : List UInt8} {words : List Int32}
    (taken : takeWords count bytes = .ok (words, after)) :
    words.length = count ∧ bytes = bytesOfUnits (words.flatMap wordUnits) ++ after := by
  induction count generalizing bytes words with
  | zero =>
      obtain ⟨rfl, rfl⟩ := Prod.mk.inj (Except.ok.inj taken)
      exact ⟨rfl, rfl⟩
  | succ count ih =>
      rw [takeWords] at taken
      simp only [bind_eq_ok, pure_eq_ok, Prod.exists, Prod.mk.injEq] at taken
      obtain ⟨number, rest, first, others, left, more, rfl, rfl⟩ := taken
      obtain ⟨field, four, rfl, rfl⟩ := takeNumber_eq_ok first
      obtain ⟨rfl, rfl⟩ := ih more
      refine ⟨rfl, ?_⟩
      rw [List.flatMap_cons, bytesOfUnits_append, bytesOfUnits_wordUnits four, List.append_assoc]

/-- The elements of an array are read from rows of as many bytes as they are wide. -/
theorem takeElements_eq_ok {width count : Nat} {bytes after : List UInt8} {elements : List UInt64}
    (taken : takeElements width count bytes = .ok (elements, after)) :
    ∃ rows : List (List UInt8), rows.length = count ∧ (∀ row ∈ rows, row.length = width) ∧
      bytes = rows.flatten ++ after ∧
      elements = rows.map fun row => UInt64.ofNat (littleEndian row) := by
  induction count generalizing bytes elements with
  | zero =>
      obtain ⟨rfl, rfl⟩ := Prod.mk.inj (Except.ok.inj taken)
      exact ⟨[], rfl, nofun, rfl, rfl⟩
  | succ count ih =>
      rw [takeElements] at taken
      split at taken
      · cases taken
      · simp only [bind_eq_ok, pure_eq_ok, Prod.exists, Prod.mk.injEq] at taken
        obtain ⟨number, rest, first, others, left, more, rfl, rfl⟩ := taken
        obtain ⟨row, wide, rfl, rfl⟩ := takeNumber_eq_ok first
        obtain ⟨rows, rfl, each, rfl, rfl⟩ := ih more
        refine ⟨row :: rows, rfl, List.forall_mem_cons.mpr ⟨wide, each⟩, ?_, rfl⟩
        rw [List.flatten_cons, List.append_assoc]

/-! ## Tables that are taken from bytes -/

theorem length_wordUnits (word : Int32) : (wordUnits word).length = 2 := rfl

/-- Every word takes two units. -/
theorem length_flatMap_wordUnits (words : List Int32) :
    (words.flatMap wordUnits).length = 2 * words.length := by
  induction words with
  | nil => rfl
  | cons word words ih =>
      rw [List.flatMap_cons, List.length_append, ih, List.length_cons]
      change 2 + _ = _
      omega

theorem length_flatten_of_wide {width : Nat} {rows : List (List UInt8)}
    (wide : ∀ row ∈ rows, row.length = width) : rows.flatten.length = rows.length * width := by
  induction rows with
  | nil => simp
  | cons row rows ih =>
      obtain ⟨first, others⟩ := List.forall_mem_cons.mp wide
      rw [List.flatten_cons, List.length_append, ih others, first, List.length_cons, Nat.succ_mul,
        Nat.add_comm]

/-- Bytes of a table are as many as its size says, but for the pad byte at the end of the code. -/
def Fills (table : Payload) (block rest : List UInt8) : Prop :=
  block.length = 2 * table.size ∨ block.length + 1 = 2 * table.size ∧ rest = []

/-- Bytes of units fill a table of as many units. -/
theorem Fills.of_units {table : Payload} {units : List UInt16} {rest : List UInt8}
    (counted : units.length = table.size) : Fills table (bytesOfUnits units) rest := by
  left
  rw [length_bytesOfUnits, counted]

/-- The first two units of a table come before the others. -/
theorem bytesOfUnits_heading (tag unit : UInt16) (units : List UInt16) :
    bytesOfUnits (tag :: unit :: units) =
      bytesOfUnits [tag] ++ bytesOfUnits [unit] ++ bytesOfUnits units := by
  rw [← bytesOfUnits_append, ← bytesOfUnits_append]
  rfl

/-- The bytes after the tag of a table with consecutive keys. -/
theorem takePayload_packedSwitch {bytes after : List UInt8} {table : Payload}
    (taken : takePayload 1 bytes = .ok (table, after)) :
    ∃ block, 0 :: 1 :: bytes = block ++ after ∧ Stored table block ∧ Fills table block after := by
  simp only [takePayload, UInt8.reduceToNat, bind_eq_ok, pure_eq_ok, Prod.exists, Prod.mk.injEq]
    at taken
  obtain ⟨count, _, counts, firstKey, _, keys, targets, _, words, rfl, rfl⟩ := taken
  obtain ⟨counter, two, rfl, rfl⟩ := takeNumber_eq_ok counts
  obtain ⟨key, four, rfl, rfl⟩ := takeNumber_eq_ok keys
  obtain ⟨counted, rfl⟩ := takeWords_eq_ok words
  obtain ⟨unit, small⟩ := bytesOfUnits_littleEndian two
  rw [← counted] at unit small
  refine ⟨_, ?_, .packedSwitch small, .of_units ?_⟩
  · rw [bytesOfUnits_heading, bytesOfUnits_append, bytesOfUnits_wordUnits four, unit]
    simp only [List.append_assoc]
    rfl
  · simp only [List.length_cons, List.length_append, length_wordUnits, length_flatMap_wordUnits,
      Payload.size]
    omega

/-- The bytes after the tag of a table that lists its keys. -/
theorem takePayload_sparseSwitch {bytes after : List UInt8} {table : Payload}
    (taken : takePayload 2 bytes = .ok (table, after)) :
    ∃ block, 0 :: 2 :: bytes = block ++ after ∧ Stored table block ∧ Fills table block after := by
  simp only [takePayload, UInt8.reduceToNat, bind_eq_ok, pure_eq_ok, Prod.exists, Prod.mk.injEq]
    at taken
  obtain ⟨count, _, counts, keys, _, first, targets, _, second, rfl, rfl⟩ := taken
  obtain ⟨counter, two, rfl, rfl⟩ := takeNumber_eq_ok counts
  obtain ⟨counted, rfl⟩ := takeWords_eq_ok first
  obtain ⟨paired, rfl⟩ := takeWords_eq_ok second
  obtain ⟨unit, small⟩ := bytesOfUnits_littleEndian two
  rw [← counted] at unit small paired
  refine ⟨_, ?_, .sparseSwitch paired.symm small, .of_units ?_⟩
  · rw [bytesOfUnits_heading, bytesOfUnits_append, unit]
    simp only [List.append_assoc]
    rfl
  · simp only [List.length_cons, List.length_append, length_flatMap_wordUnits, Payload.size, paired]
    omega

/-- The bytes after the tag of an array of elements. -/
theorem takePayload_arrayData {bytes after : List UInt8} {table : Payload}
    (taken : takePayload 3 bytes = .ok (table, after)) :
    ∃ block, 0 :: 3 :: bytes = block ++ after ∧ Stored table block ∧ Fills table block after := by
  simp only [takePayload, UInt8.reduceToNat, bind_eq_ok, pure_eq_ok, Prod.exists, Prod.mk.injEq]
    at taken
  obtain ⟨width, _, widths, count, _, counts, elements, left, row, rfl, rfl⟩ := taken
  obtain ⟨wide, two, rfl, rfl⟩ := takeNumber_eq_ok widths
  obtain ⟨counter, four, rfl, rfl⟩ := takeNumber_eq_ok counts
  obtain ⟨rows, counted, each, rfl, rfl⟩ := takeElements_eq_ok row
  obtain ⟨unit, small⟩ := bytesOfUnits_littleEndian two
  obtain ⟨units, most⟩ := bytesOfUnits_units32 four
  rw [← counted] at units most ⊢
  have width : (UInt16.ofNat (littleEndian wide)).toNat = littleEndian wide := toNat_ofNat16 small
  rw [Nat.mul_comm]
  have padded : (left.take (rows.length * littleEndian wide % 2)).length ≤
      rows.length * (UInt16.ofNat (littleEndian wide)).toNat % 2 := by
    rw [width]
    exact List.length_take_le _ _
  have stored := Stored.arrayData (by rwa [width]) most padded
  refine ⟨_, ?_, stored, ?_⟩
  · rw [bytesOfUnits_heading, unit, units]
    simp only [List.append_assoc, List.take_append_drop]
    rfl
  · have long := length_flatten_of_wide each
    unfold Fills
    simp only [List.length_append, length_bytesOfUnits, List.length_cons, List.length_map, long,
      Payload.size, width, units32, List.length_take, List.length_nil, List.drop_eq_nil_iff]
    omega

/-- The bytes taken for a table hold that table. -/
theorem takePayload_eq_ok {tag : UInt8} {bytes after : List UInt8} {table : Payload}
    (opens : opensPayload 0 tag = true) (taken : takePayload tag bytes = .ok (table, after)) :
    ∃ block, 0 :: tag :: bytes = block ++ after ∧ Stored table block ∧ Fills table block after := by
  have tags : tag = 1 ∨ tag = 2 ∨ tag = 3 := by
    simp only [opensPayload, beq_self_eq_true, Bool.true_and, Bool.and_eq_true,
      decide_eq_true_eq, UInt8.le_iff_toNat_le, UInt8.reduceToNat] at opens
    simp only [← UInt8.toNat_inj, UInt8.reduceToNat]
    omega
  rcases tags with rfl | rfl | rfl
  · exact takePayload_packedSwitch taken
  · exact takePayload_sparseSwitch taken
  · exact takePayload_arrayData taken

end Binary

end Dalvik
