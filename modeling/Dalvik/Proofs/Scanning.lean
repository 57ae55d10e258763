import Mathlib.Data.List.TakeWhile

/-!
# Scanning texts

A text is scanned for runs of characters.  It is stored as the bytes of its
characters in UTF-8 and cut at offsets in these bytes; a cut is sound if it is
inside of no character.  Bytes below 0x80 are characters of their own.
-/

namespace Dalvik

/-! ## Runs of characters -/

/-- What holds of each character of a fixed list is checked for one after the other. -/
theorem forall_mem_of_all {property : Char → Prop} [DecidablePred property] {list : List Char}
    (checked : list.all (fun c => decide (property c)) = true) : ∀ c ∈ list, property c :=
  fun c member => of_decide_eq_true (List.all_eq_true.mp checked c member)

/-- A text that does not go on with a character of a class. -/
def Stops (member : Char → Bool) (text : List Char) : Prop :=
  ∀ c ∈ text.head?, member c = false

theorem takeWhile_of_stops {member : Char → Bool} {run rest : List Char}
    (each : ∀ c ∈ run, member c = true) (stops : Stops member rest) :
    (run ++ rest).takeWhile member = run := by
  rw [List.takeWhile_append_of_pos each]
  cases rest with
  | nil => exact List.append_nil run
  | cons c rest => simp [stops c rfl]

theorem dropWhile_of_stops {member : Char → Bool} {run rest : List Char}
    (each : ∀ c ∈ run, member c = true) (stops : Stops member rest) :
    (run ++ rest).dropWhile member = rest := by
  rw [List.dropWhile_append_of_pos each]
  cases rest with
  | nil => rfl
  | cons c rest => simp [stops c rfl]

/-- What is left behind the longest run stops it. -/
theorem stops_dropWhile (member : Char → Bool) (text : List Char) :
    Stops member (text.dropWhile member) := by
  intro c isFirst
  have out := List.head?_dropWhile_not member text
  rw [isFirst] at out
  simpa using out

/-! ## Bytes -/

def bytesOf (text : List Char) : List UInt8 :=
  text.flatMap String.utf8EncodeChar

/-- The byte of a character that has only one. -/
def byteOf (c : Char) : UInt8 :=
  UInt8.ofNat c.toNat

/-- The cut at an offset in the bytes of a text, with what stands before and behind it. -/
def CutAt (text : List Char) (offset : Nat) (before after : List Char) : Prop :=
  text = before ++ after ∧ (bytesOf before).length = offset

/-- An offset in the bytes of a text that is inside of no character. -/
def IsBoundary (text : List Char) (offset : Nat) : Prop :=
  ∃ before after, CutAt text offset before after

@[simp] theorem bytesOf_nil : bytesOf [] = [] := rfl

@[simp] theorem bytesOf_cons (c : Char) (text : List Char) :
    bytesOf (c :: text) = String.utf8EncodeChar c ++ bytesOf text := rfl

@[simp] theorem bytesOf_append (first second : List Char) :
    bytesOf (first ++ second) = bytesOf first ++ bytesOf second :=
  List.flatMap_append

/-! ## Single characters -/

theorem utf8EncodeChar_of_ascii {c : Char} (ascii : c.toNat < 0x80) :
    String.utf8EncodeChar c = [byteOf c] :=
  if_pos (Nat.le_of_lt_succ ascii)

/-- Other characters have several bytes, none of which is a character of its own. -/
theorem utf8EncodeChar_of_wide {c : Char} (wide : 0x80 ≤ c.toNat) :
    (∀ byte ∈ String.utf8EncodeChar c, 0x80 ≤ byte.toNat) ∧
      1 < (String.utf8EncodeChar c).length := by
  have high : ∀ number, 128 ≤ number → number < 256 → 0x80 ≤ (UInt8.ofNat number).toNat := by
    intro number least most
    rwa [UInt8.toNat_ofNat_of_lt' most]
  have notAscii : ¬c.val.toNat ≤ 127 := Nat.not_le_of_lt wide
  unfold String.utf8EncodeChar
  simp only [if_neg notAscii]
  split
  case' isFalse => split
  all_goals
    refine ⟨fun byte member => ?_, Nat.succ_lt_succ (Nat.succ_pos _)⟩
    simp only [List.mem_cons, List.not_mem_nil, or_false] at member
    rcases member with rfl | rfl | rfl | rfl <;> exact high _ (by omega) (by omega)

theorem length_utf8EncodeChar_pos (c : Char) : 0 < (String.utf8EncodeChar c).length := by
  by_cases ascii : c.toNat < 0x80
  · rw [utf8EncodeChar_of_ascii ascii]
    exact Nat.one_pos
  · exact Nat.lt_of_succ_lt (utf8EncodeChar_of_wide (Nat.le_of_not_lt ascii)).2

/-! ## Boundaries -/

/-- The cut behind the first byte of a character is sound exactly if it has no other. -/
theorem isBoundary_succ_iff (before rest : List Char) (c : Char) :
    IsBoundary (before ++ c :: rest) ((bytesOf before).length + 1) ↔ c.toNat < 0x80 := by
  constructor
  · rintro ⟨front, back, same, length⟩
    by_contra notAscii
    have wide := (utf8EncodeChar_of_wide (Nat.le_of_not_lt notAscii)).2
    rcases List.append_eq_append_iff.mp same with ⟨middle, isFront, isRest⟩ | ⟨middle, isBefore, -⟩
    · rw [isFront, bytesOf_append, List.length_append] at length
      cases middle with
      | nil => simp at length
      | cons first middle =>
          obtain ⟨rfl, -⟩ := List.cons.inj isRest
          rw [bytesOf_cons, List.length_append] at length
          omega
    · rw [isBefore, bytesOf_append, List.length_append] at length
      omega
  · intro ascii
    refine ⟨before ++ [c], rest, by simp, ?_⟩
    rw [bytesOf_append, List.length_append, bytesOf_cons, utf8EncodeChar_of_ascii ascii]
    rfl

/-- What stands at a cut is one byte for each character if these have no others. -/
theorem cutAt_ascii (before after : List Char) (ascii : ∀ c ∈ before, c.toNat < 0x80) :
    CutAt (before ++ after) before.length before after := by
  refine ⟨rfl, ?_⟩
  induction before with
  | nil => rfl
  | cons c before ih =>
      obtain ⟨first, others⟩ := List.forall_mem_cons.mp ascii
      rw [bytesOf_cons, List.length_append, ih others, utf8EncodeChar_of_ascii first,
        List.length_singleton, List.length_cons, Nat.add_comm]

/-! ## Scanning -/

/-- Characters that are found by their first byte are found in the bytes. -/
theorem takeWhile_bytesOf {inBytes : UInt8 → Bool} {inText : Char → Bool}
    (inside : ∀ c, inText c = true → ∀ byte ∈ String.utf8EncodeChar c, inBytes byte = true)
    (stops : ∀ c, inText c = false → ∀ byte ∈ (String.utf8EncodeChar c).head?, inBytes byte = false)
    (text : List Char) :
    (bytesOf text).takeWhile inBytes = bytesOf (text.takeWhile inText) := by
  induction text with
  | nil => rfl
  | cons c text ih =>
      rw [bytesOf_cons, List.takeWhile_cons]
      split
      · rename_i isIn
        rw [List.takeWhile_append_of_pos (inside c isIn), ih, bytesOf_cons]
      · rename_i isOut
        have positive := length_utf8EncodeChar_pos c
        cases bytes : String.utf8EncodeChar c with
        | nil =>
            rw [bytes] at positive
            cases positive
        | cons first others =>
            have isFirst := stops c (Bool.eq_false_iff.mpr isOut) first (by rw [bytes]; rfl)
            rw [List.cons_append, List.takeWhile_cons, isFirst]
            rfl

theorem toNat_byteOf {c : Char} (ascii : c.toNat < 0x80) : (byteOf c).toNat = c.toNat :=
  UInt8.toNat_ofNat_of_lt' (Nat.lt_trans ascii (by decide))

/-- The byte of such a character is in no other. -/
theorem byteOf_mem_iff {mark c : Char} (ascii : mark.toNat < 0x80) :
    byteOf mark ∈ String.utf8EncodeChar c ↔ c = mark := by
  by_cases other : c.toNat < 0x80
  · rw [utf8EncodeChar_of_ascii other, List.mem_singleton]
    constructor
    · intro same
      have numbers := congrArg UInt8.toNat same
      rw [toNat_byteOf ascii] at numbers
      exact Char.toNat_inj.mp ((toNat_byteOf other).symm.trans numbers.symm)
    · rintro rfl
      rfl
  · constructor
    · intro member
      have high := (utf8EncodeChar_of_wide (Nat.le_of_not_lt other)).1 _ member
      rw [toNat_byteOf ascii] at high
      omega
    · rintro rfl
      exact absurd ascii other

theorem byteOf_mem_bytesOf {mark : Char} (ascii : mark.toNat < 0x80) (text : List Char) :
    byteOf mark ∈ bytesOf text ↔ mark ∈ text := by
  simp only [bytesOf, List.mem_flatMap, byteOf_mem_iff ascii, exists_eq_right]

/-- A run of such a character is found in the bytes. -/
theorem takeWhile_mark {mark : Char} (ascii : mark.toNat < 0x80) (text : List Char) :
    (bytesOf text).takeWhile (· == byteOf mark) = bytesOf (text.takeWhile (· = mark)) := by
  apply takeWhile_bytesOf
  · intro c same byte member
    obtain rfl := of_decide_eq_true same
    rw [utf8EncodeChar_of_ascii ascii] at member
    exact beq_iff_eq.mpr (List.mem_singleton.mp member)
  · intro c differs byte isFirst
    refine beq_eq_false_iff_ne.mpr ?_
    rintro rfl
    exact of_decide_eq_false differs ((byteOf_mem_iff ascii).mp (List.mem_of_head? isFirst))

/-- The place of such a character is found in the bytes. -/
theorem takeWhile_notMark {mark : Char} (ascii : mark.toNat < 0x80) (text : List Char) :
    (bytesOf text).takeWhile (· != byteOf mark) = bytesOf (text.takeWhile (· ≠ mark)) := by
  apply takeWhile_bytesOf
  · intro c differs byte member
    refine bne_iff_ne.mpr ?_
    rintro rfl
    exact of_decide_eq_true differs ((byteOf_mem_iff ascii).mp member)
  · intro c same byte isFirst
    obtain rfl := not_not.mp (of_decide_eq_false same)
    rw [utf8EncodeChar_of_ascii ascii] at isFirst
    obtain rfl := Option.some.inj isFirst
    exact bne_self_eq_false _

/-- A cut behind a run of such a character. -/
theorem cutAt_run {mark : Char} (ascii : mark.toNat < 0x80) (text : List Char) :
    CutAt text ((bytesOf text).takeWhile (· == byteOf mark)).length
      (text.takeWhile (· = mark)) (text.dropWhile (· = mark)) :=
  ⟨List.takeWhile_append_dropWhile.symm, by rw [takeWhile_mark ascii]⟩

/-- A cut before the first such character. -/
theorem cutAt_mark {mark : Char} (ascii : mark.toNat < 0x80) (text : List Char) :
    CutAt text ((bytesOf text).takeWhile (· != byteOf mark)).length
      (text.takeWhile (· ≠ mark)) (text.dropWhile (· ≠ mark)) :=
  ⟨List.takeWhile_append_dropWhile.symm, by rw [takeWhile_notMark ascii]⟩

end Dalvik
