import Dalvik.Listing.Token
import Dalvik.Proofs.Scanning
import Mathlib.Data.Nat.Digits.Defs

/-!
# Integers of a listing

An integer is read as the number that its digits stand for, if that is below
2^64, as a 64-bit word with the integer's sign.
-/

namespace Dalvik.Listing

def digitValue (c : Char) : Nat :=
  (Text.hexDigit? c).getD 0

def IsDigit (base : Nat) (c : Char) : Prop :=
  Text.hexDigit? c = some (digitValue c) ∧ digitValue c < base

instance (base : Nat) (c : Char) : Decidable (IsDigit base c) :=
  inferInstanceAs (Decidable (_ ∧ _))

structure Numeral (base : Nat) where
  digits : List Char
  nonempty : digits ≠ []
  each : ∀ c ∈ digits, IsDigit base c

/-- The number that digits stand for, the last digit being the lowest. -/
def Numeral.value {base : Nat} (numeral : Numeral base) : Nat :=
  Nat.ofDigits base (numeral.digits.reverse.map digitValue)

/-- An integer without its sign. -/
inductive Magnitude where
  | decimal (numeral : Numeral 10)
  | hexadecimal (numeral : Numeral 16)

namespace Magnitude

def chars : Magnitude → List Char
  | .decimal numeral => numeral.digits
  | .hexadecimal numeral => '0' :: 'x' :: numeral.digits

def value : Magnitude → Nat
  | .decimal numeral => numeral.value
  | .hexadecimal numeral => numeral.value

end Magnitude

/-- An integer as it is written: a sign, digits and size letters. -/
structure Integer where
  negative : Bool
  magnitude : Magnitude
  letters : List Char
  sized : ∀ c ∈ letters, isSizeLetter c = true

namespace Integer

def chars (integer : Integer) : List Char :=
  (if integer.negative then ['-'] else []) ++ (integer.magnitude.chars ++ integer.letters)

def value (integer : Integer) : Int :=
  if integer.negative then -integer.magnitude.value else integer.magnitude.value

end Integer

/-! ## Digits -/

variable {base : Nat}

theorem readDigits_eq {digits : List Char} (each : ∀ c ∈ digits, IsDigit base c) (start : Nat) :
    readDigits base start digits =
      some (start * base ^ digits.length + Nat.ofDigits base (digits.reverse.map digitValue)) := by
  induction digits generalizing start with
  | nil => simp [readDigits]
  | cons c digits ih =>
      obtain ⟨⟨isDigit, small⟩, others⟩ := List.forall_mem_cons.mp each
      rw [readDigits, isDigit]
      simp only [if_pos small]
      rw [ih others, List.reverse_cons, List.map_append, Nat.ofDigits_append, List.length_map,
        List.length_reverse, List.length_cons, pow_succ, List.map_singleton, Nat.ofDigits_singleton]
      congr 1
      ring

/-- Only digits are read. -/
theorem isDigit_of_readDigits {digits : List Char} {start value : Nat}
    (success : readDigits base start digits = some value) : ∀ c ∈ digits, IsDigit base c := by
  induction digits generalizing start with
  | nil => exact List.forall_mem_nil _
  | cons c digits ih =>
      rw [readDigits] at success
      split at success
      · rename_i digit isDigit
        split at success
        · rename_i small
          have known : digitValue c = digit := by rw [digitValue, isDigit, Option.getD_some]
          exact List.forall_mem_cons.mpr ⟨⟨by rw [isDigit, known], by rwa [known]⟩, ih success⟩
        · cases success
      · cases success

def decimalDigits : List Char := ['0', '1', '2', '3', '4', '5', '6', '7', '8', '9']

def hexLetters : List Char := ['a', 'b', 'c', 'd', 'e', 'f', 'A', 'B', 'C', 'D', 'E', 'F']

def sizeLetters : List Char := ['L', 'l', 't', 'T', 's', 'S']

/-- Characters from one to another are found by their numbers. -/
theorem exists_toNat_of_range {first last c : Char} (range : first ≤ c ∧ c ≤ last) :
    ∃ number, first.toNat ≤ number ∧ number < last.toNat + 1 ∧ Char.ofNat number = c :=
  ⟨c.toNat, range.1, Nat.lt_succ_of_le range.2, Char.ofNat_toNat c⟩

theorem IsDigit.mem {c : Char} (isDigit : IsDigit base c) : c ∈ decimalDigits ++ hexLetters := by
  have known := isDigit.1
  unfold Text.hexDigit? at known
  split at known
  · obtain ⟨number, least, most, rfl⟩ := exists_toNat_of_range ‹_›
    exact (show ∀ number < 58, 48 ≤ number → Char.ofNat number ∈ decimalDigits ++ hexLetters by
      decide) number most least
  split at known
  · obtain ⟨number, least, most, rfl⟩ := exists_toNat_of_range ‹_›
    exact (show ∀ number < 103, 97 ≤ number → Char.ofNat number ∈ decimalDigits ++ hexLetters by
      decide) number most least
  split at known
  · obtain ⟨number, least, most, rfl⟩ := exists_toNat_of_range ‹_›
    exact (show ∀ number < 71, 65 ≤ number → Char.ofNat number ∈ decimalDigits ++ hexLetters by
      decide) number most least
  · cases known

theorem IsDigit.mem_decimal {c : Char} (isDigit : IsDigit 10 c) : c ∈ decimalDigits :=
  (show ∀ c ∈ decimalDigits ++ hexLetters, digitValue c < 10 → c ∈ decimalDigits from
    forall_mem_of_all (by decide)) c isDigit.mem isDigit.2

theorem isSizeLetter_iff {c : Char} : isSizeLetter c = true ↔ c ∈ sizeLetters := by
  simp [isSizeLetter, sizeLetters, or_assoc]

/-- An unsigned number has digits, behind a plus sign or not. -/
theorem mem_of_readUnsigned {bound value : Nat} {text : List Char}
    (success : readUnsigned base bound text = some value) :
    ∀ c ∈ text, c ∈ '+' :: (decimalDigits ++ hexLetters) := by
  have read : ∀ digits : List Char,
      (if digits.isEmpty then none else (readDigits base 0 digits).filter (· < bound)) = some value →
        ∀ c ∈ digits, c ∈ '+' :: (decimalDigits ++ hexLetters) := by
    intro digits success c member
    split at success
    · cases success
    · obtain ⟨isRead, -⟩ := Option.filter_eq_some_iff.mp success
      exact List.mem_cons_of_mem _ (isDigit_of_readDigits isRead c member).mem
  unfold readUnsigned at success
  split at success
  · exact List.forall_mem_cons.mpr ⟨List.mem_cons_self, read _ success⟩
  · exact read _ success

/-! ## Reading -/

/-- Size letters are taken off digits. -/
theorem dropSizeLetters_append {digits letters : List Char} (each : ∀ c ∈ digits, IsDigit base c)
    (sized : ∀ c ∈ letters, isSizeLetter c = true) : dropSizeLetters (digits ++ letters) = digits := by
  have kept : digits.reverse.dropWhile isSizeLetter = digits.reverse := by
    refine List.dropWhile_eq_self_iff.mpr fun positive isLetter => ?_
    have isDigit := each _ (List.mem_reverse.mp (List.getElem_mem positive))
    exact (show ∀ c ∈ decimalDigits ++ hexLetters, ¬isSizeLetter c = true from
      forall_mem_of_all (by decide)) _ isDigit.mem isLetter
  rw [dropSizeLetters, List.reverse_append,
    List.dropWhile_append_of_pos fun c member => sized c (List.mem_reverse.mp member), kept,
    List.reverse_reverse]

theorem readUnsigned_digits (numeral : Numeral base) (bound : Nat) :
    readUnsigned base bound numeral.digits =
      if numeral.value < bound then some numeral.value else none := by
  obtain ⟨c, rest, isDigits⟩ := List.exists_cons_of_ne_nil numeral.nonempty
  have unmarked : c ≠ '+' := by
    rintro rfl
    have isDigit := numeral.each '+' (isDigits ▸ List.mem_cons_self)
    exact absurd isDigit.mem (by decide)
  have value := readDigits_eq numeral.each 0
  rw [Nat.zero_mul, Nat.zero_add] at value
  change readDigits base 0 numeral.digits = some numeral.value at value
  have whole : readUnsigned base bound numeral.digits =
      (readDigits base 0 numeral.digits).filter (· < bound) := by
    rw [isDigits, readUnsigned]
    · rfl
    · exact fun others same => unmarked (List.cons.inj same).1
  rw [whole, value, Option.filter_some]
  simp only [decide_eq_true_eq]

/-- A 64-bit number of either sign. -/
def Integer.literal? (integer : Integer) : Option Literal :=
  if integer.magnitude.value < span 64 then
    some (.int (signedWord integer.negative integer.magnitude.value))
  else none

theorem dropMark?_eq_none {lower upper : Char} {text : List Char}
    (without : lower ∉ text ∧ upper ∉ text) : dropMark? lower upper text = none := by
  unfold dropMark?
  split
  · rename_i c last
    have member := List.mem_of_getLast? last
    refine if_neg ?_
    rintro (rfl | rfl)
    · exact without.1 member
    · exact without.2 member
  · rfl

/-- The characters of a decimal number. -/
theorem Numeral.mem_append (numeral : Numeral 10) {letters : List Char}
    (sized : ∀ c ∈ letters, isSizeLetter c = true) :
    ∀ c ∈ numeral.digits ++ letters, c ∈ decimalDigits ++ sizeLetters := by
  intro c member
  rcases List.mem_append.mp member with isDigit | isLetter
  · exact List.mem_append_left _ (numeral.each c isDigit).mem_decimal
  · exact List.mem_append_right _ (isSizeLetter_iff.mp (sized c isLetter))

/-- Decimal digits and size letters are no floating-point number. -/
theorem readDecimalLiteral_digits (negative : Bool) (numeral : Numeral 10) {letters : List Char}
    (sized : ∀ c ∈ letters, isSizeLetter c = true) :
    readDecimalLiteral negative (numeral.digits ++ letters) =
      if numeral.value < span 64 then some (.int (signedWord negative numeral.value)) else none := by
  have plain := numeral.mem_append sized
  have without : ∀ c, c ∉ decimalDigits ++ sizeLetters → c ∉ numeral.digits ++ letters :=
    fun c other member => other (plain c member)
  have float : dropMark? 'f' 'F' (numeral.digits ++ letters) = none :=
    dropMark?_eq_none ⟨without _ (by decide), without _ (by decide)⟩
  have double : dropMark? 'd' 'D' (numeral.digits ++ letters) = none :=
    dropMark?_eq_none ⟨without _ (by decide), without _ (by decide)⟩
  have fraction : (numeral.digits ++ letters).any (fun c => c == '.' || c == 'e' || c == 'E') =
      false := by
    refine List.any_eq_false.mpr fun c member => ?_
    exact (show ∀ c ∈ decimalDigits ++ sizeLetters, ¬(c == '.' || c == 'e' || c == 'E') = true from
      forall_mem_of_all (by decide)) c (plain c member)
  have special : readSpecial (numeral.digits ++ letters) = none := by
    have infinity : numeral.digits ++ letters ≠ "Infinity".toList := fun same =>
      without 'I' (by decide) (by rw [same]; decide)
    have nan : numeral.digits ++ letters ≠ "NaN".toList := fun same =>
      without 'N' (by decide) (by rw [same]; decide)
    rw [readSpecial, if_neg infinity, if_neg nan]
  rw [readDecimalLiteral, float, double]
  simp only [fraction, special, Option.isSome_none, Bool.or_self, Bool.false_eq_true, if_false]
  rw [dropSizeLetters_append numeral.each sized, readUnsigned_digits, apply_ite (Option.map _)]
  rfl

/-- A magnitude is read with a sign if it has 64 bits. -/
theorem readMagnitude_chars (negative : Bool) (magnitude : Magnitude) {letters : List Char}
    (sized : ∀ c ∈ letters, isSizeLetter c = true) :
    readMagnitude negative (magnitude.chars ++ letters) =
      if magnitude.value < span 64 then some (.int (signedWord negative magnitude.value))
      else none := by
  cases magnitude with
  | hexadecimal numeral =>
      change (readUnsigned 16 (span 64) (dropSizeLetters (numeral.digits ++ letters))).map _ = _
      rw [dropSizeLetters_append numeral.each sized, readUnsigned_digits, apply_ite (Option.map _)]
      rfl
  | decimal numeral =>
      change readMagnitude negative (numeral.digits ++ letters) = _
      have noMark : ∀ c ∉ decimalDigits ++ sizeLetters, ∀ first rest,
          numeral.digits ++ letters = first :: c :: rest → False := by
        intro c other first rest same
        exact other (numeral.mem_append sized c (same ▸ by simp))
      rw [readMagnitude, readDecimalLiteral_digits negative numeral sized]
      · rfl
      · exact fun rest => noMark 'x' (by decide) '0' rest
      · exact fun rest => noMark 'X' (by decide) '0' rest

/-- A magnitude starts with a decimal digit. -/
theorem Magnitude.exists_digit (magnitude : Magnitude) :
    ∃ c ∈ decimalDigits, ∃ rest, magnitude.chars = c :: rest := by
  cases magnitude with
  | hexadecimal numeral => exact ⟨'0', by decide, _, rfl⟩
  | decimal numeral =>
      obtain ⟨c, rest, isDigits⟩ := List.exists_cons_of_ne_nil numeral.nonempty
      exact ⟨c, (numeral.each c (isDigits ▸ List.mem_cons_self)).mem_decimal, rest, isDigits⟩

/-- An integer is read with its sign if its magnitude has 64 bits. -/
theorem readLiteral_chars (integer : Integer) : readLiteral integer.chars = integer.literal? := by
  obtain ⟨negative, magnitude, letters, sized⟩ := integer
  cases negative with
  | true => exact readMagnitude_chars true magnitude sized
  | false =>
      obtain ⟨c, isDigit, rest, opens⟩ := magnitude.exists_digit
      have unsigned : ∀ rest, magnitude.chars ++ letters = '-' :: rest → False := by
        intro others same
        rw [opens, List.cons_append] at same
        obtain ⟨rfl, -⟩ := List.cons.inj same
        exact absurd isDigit (by decide)
      change readLiteral (magnitude.chars ++ letters) = _
      rw [readLiteral]
      · exact readMagnitude_chars false magnitude sized
      · exact unsigned

/-! ## Words -/

/-- A word is the integer modulo 2^64. -/
theorem toInt_signedWord (negative : Bool) (magnitude : Nat) :
    (signedWord negative magnitude).toInt =
      (if negative then -(magnitude : Int) else magnitude).bmod (2 ^ 64) := by
  cases negative with
  | false => exact Int64.toInt_ofNat'
  | true =>
      change (-Int64.ofNat magnitude).toInt = (-(magnitude : Int)).bmod (2 ^ 64)
      rw [Int64.toInt_neg, Int64.toInt_ofNat']
      exact Int.bmod_neg_bmod

/-- Integers of less than 64 bits and a sign are words, congruent to them. -/
theorem Integer.exists_word (integer : Integer)
    (short : -(2 ^ 64) < integer.value ∧ integer.value < 2 ^ 64) :
    ∃ word, integer.literal? = some (.int word) ∧ word.toInt = integer.value.bmod (2 ^ 64) := by
  have small : integer.magnitude.value < span 64 := by
    change integer.magnitude.value < 2 ^ 64
    unfold value at short
    split at short <;> omega
  exact ⟨_, if_pos small, toInt_signedWord _ _⟩

/-- Other integers are no literals. -/
theorem Integer.literal?_of_long (integer : Integer)
    (long : ¬(-(2 ^ 64) < integer.value ∧ integer.value < 2 ^ 64)) : integer.literal? = none := by
  refine if_neg fun small => long ?_
  change integer.magnitude.value < 2 ^ 64 at small
  unfold value
  split <;> omega

/-- A range of as many signed or unsigned numbers as fit some bits. -/
def InRange (bits : Nat) (value : Int) : Prop :=
  -(2 ^ (bits - 1)) ≤ value ∧ value < 2 ^ bits

instance (bits : Nat) (value : Int) : Decidable (InRange bits value) :=
  inferInstanceAs (Decidable (_ ∧ _))

/-- Integers of 64 bits and a sign that are 2^64 away from one in range. -/
def Wraps (bits : Nat) (value : Int) : Prop :=
  (-(2 ^ 64) < value ∧ value < 2 ^ 64) ∧ (InRange bits (value + 2 ^ 64) ∨ InRange bits (value - 2 ^ 64))

theorem inRange_or_wraps_64 {value : Int} :
    InRange 64 value ∨ Wraps 64 value ↔ -(2 ^ 64) < value ∧ value < 2 ^ 64 := by
  simp only [InRange, Wraps]
  omega

theorem inRange_or_wraps_32 {value : Int} :
    InRange 32 value ∨ Wraps 32 value ↔
      (-(2 ^ 64) < value ∧ value < 2 ^ 64) ∧ InRange 32 (value.bmod (2 ^ 64)) := by
  simp only [InRange, Wraps, Int.bmod_def]
  omega

end Dalvik.Listing
