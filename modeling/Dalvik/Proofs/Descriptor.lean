import Dalvik.Descriptor
import Dalvik.Proofs.Scanning
import Dalvik.Proofs.Success

/-!
# Cutting descriptor lists

A list of descriptors is cut by the bytes of its text: behind the first letter
after the dimensions, or behind the first semicolon for a class.  A cut is
inside of a character exactly where a letter is due and another character
stands.
-/

namespace Dalvik

namespace Descriptor

def primitiveLetters : List Char := ['Z', 'B', 'S', 'C', 'I', 'J', 'F', 'D']

/-- A text that is one descriptor, as it is cut from a list. -/
inductive Written : List Char → Prop where
  | void : Written ['V']
  | primitive {dimensions : Nat} {letter : Char} (few : dimensions < 255)
      (isLetter : letter ∈ primitiveLetters) : Written (List.replicate dimensions '[' ++ [letter])
  | object {dimensions : Nat} {name : List Char} (few : dimensions < 255) (named : name ≠ [])
      (whole : ';' ∉ name) : Written (List.replicate dimensions '[' ++ 'L' :: (name ++ [';']))

/-- Where the first descriptor of a list ends, counted in bytes. -/
def firstOffset (bytes : List UInt8) : Option Nat :=
  let dimensions := (bytes.takeWhile (· == byteOf '[')).length
  match bytes[dimensions]? with
  | none => none
  | some letter =>
      if letter = byteOf 'L' then
        if byteOf ';' ∈ bytes then some ((bytes.takeWhile (· != byteOf ';')).length + 1) else none
      else some (dimensions + 1)

/-- A list of descriptors with a character of several bytes where a letter is due. -/
inductive Splits : List Char → Prop where
  | here {dimensions : Nat} {c : Char} {rest : List Char} (wide : 0x80 ≤ c.toNat) :
      Splits (List.replicate dimensions '[' ++ c :: rest)
  | later {first rest : List Char} (written : Written first) (more : Splits rest) :
      Splits (first ++ rest)

/-! ## Dimensions -/

variable {dimensions : Nat} {list tail rest : List Char}

abbrev Undimensioned (text : List Char) : Prop :=
  Stops (fun c => decide (c = '[')) text

theorem takeWhile_dimensions (bare : Undimensioned tail) :
    (List.replicate dimensions '[' ++ tail).takeWhile (· = '[') = List.replicate dimensions '[' :=
  takeWhile_of_stops (fun _ member => decide_eq_true (List.eq_of_mem_replicate member)) bare

theorem dropWhile_dimensions (bare : Undimensioned tail) :
    (List.replicate dimensions '[' ++ tail).dropWhile (· = '[') = tail :=
  dropWhile_of_stops (fun _ member => decide_eq_true (List.eq_of_mem_replicate member)) bare

theorem undimensioned_cons {c : Char} (other : c ≠ '[') (rest : List Char) :
    Undimensioned (c :: rest) := by
  intro first isFirst
  obtain rfl := Option.some.inj isFirst
  exact decide_eq_false other

/-- Every text is dimensions and a rest without any. -/
theorem exists_dimensions (text : List Char) :
    ∃ dimensions tail, Undimensioned tail ∧ text = List.replicate dimensions '[' ++ tail := by
  have brackets : text.takeWhile (fun c => decide (c = '[')) =
      List.replicate (text.takeWhile (fun c => decide (c = '['))).length '[' := by
    refine List.eq_replicate_of_mem fun c member => ?_
    simpa using List.mem_takeWhile_imp member
  have bare := stops_dropWhile (fun c => decide (c = '[')) text
  refine ⟨(text.takeWhile fun c => decide (c = '[')).length, _, bare, ?_⟩
  rw [← brackets, List.takeWhile_append_dropWhile]

theorem ofChars?_dimensions (bare : Undimensioned tail) :
    ofChars? (List.replicate dimensions '[' ++ tail) =
      if List.replicate dimensions '[' ++ tail = ['V'] then some .void
      else if 255 ≤ dimensions then none
      else (ofScalarChars? tail).map fun scalar =>
        if dimensions = 0 then scalar else .array dimensions scalar := by
  unfold ofChars?
  dsimp only
  rw [takeWhile_dimensions bare, dropWhile_dimensions bare, List.length_replicate]

/-! ## Cutting off the first descriptor -/

theorem firstLength_nothing (list : List Char) (dimensions : Nat) :
    firstLength list (List.replicate dimensions '[') =
      .error (.conversion (String.ofList list) .descriptorList) := by
  have bare : Undimensioned [] := nofun
  rw [← List.append_nil (List.replicate dimensions '['), firstLength, dropWhile_dimensions bare]

theorem firstLength_class (list name : List Char) (dimensions : Nat) :
    firstLength list (List.replicate dimensions '[' ++ 'L' :: name) =
      if ';' ∈ name then .ok (dimensions + (name.takeWhile (· ≠ ';')).length + 2)
      else .error (.conversion (String.ofList list) .descriptorList) := by
  have bare := undimensioned_cons (show 'L' ≠ '[' by decide) name
  rw [firstLength, takeWhile_dimensions bare, dropWhile_dimensions bare, List.length_replicate]
  rfl

theorem firstLength_letter (list rest : List Char) (dimensions : Nat) {letter : Char}
    (notClass : letter ≠ 'L') (notDimension : letter ≠ '[') :
    firstLength list (List.replicate dimensions '[' ++ letter :: rest) =
      if letter.toNat < 0x80 then .ok (dimensions + 1) else .error .insideCharacter := by
  have bare := undimensioned_cons notDimension rest
  rw [firstLength, takeWhile_dimensions bare, dropWhile_dimensions bare, List.length_replicate]
  split
  · rename_i empty
    cases empty
  · rename_i same
    exact absurd (List.cons.inj same).1 notClass
  · rename_i same
    obtain ⟨rfl, -⟩ := List.cons.inj same
    rfl

/-! ## Single descriptors -/

theorem primitiveLetters_spec : ∀ letter ∈ primitiveLetters,
    letter ≠ 'L' ∧ letter ≠ '[' ∧ letter.toNat < 0x80 ∧ letter ≠ 'V' ∧
      (ofScalarChars? [letter]).isSome = true :=
  forall_mem_of_all (by decide)

/-- A class name and its semicolon are cut at the semicolon. -/
theorem takeWhile_name {name : List Char} (whole : ';' ∉ name) (rest : List Char) :
    (name ++ ';' :: rest).takeWhile (· ≠ ';') = name := by
  refine takeWhile_of_stops (fun c member => ?_) fun c isFirst => ?_
  · exact decide_eq_true fun same => whole (same ▸ member)
  · obtain rfl := Option.some.inj isFirst
    rfl

theorem firstLength_name (list : List Char) (dimensions : Nat) {name : List Char}
    (whole : ';' ∉ name) (more : List Char) :
    firstLength list (List.replicate dimensions '[' ++ 'L' :: (name ++ [';']) ++ more) =
      .ok (List.replicate dimensions '[' ++ 'L' :: (name ++ [';'])).length := by
  rw [List.append_assoc, List.cons_append, List.append_assoc, List.singleton_append,
    firstLength_class, if_pos (by simp), takeWhile_name whole]
  simp only [List.length_append, List.length_replicate, List.length_cons, List.length_nil]
  rfl

theorem firstLength_ascii (list : List Char) (dimensions : Nat) {letter : Char}
    (notClass : letter ≠ 'L') (notDimension : letter ≠ '[') (ascii : letter.toNat < 0x80)
    (more : List Char) :
    firstLength list (List.replicate dimensions '[' ++ [letter] ++ more) =
      .ok (List.replicate dimensions '[' ++ [letter]).length := by
  rw [List.append_assoc, List.singleton_append,
    firstLength_letter list more dimensions notClass notDimension, if_pos ascii,
    List.length_append, List.length_replicate, List.length_singleton]

/-- What is written alone is cut off from what follows. -/
theorem firstLength_written {first : List Char} (written : Written first) (list rest : List Char) :
    firstLength list (first ++ rest) = .ok first.length := by
  cases written with
  | void => rfl
  | @primitive dimensions letter few isLetter =>
      obtain ⟨notClass, notDimension, ascii, -⟩ := primitiveLetters_spec letter isLetter
      exact firstLength_ascii list dimensions notClass notDimension ascii rest
  | @object dimensions name few named whole => exact firstLength_name list dimensions whole rest

theorem read_written {first : List Char} (written : Written first) :
    ∃ type, read first = .ok type := by
  have known : (ofChars? first).isSome = true := by
    cases written with
    | void => rfl
    | @primitive dimensions letter few isLetter =>
        obtain ⟨-, notDimension, -, -, scalar⟩ := primitiveLetters_spec letter isLetter
        rw [ofChars?_dimensions (undimensioned_cons notDimension [])]
        split
        · rfl
        · rw [if_neg (Nat.not_le_of_lt few), Option.isSome_map, scalar]
    | @object dimensions name few named whole =>
        have scalar : (ofScalarChars? ('L' :: (name ++ [';']))).isSome = true := by
          obtain ⟨c, others, rfl⟩ := List.exists_cons_of_ne_nil named
          have long : 2 ≤ (c :: others ++ [';']).length ∧
              (c :: others ++ [';']).getLast? = some ';' :=
            ⟨by simp, List.getLast?_concat⟩
          change (if 2 ≤ (c :: others ++ [';']).length ∧
            (c :: others ++ [';']).getLast? = some ';' then _ else none : Option Descriptor).isSome = true
          rw [if_pos long]
          rfl
        rw [ofChars?_dimensions (undimensioned_cons (by decide) _)]
        split
        · rfl
        · rw [if_neg (Nat.not_le_of_lt few), Option.isSome_map, scalar]
  obtain ⟨type, isType⟩ := Option.isSome_iff_exists.mp known
  exact ⟨type, by rw [read, isType]⟩

/-- What a type without dimensions is written as. -/
theorem ofScalarChars?_eq_some {type : Descriptor} (isScalar : ofScalarChars? tail = some type) :
    (∃ letter ∈ primitiveLetters, tail = [letter]) ∨
      ∃ name, name ≠ [] ∧ tail = 'L' :: (name ++ [';']) := by
  unfold ofScalarChars? at isScalar
  split at isScalar
  case h_9 name =>
    split at isScalar
    · rename_i long
      obtain ⟨long, ends⟩ := long
      obtain ⟨front, rfl⟩ := List.getLast?_eq_some_iff.mp ends
      refine .inr ⟨front, ?_, rfl⟩
      rintro rfl
      exact absurd long (by decide)
    · cases isScalar
  case h_10 => cases isScalar
  all_goals exact .inl ⟨_, by decide, rfl⟩

/-- What is read without `void` has few dimensions and a type. -/
theorem few_of_read {type : Descriptor} (bare : Undimensioned tail)
    (isRead : read (List.replicate dimensions '[' ++ tail) = .ok type) :
    List.replicate dimensions '[' ++ tail = ['V'] ∨
      dimensions < 255 ∧ ∃ scalar, ofScalarChars? tail = some scalar := by
  unfold read at isRead
  rw [ofChars?_dimensions bare] at isRead
  split at isRead
  · rename_i known
    split at known
    · exact .inl ‹_›
    split at known
    · cases known
    · obtain ⟨scalar, isScalar, -⟩ := Option.map_eq_some_iff.mp known
      exact .inr ⟨by omega, scalar, isScalar⟩
  · cases isRead

/-- What a list starts with: nothing but dimensions, a class with or without its end, or another
letter. -/
theorem exists_first (rest : List Char) :
    (∃ dimensions, rest = List.replicate dimensions '[') ∨
    (∃ dimensions name, ';' ∉ name ∧ rest = List.replicate dimensions '[' ++ 'L' :: name) ∨
    (∃ dimensions name more, ';' ∉ name ∧
      rest = List.replicate dimensions '[' ++ 'L' :: (name ++ [';']) ++ more) ∨
    (∃ dimensions letter more, letter ≠ 'L' ∧ letter ≠ '[' ∧
      rest = List.replicate dimensions '[' ++ letter :: more) := by
  obtain ⟨dimensions, tail, bare, rfl⟩ := exists_dimensions rest
  cases tail with
  | nil => exact .inl ⟨dimensions, List.append_nil _⟩
  | cons letter more =>
      by_cases isClass : letter = 'L'
      · subst isClass
        by_cases ends : ';' ∈ more
        · obtain ⟨name, others, rfl, whole⟩ := List.eq_append_cons_of_mem ends
          exact .inr (.inr (.inl ⟨dimensions, name, others, whole, by simp⟩))
        · exact .inr (.inl ⟨dimensions, more, ends, rfl⟩)
      · have notDimension : letter ≠ '[' := of_decide_eq_false (bare letter rfl)
        exact .inr (.inr (.inr ⟨dimensions, letter, more, isClass, notDimension, rfl⟩))

/-- What is cut off and read is written alone. -/
theorem exists_written {length : Nat} {type : Descriptor} (cut : firstLength list rest = .ok length)
    (isRead : read (rest.take length) = .ok type) :
    ∃ first more, Written first ∧ rest = first ++ more ∧ first.length = length := by
  rcases exists_first rest with ⟨dimensions, rfl⟩ | ⟨dimensions, name, whole, rfl⟩ |
    ⟨dimensions, name, more, whole, rfl⟩ | ⟨dimensions, letter, more, notClass, notDimension, rfl⟩
  · rw [firstLength_nothing] at cut
    cases cut
  · rw [firstLength_class, if_neg whole] at cut
    cases cut
  · rw [firstLength_name list dimensions whole] at cut
    obtain rfl := Except.ok.inj cut
    rw [List.take_left] at isRead
    refine ⟨_, more, ?_, rfl, rfl⟩
    rcases few_of_read (undimensioned_cons (by decide) _) isRead with isVoid | ⟨few, _, scalar⟩
    · cases dimensions <;> cases isVoid
    · rcases ofScalarChars?_eq_some scalar with ⟨letter, isLetter, same⟩ | ⟨_, named, same⟩
      · simp at same
      · obtain rfl := List.append_cancel_right (List.cons.inj same).2
        exact .object few named whole
  · have isLetter := cut
    rw [firstLength_letter list more dimensions notClass notDimension] at isLetter
    split at isLetter
    · rename_i ascii
      have isFirst : List.replicate dimensions '[' ++ letter :: more =
          List.replicate dimensions '[' ++ [letter] ++ more := by simp
      rw [isFirst, firstLength_ascii list dimensions notClass notDimension ascii] at cut
      obtain rfl := Except.ok.inj cut
      rw [isFirst, List.take_left] at isRead
      refine ⟨_, more, ?_, isFirst, rfl⟩
      rcases few_of_read (undimensioned_cons notDimension _) isRead with isVoid | ⟨few, _, scalar⟩
      · rw [isVoid]
        exact .void
      · rcases ofScalarChars?_eq_some scalar with ⟨other, isLetter, same⟩ | ⟨name, -, same⟩
        · obtain rfl := List.singleton_inj.mp same
          exact .primitive few isLetter
        · exact absurd (List.cons.inj same).1 notClass
    · cases isLetter

/-- Where no sound cut is. -/
theorem firstLength_inside :
    firstLength list rest = .error .insideCharacter ↔
      ∃ dimensions c more, 0x80 ≤ Char.toNat c ∧ rest = List.replicate dimensions '[' ++ c :: more := by
  constructor
  · intro inside
    rcases exists_first rest with ⟨dimensions, rfl⟩ | ⟨dimensions, name, whole, rfl⟩ |
      ⟨dimensions, name, more, whole, rfl⟩ | ⟨dimensions, letter, more, notClass, notDimension, rfl⟩
    · rw [firstLength_nothing] at inside
      cases inside
    · rw [firstLength_class, if_neg whole] at inside
      cases inside
    · rw [firstLength_name list dimensions whole] at inside
      cases inside
    · rw [firstLength_letter list more dimensions notClass notDimension] at inside
      split at inside
      · cases inside
      · exact ⟨dimensions, letter, more, by omega, rfl⟩
  · rintro ⟨dimensions, c, more, wide, rfl⟩
    have notClass : c ≠ 'L' := by
      rintro rfl
      exact absurd wide (by decide)
    have notDimension : c ≠ '[' := by
      rintro rfl
      exact absurd wide (by decide)
    rw [firstLength_letter list more dimensions notClass notDimension,
      if_neg (Nat.not_lt_of_le wide)]

/-! ## Cuts in bytes -/

theorem length_bytesOf_dimensions (dimensions : Nat) :
    (bytesOf (List.replicate dimensions '[')).length = dimensions := by
  have ascii : ∀ c ∈ List.replicate dimensions '[', c.toNat < 0x80 := by
    intro c member
    rw [List.eq_of_mem_replicate member]
    decide
  exact (cutAt_ascii _ [] ascii).2.trans List.length_replicate

/-- The first letter after the dimensions is found in the bytes. -/
theorem firstOffset_dimensions (bare : Undimensioned tail) :
    firstOffset (bytesOf (List.replicate dimensions '[' ++ tail)) =
      match (bytesOf tail).head? with
      | none => none
      | some letter =>
          if letter = byteOf 'L' then
            if ';' ∈ tail then
              some ((bytesOf (List.replicate dimensions '[' ++ tail.takeWhile (· ≠ ';'))).length + 1)
            else none
          else some (dimensions + 1) := by
  have count : ((bytesOf (List.replicate dimensions '[' ++ tail)).takeWhile
      (· == byteOf '[')).length = dimensions := by
    rw [takeWhile_mark (by decide), takeWhile_dimensions bare, length_bytesOf_dimensions]
  have letter : (bytesOf (List.replicate dimensions '[' ++ tail))[dimensions]? =
      (bytesOf tail).head? := by
    rw [bytesOf_append, List.getElem?_append_right (Nat.le_of_eq (length_bytesOf_dimensions _)),
      length_bytesOf_dimensions, Nat.sub_self, List.head?_eq_getElem?]
  have ended : (List.replicate dimensions '[' ++ tail).takeWhile (· ≠ ';') =
      List.replicate dimensions '[' ++ tail.takeWhile (· ≠ ';') := by
    refine List.takeWhile_append_of_pos fun c member => ?_
    rw [List.eq_of_mem_replicate member]
    rfl
  have inTail : ';' ∈ List.replicate dimensions '[' ++ tail ↔ ';' ∈ tail := by
    simp
  unfold firstOffset
  dsimp only
  simp only [count, letter, byteOf_mem_bytesOf (show Char.toNat ';' < 0x80 by decide),
    takeWhile_notMark (show Char.toNat ';' < 0x80 by decide), ended, inTail]

theorem firstOffset_class (dimensions : Nat) (name : List Char) :
    firstOffset (bytesOf (List.replicate dimensions '[' ++ 'L' :: name)) =
      if ';' ∈ name then
        some ((bytesOf (List.replicate dimensions '[' ++ 'L' :: name.takeWhile (· ≠ ';'))).length + 1)
      else none := by
  have ends : ';' ∈ 'L' :: name ↔ ';' ∈ name := by simp
  have letter : (bytesOf ('L' :: name)).head? = some (byteOf 'L') := by
    rw [bytesOf_cons, utf8EncodeChar_of_ascii (by decide)]
    rfl
  rw [firstOffset_dimensions (undimensioned_cons (by decide) name), letter]
  simp only [if_true, ends]
  rfl

theorem firstOffset_letter (dimensions : Nat) {letter : Char} (notClass : letter ≠ 'L')
    (notDimension : letter ≠ '[') (more : List Char) :
    firstOffset (bytesOf (List.replicate dimensions '[' ++ letter :: more)) =
      some (dimensions + 1) := by
  rw [firstOffset_dimensions (undimensioned_cons notDimension more)]
  have positive := length_utf8EncodeChar_pos letter
  cases bytes : String.utf8EncodeChar letter with
  | nil =>
      rw [bytes] at positive
      cases positive
  | cons byte others =>
      have other : byte ≠ byteOf 'L' := by
        rintro rfl
        exact notClass ((byteOf_mem_iff (by decide)).mp (bytes ▸ List.mem_cons_self))
      rw [bytesOf_cons, bytes]
      exact if_neg other

/-- The cut of a list by its bytes is that by its characters, where it is sound. -/
theorem firstLength_bytes (list rest : List Char) :
    match firstOffset (bytesOf rest) with
    | none => firstLength list rest = .error (.conversion (String.ofList list) .descriptorList)
    | some offset =>
        (∃ length, firstLength list rest = .ok length ∧
          CutAt rest offset (rest.take length) (rest.drop length)) ∨
        (¬IsBoundary rest offset ∧ firstLength list rest = .error .insideCharacter) := by
  rcases exists_first rest with ⟨dimensions, rfl⟩ | ⟨dimensions, name, whole, rfl⟩ |
    ⟨dimensions, name, more, whole, rfl⟩ | ⟨dimensions, letter, more, notClass, notDimension, rfl⟩
  · have offset := @firstOffset_dimensions dimensions [] nofun
    rw [List.append_nil] at offset
    rw [offset]
    exact firstLength_nothing list dimensions
  · rw [firstOffset_class, firstLength_class, if_neg whole, if_neg whole]
  · have isRest : List.replicate dimensions '[' ++ 'L' :: (name ++ [';']) ++ more =
        List.replicate dimensions '[' ++ 'L' :: (name ++ ';' :: more) := by simp
    have isFirst : List.replicate dimensions '[' ++ 'L' :: (name ++ [';']) =
        List.replicate dimensions '[' ++ 'L' :: name ++ [';'] := by simp
    have offset : firstOffset
        (bytesOf (List.replicate dimensions '[' ++ 'L' :: (name ++ [';']) ++ more)) =
          some ((bytesOf (List.replicate dimensions '[' ++ 'L' :: name)).length + 1) := by
      rw [isRest, firstOffset_class, if_pos (by simp), takeWhile_name whole]
    rw [offset]
    refine .inl ⟨_, firstLength_name list dimensions whole more,
      (List.take_append_drop _ _).symm, ?_⟩
    rw [List.take_left, isFirst, bytesOf_append, List.length_append]
    rfl
  · rw [firstOffset_letter dimensions notClass notDimension,
      firstLength_letter list more dimensions notClass notDimension]
    have boundary := isBoundary_succ_iff (List.replicate dimensions '[') more letter
    rw [length_bytesOf_dimensions] at boundary
    by_cases ascii : letter.toNat < 0x80
    · have taken : (List.replicate dimensions '[' ++ letter :: more).take (dimensions + 1) =
          List.replicate dimensions '[' ++ [letter] := by
        simp [List.take_append]
      refine .inl ⟨_, if_pos ascii, (List.take_append_drop _ _).symm, ?_⟩
      rw [taken, bytesOf_append, List.length_append, length_bytesOf_dimensions, bytesOf_cons,
        utf8EncodeChar_of_ascii ascii]
      rfl
    · exact .inr ⟨fun sound => ascii (boundary.mp sound), if_neg ascii⟩

theorem Written.length_pos {first : List Char} (written : Written first) : 0 < first.length := by
  cases written <;> simp only [List.length_append, List.length_cons] <;> omega

/-! ## Lists -/

/-- A text is refused, or cut inside of a character. -/
def Refusal (error : CodeError) : Prop :=
  error = .insideCharacter ∨ ∃ source target, error = .conversion source target

theorem refusal_of_read {error : CodeError} (failed : read list = .error error) :
    ∃ source target, error = .conversion source target := by
  unfold read at failed
  split at failed
  · cases failed
  · obtain rfl := Except.error.inj failed
    exact ⟨_, _, rfl⟩

theorem refusal_of_firstLength {error : CodeError} (failed : firstLength list rest = .error error) :
    Refusal error := by
  unfold firstLength at failed
  dsimp only at failed
  split at failed
  · exact .inr ⟨_, _, (Except.error.inj failed).symm⟩
  · split at failed
    · cases failed
    · exact .inr ⟨_, _, (Except.error.inj failed).symm⟩
  · split at failed
    · cases failed
    · exact .inl (Except.error.inj failed).symm

/-- Where reading a list fails. -/
theorem readSome_eq_error {fuel : Nat} {error : CodeError} (nonempty : rest ≠ []) :
    readSome list (fuel + 1) rest = .error error ↔
      firstLength list rest = .error error ∨ ∃ length, firstLength list rest = .ok length ∧
        (read (rest.take length) = .error error ∨ ∃ first, read (rest.take length) = .ok first ∧
          readSome list fuel (rest.drop length) = .error error) := by
  have last : ∀ (first : Descriptor) (others : List Descriptor),
      (pure (first :: others) : Except CodeError (List Descriptor)) ≠ .error error := nofun
  rw [readSome]
  · simp only [bind_eq_error, last, and_false, exists_false, or_false]
  · exact nonempty

theorem refusal_of_readSome {fuel : Nat} {error : CodeError}
    (failed : readSome list fuel rest = .error error) : Refusal error := by
  induction fuel generalizing rest with
  | zero => cases rest <;> cases failed
  | succ fuel ih =>
      by_cases empty : rest = []
      · subst empty
        cases failed
      · rcases (readSome_eq_error empty).mp failed with cut | ⟨length, -, isRead | ⟨first, -, others⟩⟩
        · exact refusal_of_firstLength cut
        · exact .inr (refusal_of_read isRead)
        · exact ih others

theorem Splits.ne_nil (splits : Splits rest) : rest ≠ [] := by
  cases splits with
  | here wide => simp
  | later written more =>
      have positive := written.length_pos
      rintro empty
      rw [(List.append_eq_nil_iff.mp empty).1] at positive
      cases positive

/-- A list is cut inside of a character exactly if it has one where a letter is due. -/
theorem readSome_inside {fuel : Nat} (enough : rest.length ≤ fuel) :
    readSome list fuel rest = .error .insideCharacter ↔ Splits rest := by
  constructor
  · intro failed
    clear enough
    induction fuel generalizing rest with
    | zero => cases rest <;> cases failed
    | succ fuel ih =>
        by_cases empty : rest = []
        · subst empty
          cases failed
        rcases (readSome_eq_error empty).mp failed with cut | ⟨length, cut, isRead | ⟨first, isRead, others⟩⟩
        · obtain ⟨dimensions, c, more, wide, rfl⟩ := firstLength_inside.mp cut
          exact .here wide
        · obtain ⟨source, target, other⟩ := refusal_of_read isRead
          cases other
        · obtain ⟨first, more, written, rfl, isLength⟩ := exists_written cut isRead
          rw [← isLength, List.drop_left] at others
          exact .later written (ih others)
  · intro splits
    induction splits generalizing fuel with
    | @here dimensions c rest wide =>
        cases fuel with
        | zero => simp at enough
        | succ fuel =>
            exact (readSome_eq_error (Splits.here wide).ne_nil).mpr
              (.inl (firstLength_inside.mpr ⟨dimensions, c, rest, wide, rfl⟩))
    | @later first rest written more ih =>
        have positive := written.length_pos
        rw [List.length_append] at enough
        obtain ⟨fewer, rfl⟩ : ∃ fewer, fuel = fewer + 1 := ⟨fuel - 1, by omega⟩
        obtain ⟨type, isRead⟩ := read_written written
        refine (readSome_eq_error (Splits.later written more).ne_nil).mpr
          (.inr ⟨first.length, firstLength_written written list rest, .inr ⟨type, ?_, ?_⟩⟩)
        · rwa [List.take_left]
        · rw [List.drop_left]
          exact ih (by omega)

end Descriptor

namespace Prototype

/-- A prototype whose parameters have a character of several bytes where a letter is due. -/
def Splits (chars : List Char) : Prop :=
  ∃ params ret, chars = '(' :: (params ++ ')' :: ret) ∧ ')' ∉ params ∧ Descriptor.Splits params

/-- Parameters are read up to the first closing parenthesis. -/
theorem read_eq {params ret : List Char} (inner : ')' ∉ params) :
    read ('(' :: (params ++ ')' :: ret)) = do
      let types ← Descriptor.readAll params
      let type ← Descriptor.read ret
      return ⟨types, type⟩ := by
  have stops : Stops (fun c => decide (c ≠ ')')) (')' :: ret) := by
    intro c isFirst
    obtain rfl := Option.some.inj isFirst
    rfl
  have each : ∀ c ∈ params, decide (c ≠ ')') = true := fun c member =>
    decide_eq_true fun same => inner (same ▸ member)
  have closed : ')' ∈ params ++ ')' :: ret := by simp
  rw [read, if_pos closed, takeWhile_of_stops each stops, dropWhile_of_stops each stops]
  rfl

theorem read_inside {chars : List Char} : read chars = .error .insideCharacter ↔ Splits chars := by
  have whole : ∀ {params ret : List Char}, ')' ∉ params →
      (read ('(' :: (params ++ ')' :: ret)) = .error .insideCharacter ↔ Descriptor.Splits params) := by
    intro params ret inner
    rw [read_eq inner, ← Descriptor.readSome_inside (Nat.le_refl params.length)]
    constructor
    · intro failed
      rcases bind_eq_error.mp failed with first | ⟨types, -, rest⟩
      · exact first
      rcases bind_eq_error.mp rest with isRead | ⟨type, -, done⟩
      · obtain ⟨source, target, other⟩ := Descriptor.refusal_of_read isRead
        cases other
      · cases done
    · exact fun first => bind_eq_error.mpr (.inl first)
  constructor
  · intro failed
    have opened := failed
    unfold read at opened
    split at opened
    · rename_i inner
      split at opened
      · rename_i closed
        obtain ⟨params, ret, rfl, inner⟩ := List.eq_append_cons_of_mem closed
        exact ⟨params, ret, rfl, inner, (whole inner).mp failed⟩
      · cases opened
    · cases opened
  · rintro ⟨params, ret, rfl, inner, splits⟩
    exact (whole inner).mpr splits

theorem refusal_of_read {chars : List Char} {error : CodeError} (failed : read chars = .error error) :
    Descriptor.Refusal error := by
  unfold read at failed
  split at failed
  · split at failed
    · rcases bind_eq_error.mp failed with first | ⟨types, -, rest⟩
      · exact Descriptor.refusal_of_readSome first
      rcases bind_eq_error.mp rest with isRead | ⟨type, -, done⟩
      · exact .inr (Descriptor.refusal_of_read isRead)
      · cases done
    · exact .inr ⟨_, _, (Except.error.inj failed).symm⟩
  · exact .inr ⟨_, _, (Except.error.inj failed).symm⟩

end Prototype

end Dalvik
