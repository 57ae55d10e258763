import Dalvik.Proofs.Descriptor

/-!
# Descriptors and their spellings

Reading a text gives a type exactly if the type is regular and is spelled by
the text: no type has two texts and no text is read as a type with another.
For the parameters of a prototype this needs that the cuts of the list are
where one spelling ends, so their class names are without the marks that end a
name and the list.
-/

namespace Dalvik

namespace Descriptor

/-- A type that can be an element: a primitive type, or a class with a name. -/
def isScalar : Descriptor → Bool
  | .void | .array _ _ => false
  | .object name => name ≠ ""
  | _ => true

/-- A type that a text can spell: `void`, a scalar or an array of up to 254 dimensions. -/
def isRegular : Descriptor → Bool
  | .void => true
  | .array dimensions element => 1 ≤ dimensions && dimensions < 255 && element.isScalar
  | type => type.isScalar

/-- A type whose class name, if it has one, is without a character. -/
def avoids (mark : Char) : Descriptor → Bool
  | .object name => mark ∉ name.toList
  | .array _ element => element.avoids mark
  | _ => true

/-- The array of a scalar, or the scalar itself for no dimension. -/
def dimensioned (dimensions : Nat) (scalar : Descriptor) : Descriptor :=
  if dimensions = 0 then scalar else .array dimensions scalar

variable {type scalar : Descriptor} {types : List Descriptor} {text list rest : List Char}
  {dimensions : Nat}

/-! ## Scalars -/

theorem chars_dimensioned (dimensions : Nat) (scalar : Descriptor) :
    (dimensioned dimensions scalar).chars = List.replicate dimensions '[' ++ scalar.chars := by
  cases dimensions with
  | zero => rfl
  | succ fewer => rfl

theorem avoids_dimensioned (mark : Char) (dimensions : Nat) (scalar : Descriptor) :
    (dimensioned dimensions scalar).avoids mark = scalar.avoids mark := by
  cases dimensions with
  | zero => rfl
  | succ fewer => rfl

/-- The regular types are `void` and scalars with few dimensions. -/
theorem isRegular_iff :
    type.isRegular = true ↔ type = .void ∨ ∃ dimensions scalar, dimensions < 255 ∧
      scalar.isScalar = true ∧ type = dimensioned dimensions scalar := by
  constructor
  · intro regular
    cases type with
    | void => exact .inl rfl
    | array dimensions element =>
        obtain ⟨⟨positive, few⟩, scalar⟩ : (1 ≤ dimensions ∧ dimensions < 255) ∧
            element.isScalar = true := by
          simpa [isRegular] using regular
        exact .inr ⟨dimensions, element, few, scalar, (if_neg (Nat.ne_of_gt positive)).symm⟩
    | _ => exact .inr ⟨0, _, by decide, by exact regular, rfl⟩
  · rintro (rfl | ⟨dimensions, scalar, few, isScalar, rfl⟩)
    · rfl
    · cases dimensions with
      | zero =>
          cases scalar with
          | void => rfl
          | array dimensions element => cases isScalar
          | _ => exact isScalar
      | succ fewer => simp [dimensioned, isRegular, few, isScalar]

theorem undimensioned_chars (isScalar : scalar.isScalar = true) : Undimensioned scalar.chars := by
  cases scalar with
  | void => cases isScalar
  | array dimensions element => cases isScalar
  | _ => exact undimensioned_cons (by decide) _

theorem chars_ne_void (isScalar : scalar.isScalar = true) :
    List.replicate dimensions '[' ++ scalar.chars ≠ ['V'] := by
  cases dimensions with
  | zero =>
      cases scalar with
      | void => cases isScalar
      | array dimensions element => cases isScalar
      | _ => exact nofun
  | succ fewer => exact nofun

theorem chars_of_ofScalarChars? (isRead : ofScalarChars? text = some scalar) :
    scalar.isScalar = true ∧ scalar.chars = text := by
  unfold ofScalarChars? at isRead
  split at isRead
  case h_9 name =>
    split at isRead
    · rename_i long
      obtain ⟨long, ends⟩ := long
      obtain ⟨front, rfl⟩ := List.getLast?_eq_some_iff.mp ends
      rw [List.dropLast_concat] at isRead
      obtain rfl := Option.some.inj isRead
      have named : front ≠ [] := by
        rintro rfl
        exact absurd long (by decide)
      refine ⟨decide_eq_true (by simpa [String.ofList_eq_empty_iff] using named), ?_⟩
      rw [chars, String.toList_ofList, List.cons_append]
    · cases isRead
  case h_10 => cases isRead
  all_goals
    obtain rfl := Option.some.inj isRead
    exact ⟨rfl, rfl⟩

theorem ofScalarChars?_chars (isScalar : scalar.isScalar = true) :
    ofScalarChars? scalar.chars = some scalar := by
  cases scalar with
  | void => cases isScalar
  | array dimensions element => cases isScalar
  | object name =>
      have named : name.toList ≠ [] := by
        simpa [Descriptor.isScalar] using isScalar
      have long : 2 ≤ (name.toList ++ [';']).length := by
        have := List.length_pos_iff.mpr named
        rw [List.length_append, List.length_singleton]
        omega
      have ends : (name.toList ++ [';']).getLast? = some ';' := List.getLast?_concat
      have same : String.ofList (name.toList ++ [';']).dropLast = name := by
        rw [List.dropLast_concat, String.ofList_toList]
      have known : ofScalarChars? ('L' :: (name.toList ++ [';'])) =
          some (.object (String.ofList (name.toList ++ [';']).dropLast)) :=
        if_pos ⟨long, ends⟩
      rwa [same] at known
  | _ => rfl

/-! ## Single descriptors -/

/-- A type is read from a text exactly if it is regular and spelled by it. -/
theorem ofChars?_eq_some_iff :
    ofChars? text = some type ↔ type.isRegular = true ∧ type.chars = text := by
  rw [isRegular_iff]
  constructor
  · intro isRead
    obtain ⟨dimensions, tail, bare, rfl⟩ := exists_dimensions text
    rw [ofChars?_dimensions bare] at isRead
    split at isRead
    · rename_i isVoid
      obtain rfl := Option.some.inj isRead
      exact ⟨.inl rfl, isVoid.symm⟩
    split at isRead
    · cases isRead
    · rename_i few
      obtain ⟨scalar, known, rfl⟩ := Option.map_eq_some_iff.mp isRead
      obtain ⟨isScalar, rfl⟩ := chars_of_ofScalarChars? known
      exact ⟨.inr ⟨dimensions, scalar, Nat.lt_of_not_le few, isScalar, rfl⟩,
        chars_dimensioned dimensions scalar⟩
  · rintro ⟨rfl | ⟨dimensions, scalar, few, isScalar, rfl⟩, rfl⟩
    · rfl
    · rw [chars_dimensioned, ofChars?_dimensions (undimensioned_chars isScalar),
        if_neg (chars_ne_void isScalar), if_neg (Nat.not_le_of_lt few),
        ofScalarChars?_chars isScalar]
      rfl

theorem read_eq_ok_iff : read text = .ok type ↔ type.isRegular = true ∧ type.chars = text := by
  rw [← ofChars?_eq_some_iff, read]
  cases ofChars? text with
  | none =>
      constructor
      · intro same
        cases same
      · intro same
        cases same
  | some other => rw [Except.ok.injEq, Option.some.injEq]

/-! ## Marks in a spelling -/

theorem paren_mem_chars : ')' ∈ type.chars ↔ type.avoids ')' = false := by
  induction type with
  | array dimensions element ih => simp [chars, avoids, List.mem_replicate, ih]
  | object name => simp [chars, avoids]
  | _ => decide

/-- What is written alone ends with the only semicolon it may have. -/
theorem count_written (written : Written text) : text.count ';' ≤ 1 := by
  cases written with
  | void => decide
  | @primitive dimensions letter few isLetter =>
      rw [List.count_append, List.count_replicate]
      exact Nat.le_trans (Nat.add_le_add_left List.count_le_length _) (by simp)
  | @object dimensions name few named whole =>
      simp [List.count_replicate, List.count_eq_zero.mpr whole]

theorem avoids_of_count (few : type.chars.count ';' ≤ 1) : type.avoids ';' = true := by
  induction type with
  | array dimensions element ih =>
      rw [chars, List.count_append] at few
      exact ih (Nat.le_trans (Nat.le_add_left _ _) few)
  | object name =>
      have none : ';' ∉ name.toList := by
        simpa [chars, List.count_eq_zero] using few
      exact decide_eq_true none
  | _ => rfl

theorem written_scalar (few : dimensions < 255) (isScalar : scalar.isScalar = true)
    (whole : scalar.avoids ';' = true) :
    Written (List.replicate dimensions '[' ++ scalar.chars) := by
  cases scalar with
  | void => cases isScalar
  | array dimensions element => cases isScalar
  | object name =>
      have named : name.toList ≠ [] := by
        simpa [Descriptor.isScalar] using isScalar
      exact .object few named (of_decide_eq_true whole)
  | _ => exact .primitive few (by decide)

/-- A regular type is cut as it is spelled, unless its name has a semicolon. -/
theorem written_chars (regular : type.isRegular = true) (whole : type.avoids ';' = true) :
    Written type.chars := by
  rcases isRegular_iff.mp regular with rfl | ⟨dimensions, scalar, few, isScalar, rfl⟩
  · exact .void
  · rw [avoids_dimensioned] at whole
    rw [chars_dimensioned]
    exact written_scalar few isScalar whole

/-! ## Lists -/

theorem readSome_nil (list : List Char) (fuel : Nat) : readSome list fuel [] = .ok [] := by
  cases fuel <;> rfl

theorem readSome_eq_ok {fuel : Nat} (nonempty : rest ≠ []) :
    readSome list (fuel + 1) rest = .ok types ↔
      ∃ length first others, firstLength list rest = .ok length ∧
        read (rest.take length) = .ok first ∧
        readSome list fuel (rest.drop length) = .ok others ∧ first :: others = types := by
  rw [readSome]
  · simp only [bind_eq_ok, pure, Except.pure, Except.ok.injEq]
    constructor
    · rintro ⟨length, cut, first, isFirst, others, areOthers, rfl⟩
      exact ⟨length, first, others, cut, isFirst, areOthers, rfl⟩
    · rintro ⟨length, first, others, cut, isFirst, areOthers, rfl⟩
      exact ⟨length, cut, first, isFirst, others, areOthers, rfl⟩
  · exact nonempty

/-- A list is read as the types whose spellings it consists of. -/
theorem readSome_eq_ok_iff {fuel : Nat} (enough : rest.length ≤ fuel) :
    readSome list fuel rest = .ok types ↔
      (∀ type ∈ types, type.isRegular = true ∧ type.avoids ';' = true) ∧
        types.flatMap chars = rest := by
  constructor
  · intro isRead
    induction fuel generalizing rest types with
    | zero =>
        obtain rfl := List.length_eq_zero_iff.mp (Nat.le_zero.mp enough)
        obtain rfl := Except.ok.inj isRead
        exact ⟨nofun, rfl⟩
    | succ fuel ih =>
        by_cases empty : rest = []
        · subst empty
          obtain rfl := Except.ok.inj isRead
          exact ⟨nofun, rfl⟩
        obtain ⟨length, first, others, cut, isFirst, areOthers, rfl⟩ :=
          (readSome_eq_ok empty).mp isRead
        obtain ⟨spelled, more, written, rfl, rfl⟩ := exists_written cut isFirst
        rw [List.take_left] at isFirst
        rw [List.drop_left] at areOthers
        have positive := written.length_pos
        rw [List.length_append] at enough
        obtain ⟨regular, rfl⟩ := read_eq_ok_iff.mp isFirst
        obtain ⟨listed, rfl⟩ := ih (by omega) areOthers
        have whole := avoids_of_count (count_written written)
        exact ⟨List.forall_mem_cons.mpr ⟨⟨regular, whole⟩, listed⟩, List.flatMap_cons⟩
  · rintro ⟨listed, rfl⟩
    induction types generalizing fuel with
    | nil => exact readSome_nil list fuel
    | cons type others ih =>
        obtain ⟨⟨regular, whole⟩, listed⟩ := List.forall_mem_cons.mp listed
        have written := written_chars regular whole
        have positive := written.length_pos
        rw [List.flatMap_cons] at enough ⊢
        rw [List.length_append] at enough
        obtain ⟨fewer, rfl⟩ : ∃ fewer, fuel = fewer + 1 := ⟨fuel - 1, by omega⟩
        have nonempty : type.chars ++ others.flatMap chars ≠ [] :=
          List.append_ne_nil_of_left_ne_nil (List.ne_nil_of_length_pos positive) _
        refine (readSome_eq_ok nonempty).mpr ⟨type.chars.length, type, others,
          firstLength_written written list _, ?_, ?_, rfl⟩
        · rw [List.take_left]
          exact read_eq_ok_iff.mpr ⟨regular, rfl⟩
        · rw [List.drop_left]
          exact ih listed (by omega)

end Descriptor

namespace Prototype

/-- A prototype that a text can spell: of regular types, and with parameters whose names do not
end early. -/
def isRegular (prototype : Prototype) : Bool :=
  prototype.params.all (fun type => type.isRegular && type.avoids ';' && type.avoids ')') &&
    prototype.ret.isRegular

theorem isRegular_iff {prototype : Prototype} :
    prototype.isRegular = true ↔
      (∀ type ∈ prototype.params, type.isRegular = true ∧ type.avoids ';' = true) ∧
        (∀ type ∈ prototype.params, type.avoids ')' = true) ∧ prototype.ret.isRegular = true := by
  simp only [isRegular, Bool.and_eq_true, List.all_eq_true]
  constructor
  · rintro ⟨params, ret⟩
    exact ⟨fun type member => (params type member).1, fun type member => (params type member).2, ret⟩
  · rintro ⟨listed, inner, ret⟩
    exact ⟨fun type member => ⟨listed type member, inner type member⟩, ret⟩

theorem paren_mem_params {types : List Descriptor} :
    ')' ∉ types.flatMap Descriptor.chars ↔ ∀ type ∈ types, type.avoids ')' = true := by
  simp only [List.mem_flatMap, Descriptor.paren_mem_chars, not_exists, not_and,
    Bool.not_eq_false]

/-- A prototype is read from a text exactly if it is regular and spelled by it. -/
theorem read_eq_ok_iff {prototype : Prototype} {text : List Char} :
    read text = .ok prototype ↔ prototype.isRegular = true ∧ prototype.chars = text := by
  have inner : ∀ {params ret : List Char}, ')' ∉ params →
      (read ('(' :: (params ++ ')' :: ret)) = .ok prototype ↔
        ((∀ type ∈ prototype.params, type.isRegular = true ∧ type.avoids ';' = true) ∧
          prototype.params.flatMap Descriptor.chars = params) ∧
        prototype.ret.isRegular = true ∧ prototype.ret.chars = ret) := by
    intro params ret closed
    rw [read_eq closed]
    simp only [bind_eq_ok, Descriptor.readAll, Descriptor.readSome_eq_ok_iff (Nat.le_refl _),
      Descriptor.read_eq_ok_iff, pure, Except.pure, Except.ok.injEq]
    constructor
    · rintro ⟨types, listed, type, regular, rfl⟩
      exact ⟨listed, regular⟩
    · rintro ⟨listed, regular⟩
      exact ⟨_, listed, _, regular, rfl⟩
  rw [isRegular_iff]
  constructor
  · intro isRead
    have opened := isRead
    unfold read at opened
    split at opened
    · split at opened
      · rename_i closed
        obtain ⟨params, ret, rfl, outside⟩ := List.eq_append_cons_of_mem closed
        obtain ⟨⟨listed, rfl⟩, regular, rfl⟩ := (inner outside).mp isRead
        exact ⟨⟨listed, paren_mem_params.mp outside, regular⟩, rfl⟩
      · cases opened
    · cases opened
  · rintro ⟨⟨listed, outside, regular⟩, rfl⟩
    exact (inner (paren_mem_params.mpr outside)).mpr ⟨⟨listed, rfl⟩, regular, rfl⟩

end Prototype

/-- Reading is the inverse of spelling, for descriptors and for prototypes: a text is read exactly
as the regular type that it spells. -/
theorem read_iff_spelled :
    (∀ (text : String) (type : Descriptor),
      Descriptor.read text.toList = .ok type ↔ type.isRegular = true ∧ type.text = text) ∧
    (∀ (text : String) (prototype : Prototype),
      Prototype.read text.toList = .ok prototype ↔
        prototype.isRegular = true ∧ prototype.text = text) := by
  have same : ∀ {chars : List Char} {text : String},
      chars = text.toList ↔ String.ofList chars = text := by
    intro chars text
    constructor
    · rintro rfl
      exact String.ofList_toList
    · rintro rfl
      exact String.toList_ofList.symm
  constructor
  · intro text type
    rw [Descriptor.read_eq_ok_iff, same]
    rfl
  · intro text prototype
    rw [Prototype.read_eq_ok_iff, same]
    rfl

example : Descriptor.read "[[La;b;".toList = .ok (.array 2 (.object "a;b")) := by decide

end Dalvik
