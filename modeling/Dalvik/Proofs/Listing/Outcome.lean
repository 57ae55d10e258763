import Dalvik.Proofs.Listing.Faults
import Dalvik.Proofs.Listing.Reading
import Dalvik.Proofs.Listing.Strings

/-!
# How reading a listing ends

Reading a listing ends with a listing, with a fault of a line, or inside of a
character of a prototype's parameters.  All its other cuts are sound, and the
registers of arguments have their numbers in the frame.
-/

namespace Dalvik.Listing

/-! ## Reading lines -/

namespace Progress

variable {progress : Progress} {text : List Char}

def AreFlags (words : List (List Char)) : Prop :=
  ∀ word ∈ words, (AccessFlags.ofKeyword? (String.ofList word)).isSome = true

theorem exists_readFlags {line : Nat} {words : List (List Char)} :
    (∃ flags, readFlags line words = .ok flags) ↔ AreFlags words := by
  induction words with
  | nil => exact iff_of_true ⟨_, rfl⟩ (List.forall_mem_nil _)
  | cons word words ih =>
      rw [AreFlags, List.forall_mem_cons, ← AreFlags, ← ih, readFlags]
      cases AccessFlags.ofKeyword? (String.ofList word) with
      | none => exact iff_of_false nofun fun both => absurd both.1 (by decide)
      | some flag =>
          dsimp only
          rw [exists_bind_eq_ok]
          exact ⟨fun ⟨flags, isFlags, _⟩ => ⟨rfl, flags, isFlags⟩,
            fun ⟨_, flags, isFlags⟩ => ⟨flags, isFlags, _, rfl⟩⟩

theorem safe_readFlags (line : Nat) (words : List (List Char)) : Safe (readFlags line words) := by
  induction words with
  | nil => exact safe_ok _
  | cons word words ih =>
      rw [readFlags]
      split
      · exact safe_fail line _
      · exact ih.bind fun _ _ => safe_pure _

/-- What opens a method with a prototype that is cut inside of a character. -/
structure SplitsSignature (progress : Progress) (rest : List Char) : Prop where
  closed : progress.draft = none
  owned : progress.owner.isSome = true
  signature : ∃ words signature, Text.words rest = words ++ [signature] ∧ AreFlags words ∧
    '(' ∈ signature ∧ Prototype.Splits (signature.dropWhile (· ≠ '('))

theorem settles_openMethod (progress : Progress) (line : Nat) (rest : List Char) :
    Settles (progress.SplitsSignature rest) (progress.openMethod line rest) := by
  unfold openMethod
  dsimp only
  split
  · rename_i opened
    refine Safe.settles ?_ fun splits => by simp [splits.closed] at opened
    exact safe_fail_bind line _ _
  rename_i closed
  have noDraft : progress.draft = none := by simpa using closed
  split
  · rename_i owner owned
    split
    · rename_i signature last
      obtain ⟨words, isWords⟩ := List.getLast?_eq_some_iff.mp last
      have condition : progress.SplitsSignature rest ↔
          ∃ flags, readFlags line words = .ok flags ∧ '(' ∈ signature ∧
            Prototype.Splits (signature.dropWhile (· ≠ '(')) := by
        constructor
        · rintro ⟨-, -, words', signature', isWords', areFlags, opens, splits⟩
          obtain ⟨rfl, same⟩ := List.append_inj' (isWords.symm.trans isWords') rfl
          obtain rfl := List.singleton_inj.mp same
          obtain ⟨flags, isFlags⟩ := exists_readFlags.mpr areFlags
          exact ⟨flags, isFlags, opens, splits⟩
        · rintro ⟨flags, isFlags, opens, splits⟩
          have areFlags := exists_readFlags.mp ⟨flags, isFlags⟩
          exact ⟨noDraft, by rw [owned]; rfl, words, signature, isWords, areFlags, opens, splits⟩
      refine Settles.iff ?_ condition.symm
      rw [isWords, List.dropLast_concat]
      refine (safe_readFlags line words).bind_settles _ fun flags _ => ?_
      split
      · rename_i noPrototype
        refine Safe.settles ?_ fun splits => noPrototype splits.1
        exact safe_fail_bind line _ _
      · rename_i opens
        refine Settles.iff ((settles_readPrototype line _).bind_safe fun _ _ => safe_pure _) ?_
        simp [not_not.mp opens]
    · rename_i noWord
      refine (safe_fail line _).settles fun splits => ?_
      obtain ⟨words, signature, isWords, -⟩ := splits.signature
      rw [isWords, List.getLast?_concat] at noWord
      exact noWord _ rfl
  · rename_i unowned
    refine (safe_fail line _).settles fun splits => ?_
    obtain ⟨owner, owned⟩ := Option.isSome_iff_exists.mp splits.owned
    exact unowned owner owned

/-- A method that is closed and whose assembly is cut inside of a character. -/
def SplitsMethod (progress : Progress) : Prop :=
  ∃ draft, progress.draft = some draft ∧ draft.Splits progress.listing.pool

theorem settles_closeMethod (progress : Progress) (line : Nat) :
    Settles progress.SplitsMethod (progress.closeMethod line) := by
  unfold closeMethod SplitsMethod
  split
  · rename_i noDraft
    exact (safe_fail line _).settles (by simp [noDraft])
  · rename_i draft given
    have condition : (∃ draft, progress.draft = some draft ∧ draft.Splits progress.listing.pool) ↔
        draft.Splits progress.listing.pool := by
      simp [given]
    refine Settles.iff ?_ condition.symm
    split
    · rename_i empty
      refine (safe_ok _).settles ?_
      rintro ⟨frame, -, earlier, pending, later, _, _, same, -⟩
      rw [List.isEmpty_iff.mp empty] at same
      exact List.append_ne_nil_of_right_ne_nil earlier (List.cons_ne_nil pending later) same.symm
    · exact (Draft.settles_assemble draft _).bind_safe fun _ _ => safe_pure _

/-- A line outside of tables and annotations that is cut inside of a character: it opens a method
with such a prototype, or closes one with such a reference. -/
inductive SplitsPlain (progress : Progress) (text : List Char) : Prop where
  | signature {rest : List Char} (isMethod : Text.splitWord text = (".method".toList, rest))
      (splits : progress.SplitsSignature rest)
  | references (isEnd : Text.splitWord text = (".end".toList, "method".toList))
      (splits : progress.SplitsMethod)

theorem splitsPlain_iff {word rest : List Char}
    (split : Text.splitWord text = (word, rest)) :
    progress.SplitsPlain text ↔
      word = ".method".toList ∧ progress.SplitsSignature rest ∨
      word = ".end".toList ∧ rest = "method".toList ∧ progress.SplitsMethod := by
  constructor
  · rintro (⟨isMethod, splits⟩ | ⟨isEnd, splits⟩)
    · obtain ⟨rfl, rfl⟩ := Prod.mk.inj (split.symm.trans isMethod)
      exact .inl ⟨rfl, splits⟩
    · obtain ⟨rfl, rfl⟩ := Prod.mk.inj (split.symm.trans isEnd)
      exact .inr ⟨rfl, rfl, splits⟩
  · rintro (⟨rfl, splits⟩ | ⟨rfl, rfl, splits⟩)
    · exact .signature split splits
    · exact .references split splits

theorem ofList_eq_iff {word : List Char} {name : String} :
    String.ofList word = name ↔ word = name.toList :=
  ⟨toList_of_ofList, fun same => by rw [same, String.ofList_toList]⟩

theorem settles_readPlainLine (progress : Progress) (line : Nat) (text : List Char) :
    Settles (progress.SplitsPlain text) (progress.readPlainLine line text) := by
  -- The first word decides; only those of `SplitsPlain` lead to what is not safe.
  generalize split : Text.splitWord text = parts
  obtain ⟨word, rest⟩ := parts
  refine Settles.iff ?_ (splitsPlain_iff split).symm
  unfold readPlainLine
  rw [split]
  dsimp only
  split
  · rename_i isClass
    obtain rfl := toList_of_ofList isClass
    refine Safe.settles ?_ (by simp)
    exact (safe_readDescriptor line _).bind fun _ _ => safe_pure _
  split
  · rename_i ignored
    refine (safe_pure _).settles ?_
    rintro (⟨rfl, -⟩ | ⟨rfl, -⟩) <;> exact absurd ignored (by decide)
  split
  · rename_i isMetadata
    refine (safe_pure _).settles ?_
    rintro (⟨rfl, -⟩ | ⟨rfl, -⟩) <;> exact absurd isMetadata (by decide)
  split
  · rename_i isEnd
    obtain rfl := toList_of_ofList isEnd
    split
    · rename_i isMethod
      obtain rfl := toList_of_ofList isMethod
      exact (settles_closeMethod progress line).iff (by simp)
    · rename_i isField
      exact (safe_pure _).settles (by simp [ofList_eq_iff.mp isField])
    · rename_i isParam
      exact (safe_pure _).settles (by simp [ofList_eq_iff.mp isParam])
    · rename_i isLocal
      exact (safe_pure _).settles (by simp [ofList_eq_iff.mp isLocal])
    · rename_i notMethod _ _ _
      refine (safe_fail line _).settles ?_
      rintro (⟨isMethod, -⟩ | ⟨-, isMethod, -⟩)
      · cases isMethod
      · exact notMethod (ofList_eq_iff.mpr isMethod)
  rename_i notEnd
  split
  · rename_i isMethod
    obtain rfl := toList_of_ofList isMethod
    exact (settles_openMethod progress line rest).iff (by simp)
  rename_i notMethod
  have never : ¬(word = ".method".toList ∧ progress.SplitsSignature rest ∨
      word = ".end".toList ∧ rest = "method".toList ∧ progress.SplitsMethod) := by
    rintro (⟨rfl, -⟩ | ⟨rfl, -⟩)
    · exact notMethod rfl
    · exact notEnd rfl
  split
  · exact (safe_fail line _).settles never
  · exact ((Draft.safe_addLine _ line word rest text).bind fun _ _ => safe_pure _).settles never

/-- A line that is cut inside of a character is outside of tables and annotations. -/
structure SplitsAt (progress : Progress) (text : List Char) : Prop where
  reading : progress.skipping = false
  outside : progress.draft.bind Draft.pending = none
  splits : progress.SplitsPlain text

theorem settles_readLine (progress : Progress) (line : Nat) (text : List Char) :
    Settles (progress.SplitsAt text) (progress.readLine line text) := by
  unfold readLine
  split
  · rename_i blank
    obtain rfl := List.isEmpty_iff.mp blank
    refine (safe_ok _).settles fun splits => ?_
    have noWord : Text.splitWord [] = ([], []) := rfl
    have never := (splitsPlain_iff noWord).mp splits.splits
    simp at never
  split
  · rename_i skipping
    refine (safe_ok _).settles fun splits => ?_
    exact absurd (skipping.symm.trans splits.reading) (by decide)
  rename_i reading
  rw [Bool.not_eq_true] at reading
  have plain : progress.draft.bind Draft.pending = none →
      Settles (progress.SplitsAt text) (progress.readPlainLine line text) :=
    fun outside => (settles_readPlainLine progress line text).iff
      ⟨fun splits => ⟨reading, outside, splits⟩, SplitsAt.splits⟩
  split
  · rename_i draft given
    split
    · rename_i table pending
      refine Safe.settles ?_ fun splits => ?_
      · exact (Draft.safe_addPayloadLine draft table line text).bind fun _ _ => safe_pure _
      · have outside := splits.outside
        rw [given, Option.bind_some, pending] at outside
        cases outside
    · rename_i pending
      exact plain (by rw [given, Option.bind_some, pending])
  · rename_i noDraft
    exact plain (by rw [noDraft, Option.bind_none])

/-- Lines one of which is cut inside of a character, behind lines that are read. -/
def SplitsLines (progress : Progress) (line : Nat) (lines : List (List Char)) : Prop :=
  ∃ before text after middle, lines = before ++ text :: after ∧
    progress.readLines line before = .ok middle ∧
    middle.SplitsAt (Text.trim (stripComment text))

theorem splitsLines_cons {line : Nat} {rest : List (List Char)} :
    progress.SplitsLines line (text :: rest) ↔
      progress.SplitsAt (Text.trim (stripComment text)) ∨
      ∃ after, progress.readLine line (Text.trim (stripComment text)) = .ok after ∧
        after.SplitsLines (line + 1) rest := by
  constructor
  · rintro ⟨before, text', after, middle, same, success, splits⟩
    cases before with
    | nil =>
        obtain ⟨rfl, rfl⟩ := List.cons.inj same
        obtain rfl := Except.ok.inj success
        exact .inl splits
    | cons first before =>
        obtain ⟨rfl, rfl⟩ := List.cons.inj same
        obtain ⟨next, one, more⟩ := bind_eq_ok.mp success
        exact .inr ⟨next, one, before, text', after, middle, rfl, more, splits⟩
  · rintro (here | ⟨next, one, before, text', after, middle, rfl, more, splits⟩)
    · exact ⟨[], text, rest, progress, rfl, rfl, here⟩
    · have success : progress.readLines line (text :: before) = .ok middle :=
        bind_eq_ok.mpr ⟨next, one, more⟩
      exact ⟨text :: before, text', after, middle, rfl, success, splits⟩

theorem settles_readLines (progress : Progress) (line : Nat) (lines : List (List Char)) :
    Settles (progress.SplitsLines line lines) (progress.readLines line lines) := by
  induction lines generalizing progress line with
  | nil =>
      refine (safe_ok progress).settles ?_
      rintro ⟨before, text, after, _, same, -⟩
      exact List.append_ne_nil_of_right_ne_nil before (List.cons_ne_nil text after) same.symm
  | cons text rest ih =>
      rw [readLines]
      refine Settles.iff ?_ splitsLines_cons.symm
      exact (settles_readLine progress line _).bind fun after _ => ih after (line + 1)

theorem safe_finish (progress : Progress) (lastLine : Nat) : Safe (progress.finish lastLine) := by
  unfold finish
  split
  · exact safe_fail _ _
  · split
    · exact safe_fail lastLine _
    · exact safe_ok _

end Progress

/-- A listing with a prototype that is cut inside of a character where reading comes to it. -/
def Splits (text : String) : Prop :=
  Progress.SplitsLines {} 1 (lines text.toList)

theorem settles_read (text : String) : Settles (Splits text) (read text) :=
  (Progress.settles_readLines {} 1 _).bind_safe fun progress _ => Progress.safe_finish progress _

/-! ## Cuts -/

/-- The cuts that reading makes in a text, at offsets that it finds in the text's bytes.  All are
sound, except for a descriptor of a list where `insideCharacter` is the outcome. -/
structure CutsSoundly (text : List Char) : Prop where
  comment : ∃ rest, CutAt text (bytesOf (stripComment text)).length (stripComment text) rest ∧
    ∀ c ∈ rest.head?, c = '#'
  label : ∀ name, text = ':' :: name → CutAt text 1 [':'] name
  prototype : CutAt text ((bytesOf text).takeWhile (· != byteOf '(')).length
    (text.takeWhile (· ≠ '(')) (text.dropWhile (· ≠ '('))
  dimensions : CutAt text ((bytesOf text).takeWhile (· == byteOf '[')).length
    (text.takeWhile (· = '[')) (text.dropWhile (· = '['))
  className : ∀ name, text = 'L' :: (name ++ [';']) → CutAt text 1 ['L'] (name ++ [';']) ∧
    CutAt text ((bytesOf text).length - 1) ('L' :: name) [';']
  escape : ∀ a b c d rest code, text = a :: b :: c :: d :: rest →
    readUnsigned 16 65536 [a, b, c, d] = some code → CutAt text 4 [a, b, c, d] rest
  descriptor : ∀ list offset, Descriptor.firstOffset (bytesOf text) = some offset →
    (∃ length, Descriptor.firstLength list text = .ok length ∧
      CutAt text offset (text.take length) (text.drop length)) ∨
    (¬IsBoundary text offset ∧ Descriptor.firstLength list text = .error .insideCharacter)

/-- The digits of an escape have one byte each. -/
theorem ascii_of_readUnsigned {text : List Char} {bound value : Nat}
    (success : readUnsigned 16 bound text = some value) : ∀ c ∈ text, c.toNat < 0x80 :=
  fun c member => (show ∀ c ∈ '+' :: (decimalDigits ++ hexLetters), c.toNat < 0x80 from
    forall_mem_of_all (by decide)) c (mem_of_readUnsigned success c member)

theorem cutsSoundly (text : List Char) : CutsSoundly text where
  comment := by
    obtain ⟨rest, same, mark⟩ := exists_comment false false text
    exact ⟨rest, ⟨same, rfl⟩, mark⟩
  label := by
    rintro name rfl
    exact cutAt_ascii [':'] name (forall_mem_of_all (by decide))
  prototype := cutAt_mark (by decide) text
  dimensions := cutAt_run (by decide) text
  className := by
    rintro name rfl
    refine ⟨cutAt_ascii ['L'] _ (forall_mem_of_all (by decide)), rfl, ?_⟩
    rw [← List.cons_append, bytesOf_append, List.length_append]
    rfl
  escape := by
    rintro a b c d rest code rfl success
    exact cutAt_ascii [a, b, c, d] rest (ascii_of_readUnsigned success)
  descriptor := by
    intro list offset isOffset
    have cut := Descriptor.firstLength_bytes list text
    rwa [isOffset] at cut

/-! ## Register numbers -/

namespace Draft

def receiverSlots (draft : Draft) : Nat :=
  if draft.flags.isStatic then 0 else 1

/-- A method with a receiver whose parameters take all 16 bits of the count. -/
def Overflows (draft : Draft) : Prop :=
  draft.flags.isStatic = false ∧ draft.method.prototype.slots % 65536 = 65535

/-- The numbers of registers that are computed for a method have 16 bits: the sum of its
parameters' slots and its receiver exactly if that does not overflow, and the register of each
argument. -/
structure NumbersInRange (draft : Draft) : Prop where
  sum : draft.method.prototype.slots % 65536 + draft.receiverSlots < 65536 ↔ ¬draft.Overflows
  counted : ¬draft.Overflows →
    draft.argumentSlots = draft.method.prototype.slots % 65536 + draft.receiverSlots
  register : ∀ frame line name reg, draft.frame = .ok frame →
    frame.resolve line name = .ok reg → name.isParameter = true →
    frame.arguments = draft.argumentSlots ∧ name.number < frame.arguments ∧
    frame.arguments ≤ frame.registers ∧
    frame.registers - frame.arguments + name.number < 65536 ∧
    reg.number = frame.registers - frame.arguments + name.number

theorem frame_arguments {draft : Draft} {frame : Frame} (success : draft.frame = .ok frame) :
    frame.arguments = draft.argumentSlots := by
  unfold Draft.frame at success
  dsimp only at success
  split at success
  · obtain rfl := Except.ok.inj success
    rfl
  · obtain rfl := Except.ok.inj success
    rfl
  · cases success

/-- The register of an argument is among the last ones of the frame. -/
theorem resolve_parameter {frame : Frame} {line : Nat} {name : RegName} {reg : Reg}
    (few : frame.registers < 65536) (resolves : frame.resolve line name = .ok reg)
    (isParameter : name.isParameter = true) :
    name.number < frame.arguments ∧ frame.arguments ≤ frame.registers ∧
      frame.registers - frame.arguments + name.number < 65536 ∧
      reg.number = frame.registers - frame.arguments + name.number := by
  rw [Frame.resolve, if_pos isParameter] at resolves
  split at resolves
  · cases resolves
  · obtain rfl := Except.ok.inj resolves
    have bounded : frame.registers - frame.arguments + name.number < 65536 := by omega
    exact ⟨by omega, by omega, bounded, Nat.mod_eq_of_lt bounded⟩

theorem sum_lt_iff (draft : Draft) :
    draft.method.prototype.slots % 65536 + draft.receiverSlots < 65536 ↔ ¬draft.Overflows := by
  unfold receiverSlots Overflows
  cases draft.flags.isStatic <;> simp <;> omega

theorem Holds.numbersInRange {draft : Draft} {entries : List Entry} (holds : draft.Holds entries) :
    draft.NumbersInRange where
  sum := draft.sum_lt_iff
  counted := by
    intro fits
    have small := draft.sum_lt_iff.mpr fits
    rw [← Nat.mod_eq_of_lt small, Nat.mod_add_mod]
    rfl
  register := by
    intro frame line name reg isFrame resolves isParameter
    exact ⟨frame_arguments isFrame, resolve_parameter (holds.frame_lt isFrame) resolves isParameter⟩

end Draft

def intsChars (count : Nat) : List Char :=
  '(' :: (List.replicate count 'I' ++ [')', 'V'])

theorem readSome_ints (list : List Char) {count fuel : Nat} (enough : count ≤ fuel) :
    Descriptor.readSome list fuel (List.replicate count 'I') =
      .ok (List.replicate count .int) := by
  induction count generalizing fuel with
  | zero => cases fuel <;> rfl
  | succ count ih =>
      obtain ⟨fewer, rfl⟩ : ∃ fewer, fuel = fewer + 1 := ⟨fuel - 1, by omega⟩
      have others := ih (Nat.le_of_succ_le_succ enough)
      change (Descriptor.readSome list fewer (List.replicate count 'I') >>= _) = _
      rw [others]
      rfl

theorem read_intsChars (count : Nat) :
    Prototype.read (intsChars count) = .ok ⟨List.replicate count .int, .void⟩ := by
  have inner : ')' ∉ List.replicate count 'I' := fun member =>
    absurd (List.eq_of_mem_replicate member) (by decide)
  have params : Descriptor.readAll (List.replicate count 'I') =
      .ok (List.replicate count .int) :=
    readSome_ints _ (Nat.le_of_eq List.length_replicate.symm)
  rw [intsChars, Prototype.read_eq inner, params]
  rfl

theorem slots_ints (count : Nat) (ret : Descriptor) :
    (⟨List.replicate count .int, ret⟩ : Prototype).slots = count := by
  induction count with
  | zero => rfl
  | succ count ih =>
      change 1 + (⟨List.replicate count .int, ret⟩ : Prototype).slots = count + 1
      rw [ih, Nat.add_comm]

theorem words_of_bare {text : List Char} (nonempty : text ≠ [])
    (bare : ∀ c ∈ text, Text.isBlank c = false) : Text.words text = [text] := by
  have whole : ∀ text : List Char, (∀ c ∈ text, Text.isBlank c = false) →
      Text.pieces text = [text] := by
    intro text bare
    induction text with
    | nil => rfl
    | cons c text ih =>
        obtain ⟨first, others⟩ := List.forall_mem_cons.mp bare
        rw [Text.pieces, first, ih others]
        rfl
  rw [Text.words, whole text bare]
  simpa using nonempty

/-- A method may have any number of parameters. -/
theorem exists_openMethod (progress : Progress) (line count : Nat) (closed : progress.draft = none)
    (owned : progress.owner.isSome = true) :
    ∃ rest after draft, progress.openMethod line rest = .ok after ∧ after.draft = some draft ∧
      draft.flags.isStatic = false ∧ draft.method.prototype.slots = count := by
  obtain ⟨owner, isOwner⟩ := Option.isSome_iff_exists.mp owned
  have bare : ∀ c ∈ 'f' :: intsChars count, Text.isBlank c = false := by
    intro c member
    simp only [intsChars, List.mem_cons, List.mem_append, List.mem_replicate, List.not_mem_nil,
      or_false] at member
    rcases member with rfl | rfl | ⟨-, rfl⟩ | rfl | rfl <;> decide
  have words := words_of_bare (List.cons_ne_nil _ _) bare
  have opens : '(' ∈ 'f' :: intsChars count := List.mem_cons_of_mem _ List.mem_cons_self
  have isPrototype : ('f' :: intsChars count).dropWhile (· ≠ '(') = intsChars count := rfl
  have notStatic : AccessFlags.empty.isStatic = false := by decide
  refine ⟨'f' :: intsChars count, { progress with
    draft := some ⟨line, ⟨owner, "f", ⟨List.replicate count .int, .void⟩⟩, .empty, none, none, 0,
      [], [], [], [], none⟩ }, _, ?_, rfl, notStatic, slots_ints count .void⟩
  rw [Progress.openMethod, closed, isOwner, words]
  simp only [Option.isSome_none, Bool.false_eq_true, if_false, List.getLast?_singleton,
    List.dropLast_singleton, opens, not_true_eq_false, isPrototype, read_intsChars]
  rfl

/-- A method with a receiver and 65535 narrow parameters overflows the sum. -/
theorem exists_overflows (progress : Progress) (line : Nat) (closed : progress.draft = none)
    (owned : progress.owner.isSome = true) :
    ∃ rest after draft, progress.openMethod line rest = .ok after ∧ after.draft = some draft ∧
      draft.Overflows := by
  obtain ⟨rest, after, draft, isOpen, given, isStatic, slots⟩ :=
    exists_openMethod progress line 65535 closed owned
  exact ⟨rest, after, draft, isOpen, given, isStatic, by rw [slots]⟩

/-- The drafts that reading comes to. -/
theorem numbersInRange_of_readLines {before : List (List Char)} {progress : Progress}
    {draft : Draft} (success : Progress.readLines {} 1 before = .ok progress)
    (given : progress.draft = some draft) : draft.NumbersInRange := by
  have start : Stands {} [] :=
    ⟨[], [], [], [], rfl, .nothing, ⟨Pool.canonical_empty, .nil⟩, .outside, .nothing⟩
  obtain ⟨earlier, opened, block, bodies, -, standing⟩ := Progress.readLines_stands start success
  have method := standing.method
  rw [given] at method
  cases method with
  | inside opens body holds => exact holds.numbersInRange

/-- Reading a listing has a listing or a fault of a line as its outcome, except where it comes to a
prototype with a character of several bytes in place of a letter.  No other cut is inside of a
character, and the numbers of the arguments' registers are in range for each method on the way
whose number of argument slots does not overflow. -/
theorem outcome_of_read (text : String) :
    (Splits text ∧ read text = .error .insideCharacter ∨
      ¬Splits text ∧ ((∃ listing, read text = .ok listing) ∨
        ∃ line fault, read text = .error (.listing line fault))) ∧
    (∀ part : List Char, CutsSoundly part) ∧
    (∀ (before after : List (List Char)) (progress : Progress) (draft : Draft),
      lines text.toList = before ++ after → Progress.readLines {} 1 before = .ok progress →
      progress.draft = some draft → draft.NumbersInRange) := by
  refine ⟨?_, cutsSoundly, fun before after progress draft _ success given =>
    numbersInRange_of_readLines success given⟩
  rcases settles_read text with inside | ⟨never, safe⟩
  · exact .inl inside
  · refine .inr ⟨never, ?_⟩
    cases outcome : read text with
    | ok listing => exact .inl ⟨listing, rfl⟩
    | error error =>
        obtain ⟨line, fault, rfl⟩ := safe error outcome
        exact .inr ⟨line, fault, rfl⟩

/-- A method with a receiver, a wide parameter and a narrow one. -/
def argumentText : String :=
  ".class La/B;\n.method f(JI)V\n.locals 1\nreturn-void\n.end method\n"

theorem outcome_argumentText :
    (∃ listing, read argumentText = .ok listing) ∧ ¬Splits argumentText ∧
      ∃ progress draft, Progress.readLines {} 1 ((lines argumentText.toList).take 3) =
          .ok progress ∧ progress.draft = some draft ∧ ¬draft.Overflows ∧ draft.argumentSlots = 4 ∧
        draft.frame = .ok ⟨5, 4⟩ ∧
        ∃ reg, Frame.resolve ⟨5, 4⟩ 4 ⟨true, 3⟩ = .ok reg ∧ reg.number = 4 := by
  obtain ⟨ends, -, numbers⟩ := outcome_of_read argumentText
  obtain ⟨listing, success, -⟩ :
      ∃ listing, read argumentText = .ok listing ∧ listing.methods.length = 1 :=
    exists_ok_of_decide (by decide +kernel)
  have never : ¬Splits argumentText := by
    rcases ends with ⟨-, inside⟩ | ⟨never, -⟩
    · cases success.symm.trans inside
    · exact never
  obtain ⟨progress, reads, given⟩ : ∃ progress,
      Progress.readLines {} 1 ((lines argumentText.toList).take 3) = .ok progress ∧
        progress.draft.map (fun draft => (draft.flags.isStatic, draft.method.prototype.slots,
          draft.registers, draft.locals)) = some (false, 3, none, some 1) :=
    exists_ok_of_decide (by decide +kernel)
  obtain ⟨draft, isDraft, values⟩ := Option.map_eq_some_iff.mp given
  simp only [Prod.mk.injEq] at values
  obtain ⟨receiver, slots, registers, locals⟩ := values
  have inRange := numbers _ _ progress draft (List.take_append_drop 3 _).symm reads isDraft
  have fits : ¬draft.Overflows := fun overflows => by
    have many := overflows.2
    rw [slots] at many
    cases many
  have counted : draft.argumentSlots = 4 := by
    rw [inRange.counted fits, Draft.receiverSlots, slots, receiver]
    rfl
  have isFrame : draft.frame = .ok ⟨5, 4⟩ := by
    simp only [Draft.frame, registers, locals, counted]
    rfl
  have resolves : Frame.resolve ⟨5, 4⟩ 4 ⟨true, 3⟩ = .ok (.ofNat 4) := rfl
  exact ⟨⟨listing, success⟩, never, progress, draft, reads, isDraft, fits, counted, isFrame, _,
    resolves, (inRange.register _ 4 _ _ isFrame resolves rfl).2.2.2.2⟩

/-- A method with a parameter type that is no letter. -/
def accentText : String :=
  ".class La/B;\n.method static f(é)V\n.registers 1\nreturn-void\n.end method\n"

/-- Its parameters are cut behind the first of the two bytes of a character. -/
theorem read_accentText : read accentText = .error .insideCharacter ∧
    Descriptor.firstOffset (bytesOf ['é']) = some 1 ∧ ¬IsBoundary ['é'] 1 := by
  refine ⟨?_, by decide, fun sound => ?_⟩
  · have known : (read accentText).map (fun _ => ()) = .error .insideCharacter := by
      decide +kernel
    cases outcome : read accentText with
    | ok listing =>
        rw [outcome] at known
        cases known
    | error error =>
        rw [outcome] at known
        exact congrArg _ (Except.error.inj known)
  · exact absurd ((isBoundary_succ_iff [] [] 'é').mp sound) (by decide)

end Dalvik.Listing
