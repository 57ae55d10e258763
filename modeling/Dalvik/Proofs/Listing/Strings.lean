import Dalvik.Proofs.Listing.Numerals

/-!
# Strings and comments

A string is written between two quotes: each character as it is, by a letter
behind a backslash, or by its code point.  Comments are stripped from a line
before its strings are read.  Both go by the same quotes: stripping passes over
a string as a whole, and what it leaves is read as the same string.
-/

namespace Dalvik.Listing

/-! ## Spellings -/

/-- A character as it is written between quotes. -/
inductive CharSpelling : List Char → Char → Prop where
  | plain {c : Char} (noQuote : c ≠ '"') (noBackslash : c ≠ '\\') : CharSpelling [c] c
  | letter {letter c : Char} (known : escaped? letter = some c) : CharSpelling ['\\', letter] c
  | code {first second third fourth c : Char} {number : Nat}
      (isNumber : readUnsigned 16 65536 [first, second, third, fourth] = some number)
      (known : charOfCode? number = some c) :
      CharSpelling ['\\', 'u', first, second, third, fourth] c

/-- Characters as they are written between quotes, one after the other. -/
inductive TextSpelling : List Char → List Char → Prop where
  | nil : TextSpelling [] []
  | cons {spelling body chars : List Char} {c : Char} (first : CharSpelling spelling c)
      (rest : TextSpelling body chars) : TextSpelling (spelling ++ body) (c :: chars)

/-- A string as it is written, with its quotes. -/
def StringSpelling (literal : List Char) (string : String) : Prop :=
  ∃ body, literal = '"' :: (body ++ ['"']) ∧ TextSpelling body string.toList

/-! ## Reading -/

namespace CharSpelling

variable {spelling : List Char} {c : Char}

/-- A character is read as it is written, whatever follows it. -/
theorem takeStringBody_append (spelled : CharSpelling spelling c) (text : List Char) :
    takeStringBody (spelling ++ text) =
      (takeStringBody text).map fun (chars, rest) => (c :: chars, rest) := by
  cases spelled with
  | plain noQuote noBackslash =>
      rw [List.singleton_append, takeStringBody]
      · cases takeStringBody text <;> rfl
      · exact noQuote
      · exact fun _ _ _ _ _ same _ => noBackslash same
      · exact fun _ _ same _ => noBackslash same
      · exact fun same _ => noBackslash same
  | @letter letter _ known =>
      -- The letter of a code point stands for no character itself.
      have noCode : letter ≠ 'u' := by
        rintro rfl
        cases known
      rw [List.cons_append, List.singleton_append, takeStringBody, known]
      · cases takeStringBody text <;> rfl
      · exact fun _ _ _ _ _ same _ => noCode same
  | code isNumber known =>
      simp only [List.cons_append, List.nil_append]
      rw [takeStringBody, isNumber, Option.bind_eq_bind, Option.bind_some, known]
      cases takeStringBody text <;> rfl

/-- What is read behind a character is a text with that character before it. -/
theorem exists_cons {text chars rest : List Char} (first : CharSpelling spelling c)
    (success : ((takeStringBody text).bind fun found => some (c :: found.1, found.2)) =
      some (chars, rest))
    (more : ∀ {others}, takeStringBody text = some (others, rest) →
      ∃ body, text = body ++ '"' :: rest ∧ TextSpelling body others) :
    ∃ body, spelling ++ text = body ++ '"' :: rest ∧ TextSpelling body chars := by
  obtain ⟨⟨others, rest⟩, isText, same⟩ := Option.bind_eq_some_iff.mp success
  obtain ⟨rfl, rfl⟩ := Prod.mk.inj (Option.some.inj same)
  obtain ⟨body, rfl, spelled⟩ := more isText
  exact ⟨spelling ++ body, (List.append_assoc _ _ _).symm, .cons first spelled⟩

end CharSpelling

/-- A text is read up to the quote behind it. -/
theorem TextSpelling.takeStringBody_append {body chars : List Char}
    (spelled : TextSpelling body chars) (rest : List Char) :
    takeStringBody (body ++ '"' :: rest) = some (chars, rest) := by
  induction spelled with
  | nil => rfl
  | cons first _ ih => rw [List.append_assoc, first.takeStringBody_append, ih, Option.map_some]

/-- Only a text and the quote behind it are read. -/
theorem exists_textSpelling {text chars rest : List Char}
    (success : takeStringBody text = some (chars, rest)) :
    ∃ body, text = body ++ '"' :: rest ∧ TextSpelling body chars := by
  fun_induction takeStringBody text generalizing chars with
  | case1 => cases success
  | case2 =>
      obtain ⟨rfl, rfl⟩ := Prod.mk.inj (Option.some.inj success)
      exact ⟨[], rfl, .nil⟩
  | case3 first second third fourth text ih =>
      obtain ⟨number, isNumber, success⟩ := Option.bind_eq_some_iff.mp success
      obtain ⟨c, known, success⟩ := Option.bind_eq_some_iff.mp success
      exact (CharSpelling.code isNumber known).exists_cons success ih
  | case4 letter text _ ih =>
      obtain ⟨c, known, success⟩ := Option.bind_eq_some_iff.mp success
      exact (CharSpelling.letter known).exists_cons success ih
  | case5 => cases success
  | case6 c text noQuote _ noLetter noEnd ih =>
      -- Behind a backslash a letter is read, and without one nothing.
      have noBackslash : c ≠ '\\' := by
        intro isBackslash
        cases text with
        | nil => exact noEnd isBackslash rfl
        | cons letter text => exact noLetter letter text isBackslash rfl
      exact (CharSpelling.plain noQuote noBackslash).exists_cons success ih

/-- A string is read exactly where it is spelled. -/
theorem takeString_iff {text rest : List Char} {string : String} :
    takeString text = some (string, rest) ↔
      ∃ literal, text = literal ++ rest ∧ StringSpelling literal string := by
  constructor
  · intro success
    unfold takeString at success
    split at success
    · obtain ⟨⟨chars, rest⟩, isBody, same⟩ := Option.map_eq_some_iff.mp success
      obtain ⟨rfl, rfl⟩ := Prod.mk.inj same
      obtain ⟨body, rfl, spelled⟩ := exists_textSpelling isBody
      refine ⟨'"' :: (body ++ ['"']), by simp, body, rfl, ?_⟩
      rwa [String.toList_ofList]
    · cases success
  · rintro ⟨_, rfl, body, rfl, spelled⟩
    have isBody := spelled.takeStringBody_append rest
    rw [List.cons_append, List.append_assoc, List.singleton_append, takeString, isBody,
      Option.map_some]
    dsimp only
    rw [String.ofList_toList]

/-! ## Comments -/

/-- A comment is cut off at its mark. -/
theorem exists_comment (quoted escaped : Bool) (text : List Char) :
    ∃ rest, text = stripCommentFrom quoted escaped text ++ rest ∧ ∀ c ∈ rest.head?, c = '#' := by
  induction text generalizing quoted escaped with
  | nil => exact ⟨[], by cases escaped <;> rfl, nofun⟩
  | cons c text ih =>
      -- Every branch keeps the character, whatever it makes of the quotes, but that of the mark.
      have longer : ∀ quoted escaped, ∃ rest,
          c :: text = c :: stripCommentFrom quoted escaped text ++ rest ∧
            ∀ c ∈ rest.head?, c = '#' := by
        intro quoted escaped
        obtain ⟨rest, same, mark⟩ := ih quoted escaped
        exact ⟨rest, congrArg (c :: ·) same, mark⟩
      cases escaped with
      | true => exact longer quoted false
      | false =>
          rw [stripCommentFrom]
          split
          · exact longer quoted true
          split
          · exact longer (!quoted) false
          split
          · rename_i isMark
            refine ⟨c :: text, rfl, fun first isFirst => ?_⟩
            exact (Option.some.inj isFirst).symm.trans isMark.1
          · exact longer quoted false

/-- Without quotes and marks there is no comment. -/
theorem stripComment_unquoted {before : List Char} (noQuote : '"' ∉ before) (noMark : '#' ∉ before)
    (text : List Char) : stripComment (before ++ text) = before ++ stripComment text := by
  unfold stripComment
  induction before with
  | nil => rfl
  | cons c before ih =>
      obtain ⟨isNoQuote, noQuote⟩ := not_or.mp (List.mem_cons.not.mp noQuote)
      obtain ⟨isNoMark, noMark⟩ := not_or.mp (List.mem_cons.not.mp noMark)
      rw [List.cons_append, stripCommentFrom, if_neg (by simp), if_neg (Ne.symm isNoQuote),
        if_neg fun isMark => isNoMark isMark.1.symm, ih noQuote noMark, List.cons_append]

/-- Whether a text between quotes leaves what follows it escaped; none if a quote of the text closes
them.  The text's first character may itself be escaped. -/
def openEscape? : Bool → List Char → Option Bool
  | escaped, [] => some escaped
  | true, _ :: rest => openEscape? false rest
  | false, c :: rest =>
      if c = '\\' then openEscape? true rest
      else if c = '"' then none
      else openEscape? false rest

theorem openEscape?_append (escaped : Bool) (first second : List Char) :
    openEscape? escaped (first ++ second) =
      (openEscape? escaped first).bind fun escaped => openEscape? escaped second := by
  induction first generalizing escaped with
  | nil => cases escaped <;> rfl
  | cons c first ih =>
      rw [List.cons_append]
      cases escaped with
      | true => exact ih false
      | false =>
          simp only [openEscape?]
          split
          · exact ih true
          split
          · rfl
          · exact ih false

/-- Between quotes everything is kept, marks too. -/
theorem stripCommentFrom_append {escaped after : Bool} {text : List Char}
    (isOpen : openEscape? escaped text = some after) (rest : List Char) :
    stripCommentFrom true escaped (text ++ rest) = text ++ stripCommentFrom true after rest := by
  induction text generalizing escaped with
  | nil =>
      obtain rfl : escaped = after := by cases escaped <;> exact Option.some.inj isOpen
      rfl
  | cons c text ih =>
      cases escaped with
      | true => exact congrArg (c :: ·) (ih isOpen)
      | false =>
          rw [openEscape?] at isOpen
          rw [List.cons_append, stripCommentFrom]
          split at isOpen
          · rename_i isBackslash
            rw [if_pos ⟨isBackslash, rfl⟩, ih isOpen]
            rfl
          · rename_i noBackslash
            split at isOpen
            · cases isOpen
            · rename_i noQuote
              rw [if_neg fun both => noBackslash both.1, if_neg noQuote, if_neg (by simp), ih isOpen]
              rfl

/-- A character as it is written neither closes the quotes nor escapes what follows it. -/
theorem CharSpelling.openEscape {spelling : List Char} {c : Char}
    (spelled : CharSpelling spelling c) : openEscape? false spelling = some false := by
  cases spelled with
  | plain noQuote noBackslash =>
      rw [openEscape?, if_neg noBackslash, if_neg noQuote]
      rfl
  | letter known => rfl
  | @code first second third fourth _ _ isNumber known =>
      have plain : ∀ c ∈ [first, second, third, fourth], c ≠ '\\' ∧ c ≠ '"' := fun c member =>
        (show ∀ c ∈ '+' :: (decimalDigits ++ hexLetters), c ≠ '\\' ∧ c ≠ '"' from
          forall_mem_of_all (by decide)) c (mem_of_readUnsigned isNumber c member)
      simp only [List.forall_mem_cons] at plain
      simp [openEscape?, plain]

theorem TextSpelling.openEscape {body chars : List Char} (spelled : TextSpelling body chars) :
    openEscape? false body = some false := by
  induction spelled with
  | nil => rfl
  | cons first _ ih => rw [openEscape?_append, first.openEscape, Option.bind_some, ih]

namespace StringSpelling

variable {literal front back : List Char} {string : String}

/-- A string is kept as a whole, and what follows it is stripped on its own. -/
theorem stripComment_append (spelled : StringSpelling literal string) (rest : List Char) :
    stripComment (literal ++ rest) = literal ++ stripComment rest := by
  obtain ⟨body, rfl, isText⟩ := spelled
  change '"' :: stripCommentFrom true false (body ++ ['"'] ++ rest) = _
  rw [List.append_assoc, stripCommentFrom_append isText.openEscape]
  simp [stripComment, stripCommentFrom]

/-- A string does not end before its last quote where strings are read. -/
theorem takeString_front (spelled : StringSpelling literal string) (split : literal = front ++ back)
    (isMore : back ≠ []) : takeString front = none := by
  refine Option.eq_none_iff_forall_ne_some.mpr ?_
  rintro ⟨other, rest⟩ isShorter
  obtain ⟨shorter, rfl, shortSpelled⟩ := takeString_iff.mp isShorter
  have short : takeString literal = some (other, rest ++ back) :=
    takeString_iff.mpr ⟨shorter, by rw [split, List.append_assoc], shortSpelled⟩
  have whole : takeString literal = some (string, []) :=
    takeString_iff.mpr ⟨literal, (List.append_nil literal).symm, spelled⟩
  obtain ⟨-, nothing⟩ := Prod.mk.inj (Option.some.inj (short.symm.trans whole))
  exact isMore (List.append_eq_nil_iff.mp nothing).2

/-- A string does not end before its last quote where comments are stripped: a mark is kept. -/
theorem stripComment_front (spelled : StringSpelling literal string)
    (split : literal = front ++ back) (begun : front ≠ []) (isMore : back ≠ []) (rest : List Char) :
    ∃ kept, stripComment (front ++ '#' :: rest) = front ++ '#' :: kept := by
  obtain ⟨body, rfl, isText⟩ := spelled
  obtain ⟨first, inner, rfl⟩ := List.exists_cons_of_ne_nil begun
  -- What is left of the string ends with its last quote, so the front is one of the text.
  obtain ⟨left, last, rfl⟩ := (List.eq_nil_or_concat back).resolve_left isMore
  rw [List.concat_eq_append, List.cons_append, ← List.append_assoc] at split
  obtain ⟨rfl, tail⟩ := List.cons.inj split
  obtain ⟨rfl, -⟩ := List.append_inj' tail rfl
  have isOpen := isText.openEscape
  rw [openEscape?_append] at isOpen
  obtain ⟨escaped, isOpen, -⟩ := Option.bind_eq_some_iff.mp isOpen
  refine ⟨stripCommentFrom true false rest, ?_⟩
  change '"' :: stripCommentFrom true false (inner ++ '#' :: rest) = _
  rw [stripCommentFrom_append isOpen]
  cases escaped <;> rfl

end StringSpelling

/-- Stripping comments and reading strings can be done in either order. -/
theorem takeString_stripComment (text : List Char) :
    takeString (stripComment text) =
      (takeString text).map fun (string, rest) => (string, stripComment rest) := by
  cases reads : takeString text with
  | some found =>
      obtain ⟨string, rest⟩ := found
      obtain ⟨literal, rfl, spelled⟩ := takeString_iff.mp reads
      exact takeString_iff.mpr ⟨literal, spelled.stripComment_append rest, spelled⟩
  | none =>
      -- The text starts with what is left of it, and would start with the same string.
      obtain ⟨comment, whole, -⟩ := exists_comment false false text
      refine Option.eq_none_iff_forall_ne_some.mpr ?_
      rintro ⟨string, rest⟩ isString
      obtain ⟨literal, kept, spelled⟩ := takeString_iff.mp isString
      have same : text = literal ++ (rest ++ comment) := by
        rw [← List.append_assoc, ← kept]
        exact whole
      cases reads.symm.trans (takeString_iff.mpr ⟨literal, same, spelled⟩)

/-- A string behind a text without quotes and marks is passed over when comments are stripped: it
is kept as a whole, what follows it is stripped on its own, and what is left is read as the same
string.  Both scans end it at the same quote: none of its shorter beginnings is a string, and
behind none does a mark start a comment, whichever marks, quotes and backslashes they hold. -/
theorem strings_end_alike {before text rest : List Char} {string : String} (noQuote : '"' ∉ before)
    (noMark : '#' ∉ before) (reads : takeString text = some (string, rest)) :
    ∃ literal, text = literal ++ rest ∧
      stripComment (before ++ text) = before ++ literal ++ stripComment rest ∧
      takeString (stripComment text) = some (string, stripComment rest) ∧
      ∀ front back, literal = front ++ back → front ≠ [] → back ≠ [] →
        takeString front = none ∧ ∀ more, ∃ kept,
          stripComment (before ++ front ++ '#' :: more) = before ++ front ++ '#' :: kept := by
  obtain ⟨literal, rfl, spelled⟩ := takeString_iff.mp reads
  refine ⟨literal, rfl, ?_, ?_, fun front back split begun isMore => ⟨?_, fun more => ?_⟩⟩
  · rw [stripComment_unquoted noQuote noMark, spelled.stripComment_append, List.append_assoc]
  · rw [takeString_stripComment, reads]
    rfl
  · exact spelled.takeString_front split isMore
  · obtain ⟨kept, keeps⟩ := spelled.stripComment_front split begun isMore more
    exact ⟨kept, by rw [List.append_assoc, stripComment_unquoted noQuote noMark, keeps,
      ← List.append_assoc]⟩

/-- A mark, an escaped quote and an escaped backslash in a string, and a comment behind it. -/
theorem strings_end_alike_escapes :
    '"' ∉ "const-string v0, ".toList ∧ '#' ∉ "const-string v0, ".toList ∧
      takeString "\"#\\\"\\\\\" # \"".toList = some ("#\"\\", " # \"".toList) ∧
      stripComment "const-string v0, \"#\\\"\\\\\" # \"".toList =
        "const-string v0, \"#\\\"\\\\\" ".toList := by
  have noQuote : '"' ∉ "const-string v0, ".toList := by decide
  have noMark : '#' ∉ "const-string v0, ".toList := by decide
  have reads : takeString "\"#\\\"\\\\\" # \"".toList = some ("#\"\\", " # \"".toList) := by
    decide
  obtain ⟨literal, same, keeps, -⟩ := strings_end_alike noQuote noMark reads
  obtain rfl : "\"#\\\"\\\\\"".toList = literal := List.append_cancel_right same
  exact ⟨noQuote, noMark, reads, keeps⟩

end Dalvik.Listing
