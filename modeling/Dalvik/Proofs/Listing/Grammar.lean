import Dalvik.Listing
import Mathlib.Data.List.Forall2

/-!
# What a listing spells

A listing is a row of lines.  A method is what stands between the line that
opens it and the one that closes it: labels, instructions and data tables, in
the order in which they are written.  Annotations and directives that hold no
code are passed over.  A listing spells its methods in one way.
-/

namespace Dalvik.Listing

def writtenLines (text : String) : List (List Char) :=
  (lines text.toList).map fun line => Text.trim (stripComment line)

/-! ## Lines -/

/-- What a line outside of tables and annotations is, by its first word. -/
inductive LineClass where
  | passive
  | metadata
  | method
  | methodEnd
  | packed
  | sparse
  | array
  | label
  | instruction
  deriving DecidableEq

def wordClass (word rest : List Char) : LineClass :=
  if word = ".method".toList then .method
  else if word = ".end".toList ∧ rest = "method".toList then .methodEnd
  else if word = ".annotation".toList ∨ word = ".subannotation".toList then .metadata
  else if word = ".packed-switch".toList then .packed
  else if word = ".sparse-switch".toList then .sparse
  else if word = ".array-data".toList then .array
  else if word.head? = some ':' then .label
  else if word.head? = some '.' then .passive
  else .instruction

def lineClass (text : List Char) : LineClass :=
  if text.isEmpty then .passive
  else wordClass (Text.splitWord text).1 (Text.splitWord text).2

/-! ## Methods -/

/-- What a method's body is made of. -/
inductive Entry where
  | label (name : String)
  | instruction (opcode : Opcode) (tokens : List Token)
  | table (table : DraftPayload)

/-- The line that opens a data table, the lines that fill it, and the table. -/
inductive TableLines : List Char → List (List Char) → DraftPayload → Prop where
  | packed {opening : List Char} {rows : List (List Char)} {firstKey : Int32} {labels : List String}
      (opens : lineClass opening = .packed)
      (isKey : readKey (Text.splitWord opening).2 = some firstKey)
      (each : List.Forall₂ (fun row label => Rule.all takeLabel row = some label) rows labels) :
      TableLines opening rows (.packed firstKey labels)
  | sparse {opening : List Char} {rows : List (List Char)} {entries : List (Int32 × String)}
      (opens : lineClass opening = .sparse)
      (each : List.Forall₂ (fun row (entry : Int32 × String) => ∃ value,
        Rule.all takeCase row = some (.int value, entry.2) ∧ narrow? value = some entry.1)
        rows entries) :
      TableLines opening rows (.sparse entries)
  | array {opening : List Char} {rows : List (List Char)} {width : Nat}
      {numbers : List (List Literal)} (opens : lineClass opening = .array)
      (isWidth : readCount (Text.splitWord opening).2 = some width) (known : width ∈ [1, 2, 4, 8])
      (each : List.Forall₂ (fun row literals => Rule.all takeElements row = some literals)
        rows numbers) :
      TableLines opening rows
        (.array width (numbers.flatten.map (DraftPayload.elementBits width)))

/-- Lines that belong together, and what they add to a method. -/
inductive Piece : List (List Char) → List Entry → Prop where
  | passive {text : List Char} (class_eq : lineClass text = .passive) : Piece [text] []
  | metadata {opening : List Char} {skipped : List (List Char)}
      (opens : lineClass opening = .metadata) (inside : annotationEnd.toList ∉ skipped) :
      Piece (opening :: (skipped ++ [annotationEnd.toList])) []
  | label {text : List Char} (class_eq : lineClass text = .label) :
      Piece [text] [.label (String.ofList ((Text.splitWord text).1.drop 1))]
  | instruction {text mnemonic : List Char} {tokens : List Token} {opcode : Opcode}
      (class_eq : lineClass text = .instruction)
      (reads : Rule.all takeInstruction text = some (mnemonic, tokens))
      (known : Opcode.ofMnemonic? (String.ofList mnemonic) = some opcode) :
      Piece [text] [.instruction opcode tokens]
  | table {opening : List Char} {rows : List (List Char)} {table : DraftPayload}
      (lines : TableLines opening (rows.filter (!·.isEmpty)) table)
      (inside : table.closing.toList ∉ rows) :
      Piece (opening :: (rows ++ [table.closing.toList])) [.table table]

/-- The lines of a method between the first and the last one. -/
inductive Body : List (List Char) → List Entry → Prop where
  | nothing : Body [] []
  | piece {block lines : List (List Char)} {added entries : List Entry} (first : Piece block added)
      (rest : Body lines entries) : Body (block ++ lines) (added ++ entries)

/-- Lines, and the bodies of the methods that they spell. -/
inductive Spells : List (List Char) → List (List Entry) → Prop where
  | nothing : Spells [] []
  | between {block lines : List (List Char)} {bodies : List (List Entry)} (first : Piece block [])
      (rest : Spells lines bodies) : Spells (block ++ lines) bodies
  | method {opening closing : List Char} {inner lines : List (List Char)} {entries : List Entry}
      {bodies : List (List Entry)} (opens : lineClass opening = .method) (body : Body inner entries)
      (closes : lineClass closing = .methodEnd) (rest : Spells lines bodies) :
      Spells (opening :: (inner ++ closing :: lines)) (entries :: bodies)

theorem Body.append {lines more : List (List Char)} {entries others : List Entry}
    (first : Body lines entries) (second : Body more others) :
    Body (lines ++ more) (entries ++ others) := by
  induction first with
  | nothing => exact second
  | piece first _ ih =>
      rw [List.append_assoc, List.append_assoc]
      exact .piece first ih

theorem Body.single {block : List (List Char)} {entries : List Entry} (piece : Piece block entries) :
    Body block entries := by
  simpa using Body.piece piece .nothing

theorem Spells.append {lines more : List (List Char)} {bodies others : List (List Entry)}
    (first : Spells lines bodies) (second : Spells more others) :
    Spells (lines ++ more) (bodies ++ others) := by
  induction first with
  | nothing => exact second
  | between first _ ih =>
      rw [List.append_assoc]
      exact .between first ih
  | method opens body closes _ ih =>
      rw [List.cons_append, List.append_assoc]
      exact .method opens body closes ih

/-! ## One way to read a listing -/

/-- Two lists are the same up to where an item first occurs. -/
theorem append_cons_unique {α : Type} {item : α} {first second rest others : List α}
    (before : item ∉ first) (before' : item ∉ second)
    (same : first ++ item :: rest = second ++ item :: others) : first = second ∧ rest = others := by
  induction first generalizing second with
  | nil =>
      cases second with
      | nil => exact ⟨rfl, (List.cons.inj same).2⟩
      | cons other second =>
          obtain rfl := (List.cons.inj same).1
          exact (before' List.mem_cons_self).elim
  | cons head first ih =>
      cases second with
      | nil =>
          obtain rfl := (List.cons.inj same).1
          exact (before List.mem_cons_self).elim
      | cons other second =>
          obtain ⟨rfl, tails⟩ := List.cons.inj same
          obtain ⟨rfl, rfl⟩ := ih (fun member => before (List.mem_cons_of_mem _ member))
            (fun member => before' (List.mem_cons_of_mem _ member)) tails
          exact ⟨rfl, rfl⟩

def DraftPayload.lineClass : DraftPayload → LineClass
  | .packed _ _ => .packed
  | .sparse _ => .sparse
  | .array _ _ => .array

namespace TableLines

variable {opening : List Char} {rows others : List (List Char)} {table other : DraftPayload}

theorem class_eq (spelled : TableLines opening rows table) :
    lineClass opening = table.lineClass := by
  cases spelled with
  | packed opens => exact opens
  | sparse opens => exact opens
  | array opens => exact opens

/-- The line that opens a table tells how it is closed. -/
theorem closing_eq (first : TableLines opening rows table) (second : TableLines opening others other) :
    table.closing = other.closing := by
  have same := first.class_eq.symm.trans second.class_eq
  cases table <;> cases other <;> first | rfl | cases same

/-- A table is known by its lines. -/
theorem unique (first : TableLines opening rows table) (second : TableLines opening rows other) :
    table = other := by
  have same := first.class_eq.symm.trans second.class_eq
  cases first with
  | packed opens isKey each =>
      cases second with
      | packed opens' isKey' each' =>
          obtain rfl := Option.some.inj (isKey.symm.trans isKey')
          rw [List.right_unique_forall₂' (fun _ _ _ one two => Option.some.inj (one.symm.trans two))
            each each']
      | sparse => cases same
      | array => cases same
  | sparse opens each =>
      cases second with
      | sparse opens' each' =>
          refine congrArg _ (List.right_unique_forall₂' ?_ each each')
          rintro row ⟨key, label⟩ ⟨key', label'⟩ ⟨value, reads, narrow⟩ ⟨value', reads', narrow'⟩
          obtain ⟨⟨⟩, rfl⟩ := Prod.mk.inj (Option.some.inj (reads.symm.trans reads'))
          obtain rfl := Option.some.inj (narrow.symm.trans narrow')
          rfl
      | packed => cases same
      | array => cases same
  | array opens isWidth known each =>
      cases second with
      | array opens' isWidth' known' each' =>
          obtain rfl := Option.some.inj (isWidth.symm.trans isWidth')
          rw [List.right_unique_forall₂' (fun _ _ _ one two => Option.some.inj (one.symm.trans two))
            each each']
      | packed => cases same
      | sparse => cases same

end TableLines

/-- What a piece is follows from its first line. -/
theorem Piece.shape {block : List (List Char)} {entries : List Entry} (piece : Piece block entries) :
    ∃ text more, block = text :: more ∧
      match lineClass text with
      | .passive => more = [] ∧ entries = []
      | .metadata => ∃ skipped, annotationEnd.toList ∉ skipped ∧
          more = skipped ++ [annotationEnd.toList] ∧ entries = []
      | .label => more = [] ∧ entries = [.label (String.ofList ((Text.splitWord text).1.drop 1))]
      | .instruction => more = [] ∧ ∃ mnemonic tokens opcode,
          Rule.all takeInstruction text = some (mnemonic, tokens) ∧
          Opcode.ofMnemonic? (String.ofList mnemonic) = some opcode ∧
          entries = [.instruction opcode tokens]
      | .packed | .sparse | .array => ∃ rows table, table.closing.toList ∉ rows ∧
          TableLines text (rows.filter (!·.isEmpty)) table ∧ more = rows ++ [table.closing.toList] ∧
          entries = [.table table]
      | .method | .methodEnd => False := by
  cases piece with
  | passive class_eq => exact ⟨_, [], rfl, by rw [class_eq]; exact ⟨rfl, rfl⟩⟩
  | metadata opens inside => exact ⟨_, _, rfl, by rw [opens]; exact ⟨_, inside, rfl, rfl⟩⟩
  | label class_eq => exact ⟨_, [], rfl, by rw [class_eq]; exact ⟨rfl, rfl⟩⟩
  | instruction class_eq reads known =>
      exact ⟨_, [], rfl, by rw [class_eq]; exact ⟨rfl, _, _, _, reads, known, rfl⟩⟩
  | @table _ rows table spelled inside =>
      refine ⟨_, _, rfl, ?_⟩
      rw [spelled.class_eq]
      cases table <;> exact ⟨rows, _, inside, spelled, rfl, rfl⟩

/-- A piece does not begin with a line that opens or closes a method. -/
theorem Piece.head {block : List (List Char)} {entries : List Entry} (piece : Piece block entries) :
    ∃ first rest, block = first :: rest ∧ lineClass first ≠ .method ∧
      lineClass first ≠ .methodEnd := by
  obtain ⟨text, more, rfl, shape⟩ := piece.shape
  refine ⟨text, more, rfl, ?_, ?_⟩
  all_goals
    intro isClass
    rw [isClass] at shape
    exact shape

/-- Lines begin with one piece only. -/
theorem Piece.unique {block other rest later : List (List Char)} {entries others : List Entry}
    (first : Piece block entries) (second : Piece other others)
    (same : block ++ rest = other ++ later) : block = other ∧ entries = others ∧ rest = later := by
  obtain ⟨text, more, rfl, shape⟩ := first.shape
  obtain ⟨text', more', rfl, shape'⟩ := second.shape
  rw [List.cons_append, List.cons_append] at same
  obtain ⟨rfl, tails⟩ := List.cons.inj same
  cases isClass : lineClass text
  all_goals
    rw [isClass] at shape shape'
    dsimp only at shape shape'
  case passive | label =>
    obtain ⟨rfl, rfl⟩ := shape
    obtain ⟨rfl, rfl⟩ := shape'
    exact ⟨rfl, rfl, tails⟩
  case metadata =>
    obtain ⟨skipped, inside, rfl, rfl⟩ := shape
    obtain ⟨skipped', inside', rfl, rfl⟩ := shape'
    simp only [List.append_assoc, List.singleton_append] at tails
    obtain ⟨rfl, rfl⟩ := append_cons_unique inside inside' tails
    exact ⟨rfl, rfl, rfl⟩
  case instruction =>
    obtain ⟨rfl, mnemonic, tokens, opcode, reads, known, rfl⟩ := shape
    obtain ⟨rfl, mnemonic', tokens', opcode', reads', known', rfl⟩ := shape'
    obtain ⟨rfl, rfl⟩ := Prod.mk.inj (Option.some.inj (reads.symm.trans reads'))
    obtain rfl := Option.some.inj (known.symm.trans known')
    exact ⟨rfl, rfl, tails⟩
  case packed | sparse | array =>
    obtain ⟨rows, table, inside, spelled, rfl, rfl⟩ := shape
    obtain ⟨rows', table', inside', spelled', rfl, rfl⟩ := shape'
    rw [spelled'.closing_eq spelled] at inside' tails ⊢
    simp only [List.append_assoc, List.singleton_append] at tails
    obtain ⟨rfl, rfl⟩ := append_cons_unique inside inside' tails
    obtain rfl := spelled.unique spelled'
    exact ⟨rfl, rfl, rfl⟩

/-- A body ends with the first line that closes its method. -/
theorem Body.unique {inner other rest later : List (List Char)} {entries others : List Entry}
    {closing closing' : List Char} (first : Body inner entries) (second : Body other others)
    (closes : lineClass closing = .methodEnd) (closes' : lineClass closing' = .methodEnd)
    (same : inner ++ closing :: rest = other ++ closing' :: later) :
    entries = others ∧ rest = later := by
  induction first generalizing other others with
  | nothing =>
      cases second with
      | nothing => exact ⟨rfl, (List.cons.inj same).2⟩
      | piece head _ =>
          obtain ⟨opening, _, rfl, -, notEnd⟩ := head.head
          exact (notEnd ((List.cons.inj same).1 ▸ closes)).elim
  | piece head _ ih =>
      cases second with
      | nothing =>
          obtain ⟨opening, _, rfl, -, notEnd⟩ := head.head
          exact (notEnd ((List.cons.inj same).1 ▸ closes')).elim
      | piece head' body =>
          rw [List.append_assoc, List.append_assoc] at same
          obtain ⟨rfl, rfl, others⟩ := head.unique head' same
          obtain ⟨rfl, rfl⟩ := ih body others
          exact ⟨rfl, rfl⟩

/-- Lines spell one list of bodies. -/
theorem Spells.unique {lines : List (List Char)} {bodies others : List (List Entry)}
    (first : Spells lines bodies) (second : Spells lines others) : bodies = others := by
  generalize same : lines = lines' at second
  induction first generalizing lines' others with
  | nothing =>
      cases second with
      | nothing => rfl
      | between head _ =>
          obtain ⟨opening, _, rfl, -⟩ := head.head
          cases same
      | method => cases same
  | between head _ ih =>
      cases second with
      | nothing =>
          obtain ⟨opening, _, rfl, -⟩ := head.head
          cases same
      | between head' rest =>
          obtain ⟨-, -, others⟩ := head.unique head' same
          exact ih _ others rest
      | method opens =>
          obtain ⟨opening, _, rfl, notMethod, -⟩ := head.head
          exact (notMethod ((List.cons.inj same).1 ▸ opens)).elim
  | method opens body closes _ ih =>
      cases second with
      | nothing => cases same
      | between head' rest =>
          obtain ⟨opening, _, rfl, notMethod, -⟩ := head'.head
          exact (notMethod ((List.cons.inj same).1 ▸ opens)).elim
      | method opens' body' closes' rest =>
          obtain ⟨rfl, others⟩ := body.unique body' closes closes' (List.cons.inj same).2
          rw [ih _ others rest]

end Dalvik.Listing
