import Dalvik.Proofs.Listing.Grammar
import Dalvik.Proofs.Listing.Interning
import Mathlib.Algebra.GroupWithZero.Nat

/-!
# Listings are read as they are spelled

While a listing is read, its progress holds the methods that the lines so far
spell, and the draft of an open method holds the entries of its body at the
addresses where they are placed.
-/

namespace Dalvik.Listing

/-! ## Where entries are placed -/

namespace Entry

/-- Size in code units; a label takes none. -/
def size : Entry → Nat
  | .label _ => 0
  | .instruction opcode _ => opcode.format.size
  | .table written => written.size

def isInstruction : Entry → Bool
  | .instruction _ _ => true
  | _ => false

end Entry

/-- Whether a body has instructions; a method without any has no code. -/
def hasCode (entries : List Entry) : Bool :=
  entries.any Entry.isInstruction

def endOf (addr : Nat) (entries : List Entry) : Nat :=
  addr + (entries.map Entry.size).sum

/-- Entries at their addresses: each is placed where the one before it ends. -/
def place : Nat → List Entry → List (Nat × Entry)
  | _, [] => []
  | addr, entry :: entries => (addr, entry) :: place (addr + entry.size) entries

def labelAt? : Nat × Entry → Option (String × Addr)
  | (addr, .label name) => some (name, addr)
  | _ => none

def instructionAt? : Nat × Entry → Option (Nat × Opcode × List Token)
  | (addr, .instruction opcode tokens) => some (addr, opcode, tokens)
  | _ => none

def tableAt? : Nat × Entry → Option (Addr × DraftPayload)
  | (addr, .table table) => some (addr, table)
  | _ => none

def instructionLines (entries : List Entry) : List (Nat × Opcode × List Token) :=
  (place 0 entries).filterMap instructionAt?

theorem endOf_append (addr : Nat) (entries more : List Entry) :
    endOf addr (entries ++ more) = endOf (endOf addr entries) more := by
  simp only [endOf, List.map_append, List.sum_append]
  omega

theorem place_append (addr : Nat) (entries more : List Entry) :
    place addr (entries ++ more) = place addr entries ++ place (endOf addr entries) more := by
  induction entries generalizing addr with
  | nil => rfl
  | cons entry entries ih =>
      rw [List.cons_append, place, place, ih, List.cons_append]
      congr 3
      simp only [endOf, List.map_cons, List.sum_cons]
      omega

/-- Placed entries with instructions among them are those of bodies with code. -/
theorem isEmpty_instructionsAt (addr : Nat) (entries : List Entry) :
    ((place addr entries).filterMap instructionAt?).isEmpty = !hasCode entries := by
  induction entries generalizing addr with
  | nil => rfl
  | cons entry entries ih =>
      cases entry with
      | instruction opcode tokens => rfl
      | label name => exact ih addr
      | table written => exact ih (addr + written.size)

/-- A draft that holds the entries of a body. -/
structure Draft.Holds (draft : Draft) (entries : List Entry) : Prop where
  addr : draft.addr = endOf 0 entries
  labels : draft.labels = (place 0 entries).filterMap labelAt?
  distinct : (draft.labels.map Prod.fst).Nodup
  instructions : draft.instructions.map (fun pending =>
    (pending.addr, pending.opcode, pending.tokens)) = instructionLines entries
  payloads : draft.payloads = (place 0 entries).filterMap tableAt?
  registers : ∀ count, draft.registers = some count → count < 65536

/-- A number that is read is below its bound. -/
theorem readUnsigned_lt {base bound number : Nat} {text : List Char}
    (success : readUnsigned base bound text = some number) : number < bound := by
  have bounded : ∀ digits : List Char,
      (if digits.isEmpty then none else (readDigits base 0 digits).filter (· < bound)) = some number →
        number < bound := by
    intro digits found
    split at found
    · cases found
    · exact of_decide_eq_true (Option.filter_eq_some_iff.mp found).2
  exact bounded _ success

namespace Draft

variable {draft after : Draft} {line : Nat} {entries : List Entry}

/-- A draft stays the same but for what is not placed. -/
theorem Holds.keep (holds : draft.Holds entries) (addr : after.addr = draft.addr)
    (labels : after.labels = draft.labels) (instructions : after.instructions = draft.instructions)
    (payloads : after.payloads = draft.payloads)
    (registers : ∀ count, after.registers = some count → count < 65536) : after.Holds entries where
  addr := addr.trans holds.addr
  labels := labels.trans holds.labels
  distinct := labels ▸ holds.distinct
  instructions := instructions ▸ holds.instructions
  payloads := payloads.trans holds.payloads
  registers := registers

theorem Holds.place_single (holds : draft.Holds entries) (entry : Entry) :
    place 0 (entries ++ [entry]) = place 0 entries ++ [(draft.addr, entry)] := by
  rw [place_append, holds.addr]
  rfl

theorem Holds.endOf_single (holds : draft.Holds entries) (entry : Entry) :
    endOf 0 (entries ++ [entry]) = draft.addr + entry.size := by
  rw [endOf_append, holds.addr]
  simp [endOf]

/-- One more entry is placed at the address of the draft. -/
theorem Holds.add (holds : draft.Holds entries) (entry : Entry)
    (addr : after.addr = draft.addr + entry.size)
    (labels : after.labels = draft.labels ++ (labelAt? (draft.addr, entry)).toList)
    (distinct : (after.labels.map Prod.fst).Nodup)
    (instructions : (after.instructions.map fun pending =>
      (pending.addr, pending.opcode, pending.tokens)) =
        (draft.instructions.map fun pending => (pending.addr, pending.opcode, pending.tokens)) ++
          (instructionAt? (draft.addr, entry)).toList)
    (payloads : after.payloads = draft.payloads ++ (tableAt? (draft.addr, entry)).toList)
    (registers : after.registers = draft.registers) : after.Holds (entries ++ [entry]) := by
  have last : ∀ {α : Type} (part : Nat × Entry → Option α),
      (place 0 (entries ++ [entry])).filterMap part =
        (place 0 entries).filterMap part ++ (part (draft.addr, entry)).toList := by
    intro α part
    rw [holds.place_single, List.filterMap_append]
    cases found : part (draft.addr, entry) <;> simp [found]
  constructor
  · rw [addr, holds.endOf_single]
  · rw [labels, holds.labels, last]
  · exact distinct
  · rw [instructions, holds.instructions, instructionLines, instructionLines, last]
  · rw [payloads, holds.payloads, last]
  · exact registers ▸ holds.registers

/-- A label is found exactly if it is there. -/
theorem isSome_lookup {labels : List (String × Addr)} {name : String} :
    (labels.lookup name).isSome = true ↔ name ∈ labels.map Prod.fst := by
  induction labels with
  | nil => simp
  | cons label labels ih =>
      rw [List.lookup_cons, List.map_cons, List.mem_cons, ← ih]
      by_cases same : name = label.1
      · simp [same]
      · simp only [beq_eq_false_iff_ne.mpr same, same, false_or]

/-- A label is added at the address of the draft. -/
theorem addLabel_holds {word : List Char} (holds : draft.Holds entries)
    (success : draft.addLabel line word = .ok after) :
    after.Holds (entries ++ [.label (String.ofList (word.drop 1))]) ∧
      after.pending = draft.pending := by
  unfold addLabel at success
  dsimp only at success
  split at success
  · cases success
  · rename_i unused
    rw [isSome_lookup] at unused
    obtain rfl := Except.ok.inj success
    refine ⟨holds.add (.label _) rfl rfl ?_ (List.append_nil _).symm (List.append_nil _).symm rfl,
      rfl⟩
    rw [List.map_append]
    refine List.nodup_append.mpr ⟨holds.distinct, List.pairwise_singleton _ _, ?_⟩
    intro name used other isNew same
    obtain rfl := same.trans (List.mem_singleton.mp isNew)
    exact unused used

/-- An instruction line is added at the address of the draft. -/
theorem addInstruction_holds {text : List Char} (holds : draft.Holds entries)
    (success : draft.addInstruction line text = .ok after) :
    ∃ mnemonic tokens opcode, Rule.all takeInstruction text = some (mnemonic, tokens) ∧
      Opcode.ofMnemonic? (String.ofList mnemonic) = some opcode ∧
      after.Holds (entries ++ [.instruction opcode tokens]) ∧ after.pending = draft.pending := by
  unfold addInstruction at success
  split at success
  · cases success
  · rename_i mnemonic tokens reads
    split at success
    · cases success
    · rename_i opcode known
      obtain rfl := Except.ok.inj success
      exact ⟨mnemonic, tokens, opcode, reads, known,
        holds.add (.instruction opcode tokens) rfl (List.append_nil _).symm holds.distinct
          List.map_append (List.append_nil _).symm rfl, rfl⟩

theorem addCatch_holds {word text : List Char} (holds : draft.Holds entries)
    (success : draft.addCatch line word text = .ok after) :
    after.Holds entries ∧ after.pending = draft.pending := by
  unfold addCatch at success
  split at success
  · cases success
  · simp only [bind_eq_ok, pure_eq_ok] at success
    obtain ⟨exception, -, rfl⟩ := success
    exact ⟨holds.keep rfl rfl rfl rfl holds.registers, rfl⟩

/-- The class of a line that is no method's, annotation's or `.end` line. -/
theorem lineClass_of_split {text word rest : List Char} (nonblank : text.isEmpty = false)
    (split : Text.splitWord text = (word, rest)) : lineClass text = wordClass word rest := by
  rw [lineClass, nonblank, split]
  rfl

/-- A line outside of tables adds what it spells, or opens a table. -/
theorem addLine_holds {text word rest : List Char} (holds : draft.Holds entries)
    (nonblank : text.isEmpty = false) (split : Text.splitWord text = (word, rest))
    (notMethod : word ≠ ".method".toList) (notEnd : word ≠ ".end".toList)
    (notMetadata : word ≠ ".annotation".toList ∧ word ≠ ".subannotation".toList)
    (success : draft.addLine line word rest text = .ok after) :
    (∃ added, Piece [text] added ∧ after.Holds (entries ++ added) ∧ after.pending = draft.pending) ∨
      ∃ table, TableLines text [] table ∧ after.Holds entries ∧ after.pending = some table := by
  have kind := lineClass_of_split nonblank split
  have unchanged : ∀ {after : Draft}, lineClass text = .passive →
      after.Holds entries ∧ after.pending = draft.pending →
      ∃ added, Piece [text] added ∧ after.Holds (entries ++ added) ∧ after.pending = draft.pending := by
    rintro after passive ⟨same, idle⟩
    exact ⟨[], .passive passive, by rwa [List.append_nil], idle⟩
  unfold addLine at success
  split at success
  · rename_i registers
    have passive : lineClass text = .passive := by
      rcases registers with rfl | rfl <;> exact kind
    left
    split at success
    · cases success
    · rename_i count isCount
      split at success
      · obtain rfl := Except.ok.inj success
        refine unchanged passive ⟨holds.keep rfl rfl rfl rfl fun registers same => ?_, rfl⟩
        obtain rfl := Option.some.inj same
        exact readUnsigned_lt isCount
      · obtain rfl := Except.ok.inj success
        exact unchanged passive ⟨holds.keep rfl rfl rfl rfl holds.registers, rfl⟩
  split at success
  · rename_i catches
    have passive : lineClass text = .passive := by
      rcases catches with rfl | rfl <;> exact kind
    exact .inl (unchanged passive (addCatch_holds holds success))
  split at success
  · rename_i packed
    subst packed
    split at success
    · cases success
    · rename_i key isKey
      obtain rfl := Except.ok.inj success
      refine .inr ⟨_, .packed kind ?_ .nil, holds.keep rfl rfl rfl rfl holds.registers, rfl⟩
      rwa [split]
  split at success
  · rename_i sparse
    subst sparse
    obtain rfl := Except.ok.inj success
    exact .inr ⟨_, .sparse kind .nil, holds.keep rfl rfl rfl rfl holds.registers, rfl⟩
  split at success
  · rename_i array
    subst array
    split at success
    · cases success
    · rename_i width isWidth
      obtain rfl := Except.ok.inj success
      obtain ⟨isCount, known⟩ := Option.filter_eq_some_iff.mp isWidth
      refine .inr ⟨_, @TableLines.array _ [] _ [] kind ?_ (List.contains_iff_mem.mp known) .nil,
        holds.keep rfl rfl rfl rfl holds.registers, rfl⟩
      rwa [split]
  rename_i notPacked notSparse notArray
  have other : lineClass text = if word.head? = some ':' then .label
      else if word.head? = some '.' then .passive else .instruction := by
    rw [kind, wordClass, if_neg notMethod, if_neg (fun both => notEnd both.1),
      if_neg (not_or.mpr notMetadata), if_neg notPacked, if_neg notSparse, if_neg notArray]
  left
  split at success
  · rename_i colon
    rw [if_pos colon] at other
    obtain ⟨added, idle⟩ := addLabel_holds holds success
    have word_eq : (Text.splitWord text).1 = word := by rw [split]
    refine ⟨_, .label other, ?_, idle⟩
    rwa [word_eq]
  split at success
  · cases success
  · rename_i notColon notDot
    rw [if_neg notColon, if_neg notDot] at other
    obtain ⟨mnemonic, tokens, opcode, reads, known, added, idle⟩ := addInstruction_holds holds success
    exact ⟨_, .instruction other reads known, added, idle⟩

/-- One more line of a table fills it as it is spelled. -/
theorem addLine_tableLines {opening text : List Char} {rows : List (List Char)}
    {table longer : DraftPayload} (spelled : TableLines opening rows table)
    (success : table.addLine text = some longer) : TableLines opening (rows ++ [text]) longer := by
  cases spelled with
  | packed opens isKey each =>
      obtain ⟨label, reads, rfl⟩ := Option.map_eq_some_iff.mp success
      exact .packed opens isKey (List.rel_append each (.cons reads .nil))
  | sparse opens each =>
      obtain ⟨⟨literal, label⟩, reads, success⟩ := Option.bind_eq_some_iff.mp success
      cases literal with
      | int value =>
          obtain ⟨key, narrow, success⟩ := Option.bind_eq_some_iff.mp success
          obtain rfl := Option.some.inj success
          exact .sparse opens (List.rel_append each (.cons ⟨value, reads, narrow⟩ .nil))
      | float bits => cases success
      | double bits => cases success
  | array opens isWidth known each =>
      obtain ⟨literals, reads, rfl⟩ := Option.map_eq_some_iff.mp success
      have spelled := TableLines.array opens isWidth known (List.rel_append each (.cons reads .nil))
      rwa [List.flatten_append, List.flatten_singleton, List.map_append] at spelled

/-- A line of an open table fills it, or closes it and places it at the address of the draft. -/
theorem addPayloadLine_holds {opening text : List Char} {rows : List (List Char)}
    {table : DraftPayload} (holds : draft.Holds entries) (nonblank : text.isEmpty = false)
    (spelled : TableLines opening (rows.filter (!·.isEmpty)) table)
    (inside : table.closing.toList ∉ rows)
    (success : draft.addPayloadLine table line text = .ok after) :
    (Piece (opening :: (rows ++ [text])) [.table table] ∧
      after.Holds (entries ++ [.table table]) ∧ after.pending = none) ∨
      ∃ longer, TableLines opening ((rows ++ [text]).filter (!·.isEmpty)) longer ∧
        longer.closing.toList ∉ rows ++ [text] ∧ after.Holds entries ∧
        after.pending = some longer := by
  unfold addPayloadLine at success
  split at success
  · rename_i closes
    subst closes
    obtain rfl := Except.ok.inj success
    exact .inl ⟨.table spelled inside, holds.add (.table table) rfl (List.append_nil _).symm
      holds.distinct (List.append_nil _).symm rfl rfl, rfl⟩
  · rename_i notClosing
    split at success
    · cases success
    · rename_i longer fills
      obtain rfl := Except.ok.inj success
      have longerSpelled := addLine_tableLines spelled fills
      refine .inr ⟨longer, ?_, ?_, holds.keep rfl rfl rfl rfl holds.registers, rfl⟩
      · rw [List.filter_append, List.filter_singleton, nonblank]
        exact longerSpelled
      · rw [← spelled.closing_eq longerSpelled]
        intro member
        rcases List.mem_append.mp member with before | isText
        · exact inside before
        · exact notClosing (List.mem_singleton.mp isText).symm

/-- A frame has at most as many registers as there are. -/
theorem Holds.frame_lt {frame : Frame} (holds : draft.Holds entries)
    (success : draft.frame = .ok frame) : frame.registers < 65536 := by
  unfold Draft.frame at success
  dsimp only at success
  split at success
  · rename_i given
    obtain rfl := Except.ok.inj success
    exact holds.registers _ given
  · obtain rfl := Except.ok.inj success
    exact Nat.lt_of_le_of_lt (Nat.min_le_right _ _) (by decide)
  · cases success

end Draft

/-! ## Reading line by line -/

def Assembles (entries : List Entry) (code : Code) : Prop :=
  ∃ (draft : Draft) (pool later : Pool), draft.Holds entries ∧
    draft.assemble pool = .ok (later, code)

/-- A body and code that is assembled from it, in a pool that holds the method it names. -/
def AssemblesIn (pool : Pool) (entries : List Entry) (code : Code) : Prop :=
  ∃ (draft : Draft) (before later : Pool), draft.Holds entries ∧
    draft.assemble before = .ok (later, code) ∧ pool.method code.method = .ok draft.method

structure Codes (listing : Listing) (bodies : List (List Entry)) : Prop where
  canonical : listing.pool.Canonical
  assembled : List.Forall₂ (AssemblesIn listing.pool) (bodies.filter hasCode) listing.methods

theorem AssemblesIn.later {pool later : Pool} {entries : List Entry} {code : Code}
    (grown : pool.Extends later) (assembles : AssemblesIn pool entries code) :
    AssemblesIn later entries code := by
  obtain ⟨draft, before, after, holds, assembled, known⟩ := assembles
  exact ⟨draft, before, after, holds, assembled,
    Pool.item_eq_method.mp (grown.item (Pool.item_eq_method.mpr known))⟩

/-- A body without instructions adds no code. -/
theorem Codes.skip {listing : Listing} {bodies : List (List Entry)} {entries : List Entry}
    (codes : Codes listing bodies) (empty : hasCode entries = false) :
    Codes listing (bodies ++ [entries]) := by
  refine ⟨codes.canonical, ?_⟩
  rw [List.filter_append, List.filter_singleton, empty]
  simpa using codes.assembled

/-- A draft of a body with instructions adds its code. -/
theorem Codes.add {listing : Listing} {bodies : List (List Entry)} {entries : List Entry}
    {draft : Draft} {pool : Pool} {code : Code} (codes : Codes listing bodies)
    (some : hasCode entries = true) (holds : draft.Holds entries)
    (assembled : draft.assemble listing.pool = .ok (pool, code)) :
    Codes ⟨pool, listing.methods ++ [code]⟩ (bodies ++ [entries]) := by
  obtain ⟨grown, known⟩ := Draft.method_of_assemble assembled
  refine ⟨grown.canonical codes.canonical, ?_⟩
  rw [List.filter_append, List.filter_singleton, some]
  refine List.rel_append (codes.assembled.imp fun _ _ => AssemblesIn.later grown) ?_
  exact .cons ⟨draft, _, pool, holds, assembled, known codes.canonical⟩ .nil

/-- The lines of a method that is not closed yet. -/
inductive Opened : Option Draft → List (List Char) → Prop where
  | outside : Opened none []
  | inside {draft : Draft} {opening : List Char} {inner : List (List Char)} {entries : List Entry}
      (opens : lineClass opening = .method) (body : Body inner entries)
      (holds : draft.Holds entries) : Opened (some draft) (opening :: inner)

/-- The lines of an annotation or table that is not closed yet. -/
inductive Unfinished : Bool → Option DraftPayload → List (List Char) → Prop where
  | nothing : Unfinished false none []
  | metadata {opening : List Char} {skipped : List (List Char)}
      (opens : lineClass opening = .metadata) (inside : annotationEnd.toList ∉ skipped) :
      Unfinished true none (opening :: skipped)
  | table {opening : List Char} {rows : List (List Char)} {table : DraftPayload}
      (spelled : TableLines opening (rows.filter (!·.isEmpty)) table)
      (inside : table.closing.toList ∉ rows) : Unfinished false (some table) (opening :: rows)

/-- Progress after the lines of closed methods, those of an open one, and those of an open block
inside or outside of it. -/
structure Standing (progress : Progress) (earlier opened block : List (List Char))
    (bodies : List (List Entry)) : Prop where
  spelled : Spells earlier bodies
  codes : Codes progress.listing bodies
  method : Opened progress.draft opened
  unfinished : Unfinished progress.skipping (progress.draft.bind Draft.pending) block

/-- Progress after lines, however they are divided. -/
def Stands (progress : Progress) (lines : List (List Char)) : Prop :=
  ∃ earlier opened block bodies, lines = earlier ++ (opened ++ block) ∧
    Standing progress earlier opened block bodies

variable {progress after : Progress} {earlier opened block : List (List Char)}
  {bodies : List (List Entry)} {line : Nat} {text : List Char}

theorem Unfinished.of_nil {skipping : Bool} {table : Option DraftPayload}
    (unfinished : Unfinished skipping table []) : skipping = false ∧ table = none := by
  cases unfinished
  exact ⟨rfl, rfl⟩

/-- A piece without code belongs to the open method, or stands between methods. -/
theorem stands_of_piece (spelled : Spells earlier bodies)
    (codes : Codes progress.listing bodies)
    (method : Opened progress.draft opened) (piece : Piece block [])
    (unfinished : Unfinished progress.skipping (progress.draft.bind Draft.pending) []) :
    Stands progress (earlier ++ (opened ++ block)) := by
  cases draft : progress.draft with
  | none =>
      rw [draft] at method
      cases method
      have longer : Spells (earlier ++ block) bodies := by
        simpa using spelled.append (.between piece .nothing)
      exact ⟨earlier ++ block, [], [], bodies, by simp, longer, codes, draft ▸ .outside, unfinished⟩
  | some draft' =>
      rw [draft] at method
      cases method with
      | @inside _ opening inner entries opens body holds =>
          have longer := body.append (.single piece)
          rw [List.append_nil] at longer
          exact ⟨earlier, opening :: (inner ++ block), [], bodies, by simp, spelled, codes,
            draft ▸ .inside opens longer holds, unfinished⟩

/-- A line without effect. -/
theorem Standing.passive (standing : Standing progress earlier opened [] bodies)
    (passive : lineClass text = .passive) (listing : after.listing = progress.listing)
    (draft : after.draft = progress.draft) (skipping : after.skipping = progress.skipping) :
    Stands after (earlier ++ (opened ++ [text])) := by
  apply stands_of_piece standing.spelled
  · rw [listing]
    exact standing.codes
  · rw [draft]
    exact standing.method
  · exact .passive passive
  · rw [skipping, draft]
    exact standing.unfinished

namespace Progress

/-- The line that closes a method completes its body. -/
theorem closeMethod_stands (standing : Standing progress earlier opened [] bodies)
    (closes : lineClass text = .methodEnd) (success : progress.closeMethod line = .ok after) :
    Stands after (earlier ++ (opened ++ [text])) := by
  have idle := standing.unfinished.of_nil.1
  have method := standing.method
  unfold closeMethod at success
  split at success
  · cases success
  · rename_i draft given
    rw [given] at method
    cases method with
    | @inside _ opening inner entries opens body holds =>
        have longer : Spells (earlier ++ (opening :: inner ++ [text])) (bodies ++ [entries]) :=
          standing.spelled.append (.method opens body closes .nothing)
        have isEmpty : draft.instructions.isEmpty = !hasCode entries := by
          rw [← isEmpty_instructionsAt 0 entries, ← List.isEmpty_map, holds.instructions]
          rfl
        split at success
        · rename_i empty
          obtain rfl := Except.ok.inj success
          rw [isEmpty, Bool.not_eq_true'] at empty
          exact ⟨_, [], [], _, (List.append_nil _).symm, longer, standing.codes.skip empty, .outside,
            idle ▸ .nothing⟩
        · rename_i some
          simp only [bind_eq_ok, pure_eq_ok, Prod.exists] at success
          obtain ⟨pool, code, assembled, rfl⟩ := success
          rw [isEmpty, Bool.not_eq_true', Bool.not_eq_false] at some
          exact ⟨_, [], [], _, (List.append_nil _).symm, longer,
            standing.codes.add some holds assembled, .outside, idle ▸ .nothing⟩

/-- The line that opens a method opens an empty draft. -/
theorem openMethod_stands {rest : List Char} (standing : Standing progress earlier opened [] bodies)
    (opens : lineClass text = .method) (success : progress.openMethod line rest = .ok after) :
    Stands after (earlier ++ (opened ++ [text])) := by
  have idle := standing.unfinished.of_nil.1
  have method := standing.method
  have empty : ∀ method flags,
      Draft.Holds ⟨line, method, flags, none, none, 0, [], [], [], [], none⟩ [] :=
    fun _ _ => ⟨rfl, rfl, .nil, rfl, rfl, nofun⟩
  unfold openMethod at success
  dsimp only at success
  split at success
  · cases success
  · rename_i closed
    have noDraft : progress.draft = none := by simpa using closed
    rw [noDraft] at method
    cases method
    split at success
    · split at success
      · simp only [bind_eq_ok] at success
        obtain ⟨flags, -, success⟩ := success
        split at success
        · cases success
        · simp only [bind_eq_ok, pure_eq_ok] at success
          obtain ⟨prototype, -, rfl⟩ := success
          exact ⟨earlier, [text], [], bodies, by simp, standing.spelled, standing.codes,
            .inside opens .nothing (empty _ _), idle ▸ .nothing⟩
      · cases success
    · cases success

theorem toList_of_ofList {word : List Char} {name : String} (same : String.ofList word = name) :
    word = name.toList := by
  rw [← same, String.toList_ofList]

/-- Directives without effect are passed over. -/
theorem wordClass_of_ignored {word rest : List Char}
    (ignored : ignoredDirectives.contains (String.ofList word) = true) :
    wordClass word rest = .passive := by
  have known : ∀ name ∈ ignoredDirectives, wordClass name.toList rest = .passive := by
    simp only [ignoredDirectives, List.forall_mem_cons, List.not_mem_nil, false_implies,
      implies_true, and_true]
    exact ⟨rfl, rfl, rfl, rfl, rfl, rfl, rfl, rfl, rfl, rfl⟩
  have passive := known _ (List.contains_iff_mem.mp ignored)
  rwa [String.toList_ofList] at passive

/-- A line that is added to the draft of the open method. -/
theorem addedLine_stands {draft longer : Draft} {word rest : List Char}
    (standing : Standing progress earlier opened [] bodies) (given : progress.draft = some draft)
    (nonblank : text.isEmpty = false) (split : Text.splitWord text = (word, rest))
    (notMethod : word ≠ ".method".toList) (notEnd : word ≠ ".end".toList)
    (notMetadata : word ≠ ".annotation".toList ∧ word ≠ ".subannotation".toList)
    (added : draft.addLine line word rest text = .ok longer) :
    Stands { progress with draft := some longer } (earlier ++ (opened ++ [text])) := by
  obtain ⟨idle, noTable⟩ := standing.unfinished.of_nil
  have pending : draft.pending = none := by rwa [given] at noTable
  have method := standing.method
  rw [given] at method
  cases method with
  | @inside _ opening inner entries opens body holds =>
      rcases Draft.addLine_holds holds nonblank split notMethod notEnd notMetadata added with
        ⟨entries', piece, holds', pending'⟩ | ⟨table, spelled, holds', pending'⟩
      · have unfinished : Unfinished progress.skipping longer.pending [] := by
          rw [idle, pending'.trans pending]
          exact .nothing
        exact ⟨earlier, opening :: (inner ++ [text]), [], bodies, by simp, standing.spelled,
          standing.codes, .inside opens (body.append (.single piece)) holds', unfinished⟩
      · have unfinished : Unfinished progress.skipping longer.pending [text] := by
          rw [idle, pending']
          exact .table spelled List.not_mem_nil
        exact ⟨earlier, opening :: inner, [text], bodies, rfl, standing.spelled, standing.codes,
          .inside opens body holds', unfinished⟩

/-- A line that is read outside of tables and annotations. -/
theorem readPlainLine_stands (standing : Standing progress earlier opened [] bodies)
    (nonblank : text.isEmpty = false) (success : progress.readPlainLine line text = .ok after) :
    Stands after (earlier ++ (opened ++ [text])) := by
  generalize split : Text.splitWord text = parts at success
  obtain ⟨word, rest⟩ := parts
  have kind := Draft.lineClass_of_split nonblank split
  have noTable := standing.unfinished.of_nil.2
  unfold readPlainLine at success
  rw [split] at success
  dsimp only at success
  split at success
  · rename_i isClass
    obtain rfl := toList_of_ofList isClass
    simp only [bind_eq_ok, pure_eq_ok] at success
    obtain ⟨owner, -, rfl⟩ := success
    exact standing.passive kind rfl rfl rfl
  split at success
  · rename_i ignored
    obtain rfl := pure_eq_ok.mp success
    exact standing.passive (kind.trans (wordClass_of_ignored ignored)) rfl rfl rfl
  split at success
  · rename_i isMetadata
    have opens : lineClass text = .metadata := by
      rcases isMetadata with isMetadata | isMetadata
      all_goals
        obtain rfl := toList_of_ofList isMetadata
        exact kind
    obtain rfl := pure_eq_ok.mp success
    refine ⟨earlier, opened, [text], bodies, rfl, standing.spelled, standing.codes,
      standing.method, ?_⟩
    change Unfinished true (progress.draft.bind Draft.pending) [text]
    rw [noTable]
    exact .metadata opens List.not_mem_nil
  rename_i notMetadata
  split at success
  · rename_i isEnd
    obtain rfl := toList_of_ofList isEnd
    split at success
    · rename_i isMethod
      obtain rfl := toList_of_ofList isMethod
      exact closeMethod_stands standing kind success
    · rename_i isField
      obtain rfl := toList_of_ofList isField
      obtain rfl := pure_eq_ok.mp success
      exact standing.passive kind rfl rfl rfl
    · rename_i isParam
      obtain rfl := toList_of_ofList isParam
      obtain rfl := pure_eq_ok.mp success
      exact standing.passive kind rfl rfl rfl
    · rename_i isLocal
      obtain rfl := toList_of_ofList isLocal
      obtain rfl := pure_eq_ok.mp success
      exact standing.passive kind rfl rfl rfl
    · cases success
  rename_i notEnd
  split at success
  · rename_i isMethod
    obtain rfl := toList_of_ofList isMethod
    exact openMethod_stands standing kind success
  rename_i notMethod
  split at success
  · cases success
  · rename_i draft given
    simp only [bind_eq_ok, pure_eq_ok] at success
    obtain ⟨longer, added, rfl⟩ := success
    refine addedLine_stands standing given nonblank split ?_ ?_ ⟨?_, ?_⟩ added
    all_goals
      rintro rfl
      simp_all

/-- A blank line changes nothing. -/
theorem blankLine_stands (standing : Standing progress earlier opened block bodies) :
    Stands progress (earlier ++ (opened ++ block) ++ [[]]) := by
  have unfinished := standing.unfinished
  generalize isTable : progress.draft.bind Draft.pending = table at unfinished
  generalize isSkipping : progress.skipping = skipping at unfinished
  cases unfinished with
  | nothing =>
      rw [List.append_nil, List.append_assoc]
      exact standing.passive rfl rfl rfl rfl
  | @metadata opening skipped opens inside =>
      have longer : annotationEnd.toList ∉ skipped ++ [[]] := by
        simpa [annotationEnd] using inside
      refine ⟨earlier, opened, opening :: (skipped ++ [[]]), bodies, by simp, standing.spelled,
        standing.codes, standing.method, ?_⟩
      rw [isTable, isSkipping]
      exact .metadata opens longer
  | @table opening rows table spelled inside =>
      have notClosing : table.closing.toList ≠ [] := by
        cases table <;> simp [DraftPayload.closing]
      refine ⟨earlier, opened, opening :: (rows ++ [[]]), bodies, by simp, standing.spelled,
        standing.codes, standing.method, ?_⟩
      rw [isTable, isSkipping]
      refine .table ?_ ?_
      · rw [List.filter_append]
        simpa using spelled
      · simpa [notClosing] using inside

/-- A line inside of an annotation is skipped. -/
theorem skippedLine_stands (standing : Standing progress earlier opened block bodies)
    (skipping : progress.skipping = true) :
    Stands { progress with skipping := text ≠ annotationEnd.toList }
      (earlier ++ (opened ++ block) ++ [text]) := by
  have unfinished := standing.unfinished
  rw [skipping] at unfinished
  generalize isTable : progress.draft.bind Draft.pending = table at unfinished
  cases unfinished with
  | @metadata opening skipped opens inside =>
      have lines_eq : earlier ++ (opened ++ opening :: skipped) ++ [text] =
          earlier ++ (opened ++ opening :: (skipped ++ [text])) := by simp
      rw [lines_eq]
      by_cases ends : text = annotationEnd.toList
      · subst ends
        refine stands_of_piece standing.spelled standing.codes standing.method
          (.metadata opens inside) ?_
        change Unfinished _ (progress.draft.bind Draft.pending) []
        rw [isTable, decide_eq_false (not_not_intro rfl)]
        exact .nothing
      · refine ⟨earlier, opened, _, bodies, rfl, standing.spelled, standing.codes,
          standing.method, ?_⟩
        change Unfinished _ (progress.draft.bind Draft.pending) _
        rw [isTable, decide_eq_true ends]
        refine .metadata opens fun member => ?_
        rcases List.mem_append.mp member with before | isText
        · exact inside before
        · exact ends (List.mem_singleton.mp isText).symm

/-- A line inside of a table fills or closes it. -/
theorem tableLine_stands {draft longer : Draft} {table : DraftPayload}
    (standing : Standing progress earlier opened block bodies) (given : progress.draft = some draft)
    (pending : draft.pending = some table) (nonblank : text.isEmpty = false)
    (success : draft.addPayloadLine table line text = .ok longer) :
    Stands { progress with draft := some longer } (earlier ++ (opened ++ block) ++ [text]) := by
  have unfinished := standing.unfinished
  have method := standing.method
  rw [given, Option.bind_some, pending] at unfinished
  rw [given] at method
  generalize isSkipping : progress.skipping = skipping at unfinished
  cases unfinished with
  | @table start rows _ spelled inside =>
      cases method with
      | @inside _ opening inner entries opens body holds =>
          rcases Draft.addPayloadLine_holds holds nonblank spelled inside success with
            ⟨piece, holds', pending'⟩ | ⟨table', spelled', inside', holds', pending'⟩
          · have closed : Unfinished false longer.pending [] := pending' ▸ .nothing
            exact ⟨earlier, opening :: (inner ++ start :: (rows ++ [text])), [], bodies, by simp,
              standing.spelled, standing.codes, .inside opens (body.append (.single piece)) holds',
              closed⟩
          · have filled : Unfinished false longer.pending (start :: (rows ++ [text])) :=
              pending' ▸ .table spelled' inside'
            exact ⟨earlier, opening :: inner, start :: (rows ++ [text]), bodies, by simp,
              standing.spelled, standing.codes, .inside opens body holds', filled⟩

/-- Progress still stands for the lines when one more is read. -/
theorem readLine_stands {lines : List (List Char)} (stands : Stands progress lines)
    (success : progress.readLine line text = .ok after) : Stands after (lines ++ [text]) := by
  obtain ⟨earlier, opened, block, bodies, rfl, standing⟩ := stands
  unfold readLine at success
  split at success
  · rename_i blank
    obtain rfl := Except.ok.inj success
    obtain rfl := List.isEmpty_iff.mp blank
    exact blankLine_stands standing
  rename_i nonblank
  rw [Bool.not_eq_true] at nonblank
  split at success
  · rename_i skipping
    obtain rfl := Except.ok.inj success
    exact skippedLine_stands standing skipping
  rename_i notSkipping
  rw [Bool.not_eq_true] at notSkipping
  have plain : progress.draft.bind Draft.pending = none →
      progress.readPlainLine line text = .ok after →
      Stands after (earlier ++ (opened ++ block) ++ [text]) := by
    intro noTable read
    have unfinished := standing.unfinished
    rw [notSkipping, noTable] at unfinished
    cases unfinished
    rw [List.append_nil, List.append_assoc]
    exact readPlainLine_stands standing nonblank read
  split at success
  · rename_i draft given
    split at success
    · rename_i table pending
      simp only [bind_eq_ok, pure_eq_ok] at success
      obtain ⟨longer, added, rfl⟩ := success
      exact tableLine_stands standing given pending nonblank added
    · rename_i pending
      exact plain (by rw [given, Option.bind_some, pending]) success
  · rename_i noDraft
    exact plain (by rw [noDraft, Option.bind_none]) success

theorem readLines_stands {lines texts : List (List Char)} (stands : Stands progress lines)
    (success : progress.readLines line texts = .ok after) :
    Stands after (lines ++ texts.map fun text => Text.trim (stripComment text)) := by
  induction texts generalizing progress lines line with
  | nil =>
      obtain rfl := Except.ok.inj success
      simpa using stands
  | cons text texts ih =>
      obtain ⟨middle, first, rest⟩ := bind_eq_ok.mp success
      have longer := ih (readLine_stands stands first) rest
      rwa [List.append_assoc, List.singleton_append] at longer

end Progress

/-- A listing spells one list of bodies, and has the code of those with instructions. -/
theorem read_codes {text : String} {listing : Listing} (success : read text = .ok listing) :
    ∃ bodies, Spells (writtenLines text) bodies ∧ Codes listing bodies := by
  obtain ⟨progress, isRead, finished⟩ := bind_eq_ok.mp success
  have start : Stands {} [] :=
    ⟨[], [], [], [], rfl, .nothing, ⟨Pool.canonical_empty, .nil⟩, .outside, .nothing⟩
  obtain ⟨earlier, opened, block, bodies, lines_eq, standing⟩ :=
    Progress.readLines_stands start isRead
  unfold Progress.finish at finished
  split at finished
  · cases finished
  · rename_i noDraft
    split at finished
    · cases finished
    · rename_i notSkipping
      obtain rfl := Except.ok.inj finished
      have method := standing.method
      have unfinished := standing.unfinished
      rw [Bool.not_eq_true] at notSkipping
      rw [noDraft, Option.bind_none, notSkipping] at unfinished
      rw [noDraft] at method
      cases method
      cases unfinished
      rw [List.append_nil, List.append_nil, List.nil_append] at lines_eq
      refine ⟨bodies, ?_, standing.codes⟩
      rw [writtenLines, lines_eq]
      exact standing.spelled

/-- A listing spells one list of bodies, and those with instructions are assembled to its code. -/
theorem read_assembles {text : String} {listing : Listing} (success : read text = .ok listing) :
    ∃ bodies, Spells (writtenLines text) bodies ∧
      List.Forall₂ Assembles (bodies.filter hasCode) listing.methods := by
  obtain ⟨bodies, spelled, codes⟩ := read_codes success
  refine ⟨bodies, spelled, codes.assembled.imp ?_⟩
  rintro entries code ⟨draft, before, later, holds, assembled, -⟩
  exact ⟨draft, before, later, holds, assembled⟩

end Dalvik.Listing
