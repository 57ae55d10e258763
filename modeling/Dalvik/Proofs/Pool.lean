import Dalvik.Pool
import Dalvik.Proofs.Success

/-!
# Interning

A section holds each item once, and its two parts are inverse to each other.
Interning keeps this and only ever adds at the end, so an index stands for the
same item as long as the pool lives, whatever is interned later.
-/

namespace Dalvik

namespace PoolSection

variable {α : Type} {sect later : PoolSection α} {item : α} {index : Nat}

theorem get?_of_prefix (grown : sect.items <+: later.items)
    (found : sect.get? index = some item) : later.get? index = some item := by
  obtain ⟨added, isLater⟩ := grown
  obtain ⟨old, -⟩ := List.getElem?_eq_some_iff.mp found
  rw [get?, ← isLater, List.getElem?_append_left old]
  exact found

variable [BEq α]

/-- A section without duplicates, whose indices by item are the inverse of its items by index. -/
structure Canonical (sect : PoolSection α) : Prop where
  nodup : sect.items.Nodup
  inverse : ∀ item index, sect.ids.lookup item = some index ↔ sect.items[index]? = some item

theorem canonical_empty : ({} : PoolSection α).Canonical where
  nodup := List.nodup_nil
  inverse _ _ := ⟨nofun, nofun⟩

theorem intern_of_lookup (known : sect.ids.lookup item = some index) :
    sect.intern item = (sect, index) := by
  rw [intern, idOf?, known]

theorem intern_of_lookup_none (new : sect.ids.lookup item = none) :
    sect.intern item =
      (⟨sect.items ++ [item], (item, sect.items.length) :: sect.ids⟩, sect.items.length) := by
  rw [intern, idOf?, new]

theorem Canonical.not_mem (canonical : sect.Canonical) (new : sect.ids.lookup item = none) :
    item ∉ sect.items := by
  intro member
  obtain ⟨index, found⟩ := List.getElem?_of_mem member
  rw [(canonical.inverse item index).mpr found] at new
  cases new

/-- Items are only added at the end. -/
theorem prefix_intern (sect : PoolSection α) (item : α) :
    sect.items <+: (sect.intern item).1.items := by
  cases known : sect.ids.lookup item with
  | some index => exact ⟨[], by rw [intern_of_lookup known, List.append_nil]⟩
  | none => exact ⟨[item], by rw [intern_of_lookup_none known]⟩

/-- No item has two indices. -/
theorem Canonical.index_unique (canonical : sect.Canonical) {first second : Nat}
    (one : sect.get? first = some item) (two : sect.get? second = some item) : first = second :=
  Option.some.inj (((canonical.inverse item first).mpr one).symm.trans
    ((canonical.inverse item second).mpr two))

/-- The index given for an item stands for it. -/
theorem Canonical.get?_intern (canonical : sect.Canonical) (item : α) :
    (sect.intern item).1.get? (sect.intern item).2 = some item := by
  cases known : sect.ids.lookup item with
  | some index =>
      rw [intern_of_lookup known]
      exact (canonical.inverse item index).mp known
  | none =>
      rw [intern_of_lookup_none known]
      exact List.getElem?_concat_length

variable [LawfulBEq α]

/-- An item that is new is added to both parts. -/
theorem Canonical.add (canonical : sect.Canonical) (new : sect.ids.lookup item = none) :
    PoolSection.Canonical ⟨sect.items ++ [item], (item, sect.items.length) :: sect.ids⟩ where
  nodup := by
    refine List.nodup_append.mpr ⟨canonical.nodup, List.pairwise_singleton _ item, ?_⟩
    rintro first inItems second isItem rfl
    rw [List.mem_singleton.mp isItem] at inItems
    exact canonical.not_mem new inItems
  inverse other index := by
    by_cases same : other = item
    · subst same
      rw [List.lookup_cons_self]
      constructor
      · intro isLast
        rw [← Option.some.inj isLast, List.getElem?_concat_length]
      · intro found
        rcases Nat.lt_or_ge index sect.items.length with old | behind
        · rw [List.getElem?_append_left old] at found
          exact absurd (List.mem_of_getElem? found) (canonical.not_mem new)
        · rw [List.getElem?_append_right behind, List.getElem?_singleton] at found
          split at found
          · exact congrArg some (by omega)
          · cases found
    · have differs : (other == item) = false := beq_false_of_ne same
      rw [List.lookup_cons, differs]
      dsimp only
      rw [canonical.inverse]
      rcases Nat.lt_or_ge index sect.items.length with old | behind
      · rw [List.getElem?_append_left old]
      · rw [List.getElem?_append_right behind, List.getElem?_eq_none behind, List.getElem?_singleton]
        split
        · exact ⟨nofun, fun isItem => absurd (Option.some.inj isItem).symm same⟩
        · exact Iff.rfl

/-- Interning keeps a section canonical. -/
theorem Canonical.intern (canonical : sect.Canonical) (item : α) :
    (sect.intern item).1.Canonical := by
  cases known : sect.ids.lookup item with
  | some index =>
      rw [intern_of_lookup known]
      exact canonical
  | none =>
      rw [intern_of_lookup_none known]
      exact canonical.add known

end PoolSection

/-! ## Items of all sections -/

theorem PoolRef.eq_of {one two : PoolRef} (sameKind : one.kind = two.kind)
    (sameIndex : one.index = two.index) : one = two := by
  cases one
  cases two
  cases sameKind
  cases sameIndex
  rfl

inductive PoolItem where
  | string (text : String)
  | type (type : Descriptor)
  | field (field : FieldRef)
  | method (method : MethodRef)
  deriving DecidableEq, Repr

def PoolItem.kind : PoolItem → ReferenceKind
  | .string _ => .string
  | .type _ => .type
  | .field _ => .field
  | .method _ => .method

namespace Pool

def intern (pool : Pool) : PoolItem → Pool × Nat
  | .string text => pool.internString text
  | .type type => pool.internType type
  | .field field => pool.internField field
  | .method method => pool.internMethod method

/-- Intern items one after the other; each has its reference. -/
def internAll (pool : Pool) : List PoolItem → Pool × List PoolRef
  | [] => (pool, [])
  | item :: items =>
      let (grown, index) := pool.intern item
      let (last, references) := grown.internAll items
      (last, ⟨item.kind, index⟩ :: references)

def item (pool : Pool) (reference : PoolRef) : Except CodeError PoolItem :=
  match reference.kind with
  | .string => (pool.string reference.index).map .string
  | .type => (pool.type reference.index).map .type
  | .field => (pool.field reference.index).map .field
  | .method => (pool.method reference.index).map .method

def count (pool : Pool) : ReferenceKind → Nat
  | .string => pool.strings.items.length
  | .type => pool.types.items.length
  | .field => pool.fields.items.length
  | .method => pool.methods.items.length

structure Canonical (pool : Pool) : Prop where
  strings : pool.strings.Canonical
  types : pool.types.Canonical
  fields : pool.fields.Canonical
  methods : pool.methods.Canonical

/-- A later pool, in which all items are where they were. -/
structure Grows (pool later : Pool) : Prop where
  strings : pool.strings.items <+: later.strings.items
  types : pool.types.items <+: later.types.items
  fields : pool.fields.items <+: later.fields.items
  methods : pool.methods.items <+: later.methods.items

variable {pool later last : Pool} {reference : PoolRef} {sought : PoolItem}

theorem required_eq_ok {α : Type} {kind : ReferenceKind} {index : Nat} {found : Option α} {value : α} :
    required kind index found = .ok value ↔ found = some value := by
  cases found with
  | none => simp [required]
  | some other => simp [required]

/-- Where a reference leads to an item, the item is in its section at the index. -/
theorem item_eq_ok :
    pool.item reference = .ok sought ↔ reference.kind = sought.kind ∧
      match sought with
      | .string text => pool.strings.get? reference.index = some text
      | .type type => pool.types.get? reference.index = some type
      | .field field => pool.fields.get? reference.index = some field
      | .method method => pool.methods.get? reference.index = some method := by
  obtain ⟨kind, index⟩ := reference
  cases kind <;> cases sought <;>
    simp [item, PoolItem.kind, map_eq_ok, string, type, field, method, required_eq_ok]

theorem Grows.refl (pool : Pool) : pool.Grows pool :=
  ⟨List.prefix_rfl, List.prefix_rfl, List.prefix_rfl, List.prefix_rfl⟩

theorem Grows.trans (first : pool.Grows later) (second : later.Grows last) : pool.Grows last where
  strings := first.strings.trans second.strings
  types := first.types.trans second.types
  fields := first.fields.trans second.fields
  methods := first.methods.trans second.methods

/-- What a reference stands for does not change. -/
theorem Grows.item (grows : pool.Grows later) (known : pool.item reference = .ok sought) :
    later.item reference = .ok sought := by
  rw [item_eq_ok] at known ⊢
  obtain ⟨sameKind, found⟩ := known
  refine ⟨sameKind, ?_⟩
  cases sought with
  | string text => exact PoolSection.get?_of_prefix grows.strings found
  | type type => exact PoolSection.get?_of_prefix grows.types found
  | field field => exact PoolSection.get?_of_prefix grows.fields found
  | method method => exact PoolSection.get?_of_prefix grows.methods found

/-- Equal items have one reference. -/
theorem Canonical.reference_unique (canonical : pool.Canonical) {other : PoolRef}
    (one : pool.item reference = .ok sought) (two : pool.item other = .ok sought) :
    reference = other := by
  rw [item_eq_ok] at one two
  obtain ⟨oneKind, one⟩ := one
  obtain ⟨twoKind, two⟩ := two
  have sameIndex : reference.index = other.index := by
    cases sought with
    | string text => exact canonical.strings.index_unique one two
    | type type => exact canonical.types.index_unique one two
    | field field => exact canonical.fields.index_unique one two
    | method method => exact canonical.methods.index_unique one two
  exact PoolRef.eq_of (oneKind.trans twoKind.symm) sameIndex

/-! ## One operation -/

theorem canonical_empty : empty.Canonical :=
  ⟨PoolSection.canonical_empty, PoolSection.canonical_empty, PoolSection.canonical_empty,
    PoolSection.canonical_empty⟩

theorem Canonical.intern (canonical : pool.Canonical) (item : PoolItem) :
    (pool.intern item).1.Canonical := by
  cases item with
  | string text => exact { canonical with strings := canonical.strings.intern text }
  | type type => exact { canonical with types := canonical.types.intern type }
  | field field => exact { canonical with fields := canonical.fields.intern field }
  | method method => exact { canonical with methods := canonical.methods.intern method }

theorem grows_intern (pool : Pool) (item : PoolItem) : pool.Grows (pool.intern item).1 := by
  cases item with
  | string text => exact { Grows.refl pool with strings := PoolSection.prefix_intern _ text }
  | type type => exact { Grows.refl pool with types := PoolSection.prefix_intern _ type }
  | field field => exact { Grows.refl pool with fields := PoolSection.prefix_intern _ field }
  | method method => exact { Grows.refl pool with methods := PoolSection.prefix_intern _ method }

/-- The reference given for an item stands for it. -/
theorem Canonical.item_intern (canonical : pool.Canonical) (item : PoolItem) :
    (pool.intern item).1.item ⟨item.kind, (pool.intern item).2⟩ = .ok item := by
  refine item_eq_ok.mpr ⟨rfl, ?_⟩
  cases item with
  | string text => exact canonical.strings.get?_intern text
  | type type => exact canonical.types.get?_intern type
  | field field => exact canonical.fields.get?_intern field
  | method method => exact canonical.methods.get?_intern method

/-! ## Runs of operations -/

theorem Canonical.internAll (canonical : pool.Canonical) (items : List PoolItem) :
    (pool.internAll items).1.Canonical := by
  induction items generalizing pool with
  | nil => exact canonical
  | cons item items ih => exact ih (canonical.intern item)

theorem grows_internAll (pool : Pool) (items : List PoolItem) :
    pool.Grows (pool.internAll items).1 := by
  induction items generalizing pool with
  | nil => exact Grows.refl pool
  | cons item items ih => exact (grows_intern pool item).trans (ih _)

/-- After a run all references that it gave stand for their items. -/
theorem Canonical.items_internAll (canonical : pool.Canonical) (items : List PoolItem) :
    List.Forall₂
      (fun item reference => reference.kind = item.kind ∧
        (pool.internAll items).1.item reference = .ok item)
      items (pool.internAll items).2 := by
  induction items generalizing pool with
  | nil => exact .nil
  | cons item items ih =>
      have known := (grows_internAll _ items).item (canonical.item_intern item)
      exact .cons ⟨rfl, known⟩ (ih (canonical.intern item))

/-- A longer run gives the same references for its first items. -/
theorem internAll_append (pool : Pool) (items more : List PoolItem) :
    pool.internAll (items ++ more) =
      (((pool.internAll items).1.internAll more).1,
        (pool.internAll items).2 ++ ((pool.internAll items).1.internAll more).2) := by
  induction items generalizing pool with
  | nil => rfl
  | cons item items ih => simp only [List.cons_append, internAll, ih]

def Extends (pool later : Pool) : Prop :=
  ∃ items, (pool.internAll items).1 = later

theorem Extends.refl (pool : Pool) : pool.Extends pool :=
  ⟨[], rfl⟩

theorem Extends.trans (first : pool.Extends later) (second : later.Extends last) :
    pool.Extends last := by
  obtain ⟨items, rfl⟩ := first
  obtain ⟨more, rfl⟩ := second
  exact ⟨items ++ more, by rw [internAll_append]⟩

theorem extends_intern (pool : Pool) (item : PoolItem) : pool.Extends (pool.intern item).1 :=
  ⟨[item], rfl⟩

theorem Extends.canonical (extended : pool.Extends later) (canonical : pool.Canonical) :
    later.Canonical := by
  obtain ⟨items, rfl⟩ := extended
  exact canonical.internAll items

theorem Extends.item (extended : pool.Extends later) (known : pool.item reference = .ok sought) :
    later.item reference = .ok sought := by
  obtain ⟨items, rfl⟩ := extended
  exact (grows_internAll pool items).item known

theorem item_eq_method {index : Nat} {method : MethodRef} :
    pool.item ⟨.method, index⟩ = .ok (.method method) ↔ pool.method index = .ok method := by
  rw [item_eq_ok, Pool.method, required_eq_ok]
  exact and_iff_right rfl

/-- A reference leads to an item of its kind exactly if its index is below the length of the
section. -/
theorem item_cases (pool : Pool) (reference : PoolRef) :
    if reference.index < pool.count reference.kind then
      ∃ item, item.kind = reference.kind ∧ pool.item reference = .ok item
    else pool.item reference = .error (.unresolved reference.kind reference.index) := by
  have required_cases : ∀ {α : Type} (kind : ReferenceKind) (index : Nat) (sect : PoolSection α)
      (wrap : α → PoolItem), (∀ value, (wrap value).kind = kind) →
      if index < sect.items.length then
        ∃ item, item.kind = kind ∧
          (required kind index (sect.get? index)).map wrap = .ok item
      else (required kind index (sect.get? index)).map wrap = .error (.unresolved kind index) := by
    intro α kind index sect wrap ofKind
    split
    · rename_i inside
      refine ⟨wrap sect.items[index], ofKind _, ?_⟩
      rw [PoolSection.get?, List.getElem?_eq_getElem inside]
      rfl
    · rename_i outside
      rw [PoolSection.get?, List.getElem?_eq_none (Nat.le_of_not_lt outside)]
      rfl
  obtain ⟨kind, index⟩ := reference
  cases kind with
  | string => exact required_cases .string index pool.strings .string fun _ => rfl
  | type => exact required_cases .type index pool.types .type fun _ => rfl
  | field => exact required_cases .field index pool.fields .field fun _ => rfl
  | method => exact required_cases .method index pool.methods .method fun _ => rfl

/-- Only the section of an item changes when it is interned. -/
theorem intern_frame (pool : Pool) (item : PoolItem) :
    (item.kind ≠ .string → (pool.intern item).1.strings = pool.strings) ∧
    (item.kind ≠ .type → (pool.intern item).1.types = pool.types) ∧
    (item.kind ≠ .field → (pool.intern item).1.fields = pool.fields) ∧
    (item.kind ≠ .method → (pool.intern item).1.methods = pool.methods) := by
  cases item <;> simp [intern, internString, internType, internField, internMethod, PoolItem.kind]

/-- The references that a run of interning from nothing gives, in the pool that it leaves. -/
structure Interned (items : List PoolItem) (pool : Pool) (references : List PoolRef) : Prop where
  canonical : pool.Canonical
  found : List.Forall₂
    (fun item reference => reference.kind = item.kind ∧ pool.item reference = .ok item)
    items references
  same : ∀ first ∈ items.zip references, ∀ second ∈ items.zip references,
    first.1.kind = second.1.kind → (first.2.index = second.2.index ↔ first.1 = second.1)
  missing : ∀ kind index, pool.count kind ≤ index →
    pool.item ⟨kind, index⟩ = .error (.unresolved kind index)

/-- After any run of interning, sections hold no duplicate and their parts are inverse to each
other; each reference given so far stands for its item, and equal items have one; other indices
are refused.  Nothing of this changes in a longer run, and an operation leaves the other sections
as they are. -/
theorem interned_internAll (items : List PoolItem) :
    Interned items (empty.internAll items).1 (empty.internAll items).2 ∧
    (∀ more, (empty.internAll items).2 <+: (empty.internAll (items ++ more)).2) ∧
    ∀ item,
      let pool := (empty.internAll items).1
      (item.kind ≠ .string → (pool.intern item).1.strings = pool.strings) ∧
      (item.kind ≠ .type → (pool.intern item).1.types = pool.types) ∧
      (item.kind ≠ .field → (pool.intern item).1.fields = pool.fields) ∧
      (item.kind ≠ .method → (pool.intern item).1.methods = pool.methods) := by
  have canonical := canonical_empty.internAll items
  have found := canonical_empty.items_internAll items
  have each := List.forall₂_iff_zip.mp found
  refine ⟨⟨canonical, found, ?_, ?_⟩, ?_, intern_frame _⟩
  · rintro ⟨first, one⟩ isFirst ⟨second, two⟩ isSecond sameKind
    obtain ⟨oneKind, one_eq⟩ := each.2 isFirst
    obtain ⟨twoKind, two_eq⟩ := each.2 isSecond
    constructor
    · intro sameIndex
      rw [PoolRef.eq_of (oneKind.trans (sameKind.trans twoKind.symm)) sameIndex, two_eq] at one_eq
      exact (Except.ok.inj one_eq).symm
    · intro sameItem
      exact congrArg PoolRef.index
        (canonical.reference_unique one_eq ((show first = second from sameItem) ▸ two_eq))
  · intro kind index outside
    have cases := item_cases (empty.internAll items).1 ⟨kind, index⟩
    rwa [if_neg (Nat.not_lt_of_le outside)] at cases
  · intro more
    rw [internAll_append]
    exact List.prefix_append _ _

example : (empty.internAll [.string "a", .type .int, .string "b", .string "a"]).2 =
    [⟨.string, 0⟩, ⟨.type, 0⟩, ⟨.string, 1⟩, ⟨.string, 0⟩] := by decide

end Pool

end Dalvik
