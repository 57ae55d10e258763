import Dalvik.Lowering.Basic
import Mathlib.Data.List.Forall2

/-!
# Values and reads

Lowering only adds values and pairs of values that reach one read.  A read has the
value of the first definition that reaches it, and the values of the others are
paired with that one.
-/

namespace Dalvik

namespace ValueFile

/-- The value of a definition has its site and its register. -/
theorem definedAt?_eq_some {file : ValueFile} {site : Site} {reg : Reg} {value : Nat}
    (found : file.definedAt? site reg = some value) :
    ∃ record, file.values[value]? = some record ∧ record.site = some site ∧ record.reg = reg := by
  rw [definedAt?_eq_findIdx?] at found
  obtain ⟨inside, isOne, -⟩ := List.findIdx?_eq_some_iff_getElem.mp found
  exact ⟨_, List.getElem?_eq_getElem inside, ProvisionalValue.isOf_iff.mp isOne⟩

/-- A value belongs to one write. -/
theorem definedAt?_injective {file : ValueFile} {first second : Site × Reg} {value : Nat}
    (one : file.definedAt? first.1 first.2 = some value)
    (two : file.definedAt? second.1 second.2 = some value) : first = second := by
  obtain ⟨record, found, site, reg⟩ := definedAt?_eq_some one
  obtain ⟨record', found', site', reg'⟩ := definedAt?_eq_some two
  obtain rfl := Option.some.inj (found.symm.trans found')
  exact Prod.ext (Option.some.inj (site.symm.trans site')) (reg.symm.trans reg')

theorem lt_of_definedAt? {file : ValueFile} {site : Site} {reg : Reg} {value : Nat}
    (found : file.definedAt? site reg = some value) : value < file.values.length := by
  obtain ⟨record, present, -⟩ := definedAt?_eq_some found
  exact (List.getElem?_eq_some_iff.mp present).1

/-- A definition keeps its value when values are added. -/
theorem definedAt?_mono {before after : ValueFile} (extended : before.values <+: after.values)
    {site : Site} {reg : Reg} {value : Nat} (found : before.definedAt? site reg = some value) :
    after.definedAt? site reg = some value := by
  obtain ⟨added, same⟩ := extended
  rw [definedAt?_eq_findIdx?] at found ⊢
  rw [← same, List.findIdx?_append, found, Option.some_or]

theorem getElem?_mono {before after : ValueFile} (extended : before.values <+: after.values)
    {value : Nat} {record : ProvisionalValue} (found : before.values[value]? = some record) :
    after.values[value]? = some record := by
  obtain ⟨added, same⟩ := extended
  rw [← same, List.getElem?_append_left (List.getElem?_eq_some_iff.mp found).1, found]

/-- A definition has the value that it had, or the one that is added for it. -/
theorem definedAt?_add (file : ValueFile) (reg : Reg) (origin : Option Site) (width : Width)
    (site : Site) (other : Reg) : (file.add reg origin width).1.definedAt? site other =
      (file.definedAt? site other).or (if origin = some site ∧ reg = other then some file.size else none) := by
  rw [definedAt?_eq_findIdx?, definedAt?_eq_findIdx?, add, List.findIdx?_append,
    List.findIdx?_singleton]
  simp only [ProvisionalValue.isOf_iff, apply_ite (Option.map _), Option.map_some, Option.map_none,
    Nat.zero_add, size]

theorem define_spec {before after : ValueFile} {site : Site} {reg : Reg} {width : Width} {value : Nat}
    (made : before.define site reg width = (after, value)) :
    before.values <+: after.values ∧ after.definedAt? site reg = some value := by
  unfold define at made
  split at made
  · rename_i known
    obtain ⟨rfl, rfl⟩ := Prod.mk.inj made
    exact ⟨List.prefix_rfl, known⟩
  · rename_i unknown
    obtain ⟨rfl, rfl⟩ := Prod.mk.inj made
    refine ⟨List.prefix_append _ _, ?_⟩
    exact (definedAt?_add before reg (some site) width site reg).trans (by simp [unknown, size])

theorem defineAll_spec {width : Width} {defs : List Def} {before after : ValueFile}
    {values : List Nat} (made : before.defineAll width defs = (after, values)) :
    before.values <+: after.values ∧
      List.Forall₂ (fun d value => after.definedAt? d.site d.reg = some value) defs values := by
  induction defs generalizing before values with
  | nil =>
      obtain ⟨rfl, rfl⟩ := Prod.mk.inj made
      exact ⟨List.prefix_rfl, .nil⟩
  | cons d rest ih =>
      cases first : before.define d.site d.reg width with
      | mk middle value =>
          cases others : middle.defineAll width rest with
          | mk last more =>
              simp only [defineAll, first, others, Prod.mk.injEq] at made
              obtain ⟨rfl, rfl⟩ := made
              obtain ⟨one, found⟩ := define_spec first
              obtain ⟨two, all⟩ := ih others
              exact ⟨one.trans two, .cons (definedAt?_mono two found) all⟩

/-- The values of a read: a new one, or those of the definitions that reach it. -/
theorem resolve_spec {states : Dataflow} {reg : Reg} {addr : Addr} {width : Width} {defs : List Def}
    {before after : ValueFile} {resolved : Resolved}
    (reaching : ((states.entryAt addr).map fun state => state.readable reg width).getD [] = defs)
    (made : before.resolve states reg addr width = (after, resolved)) :
    before.values <+: after.values ∧
      ((defs = [] ∧ resolved.aliases = [] ∧ ∃ record, after.values[resolved.value]? = some record ∧
          record.site = none ∧ record.width = width) ∨
        ∃ d others, defs = d :: others ∧ after.definedAt? d.site d.reg = some resolved.value ∧
          List.Forall₂ (fun e other => after.definedAt? e.site e.reg = some other) others
            resolved.aliases) := by
  simp only [resolve, reaching] at made
  split at made
  · rename_i file value aliases all
    obtain ⟨extended, defined⟩ := defineAll_spec all
    obtain ⟨rfl, rfl⟩ := Prod.mk.inj made
    cases defined with
    | cons first rest => exact ⟨extended, .inr ⟨_, _, rfl, first, rest⟩⟩
  · rename_i file all
    obtain ⟨extended, defined⟩ := defineAll_spec all
    obtain ⟨rfl, rfl⟩ := Prod.mk.inj made
    cases defined with
    | nil =>
        refine ⟨extended.trans (List.prefix_append _ _), .inl ⟨rfl, rfl, ?_⟩⟩
        exact ⟨_, List.getElem?_concat_length, rfl, rfl⟩

end ValueFile

/-- The definitions a read can have its value from. -/
def LoweringContext.readable (context : LoweringContext) (addr : Addr) (reg : Reg) (width : Width) :
    List Def :=
  ((context.states.entryAt addr).map fun state => state.readable reg width).getD []

namespace Lower

variable {context : LoweringContext} {addr : Addr} {before after : LoweringState}

structure Extends (before after : LoweringState) : Prop where
  values : before.values.values <+: after.values.values
  merges : before.merges <+: after.merges

theorem Extends.refl (state : LoweringState) : Extends state state :=
  ⟨List.prefix_rfl, List.prefix_rfl⟩

theorem Extends.trans {first second third : LoweringState} (one : Extends first second)
    (two : Extends second third) : Extends first third :=
  ⟨one.values.trans two.values, one.merges.trans two.merges⟩

structure Keeps (before after : LoweringState) : Prop where
  values : before.values.values <+: after.values.values
  merges : before.merges = after.merges

theorem Keeps.refl (state : LoweringState) : Keeps state state :=
  ⟨List.prefix_rfl, rfl⟩

theorem Keeps.trans {first second third : LoweringState} (one : Keeps first second)
    (two : Keeps second third) : Keeps first third :=
  ⟨one.values.trans two.values, one.merges.trans two.merges⟩

theorem Keeps.extends (keeps : Keeps before after) : Extends before after :=
  ⟨keeps.values, keeps.merges ▸ List.prefix_rfl⟩

/-- A read has a value: a new one of its width if no definition reaches it, else that of the
first definition that does, with which those of the others are paired. -/
inductive ReadsAs (context : LoweringContext) (addr : Addr) (state : LoweringState) :
    Reg × Width → Nat → Prop where
  | undefined {reg : Reg} {width : Width} {value : Nat} {record : ProvisionalValue}
      (nothing : context.readable addr reg width = [])
      (found : state.values.values[value]? = some record) (isNew : record.site = none)
      (own : record.width = width) : ReadsAs context addr state (reg, width) value
  | defined {reg : Reg} {width : Width} {value : Nat} {d : Def} {others : List Def}
      (reaching : context.readable addr reg width = d :: others)
      (own : state.values.definedAt? d.site d.reg = some value)
      (paired : ∀ e ∈ others, ∃ other, state.values.definedAt? e.site e.reg = some other ∧
        (other, value) ∈ state.merges) :
      ReadsAs context addr state (reg, width) value

theorem ReadsAs.mono {read : Reg × Width} {value : Nat}
    (reads : ReadsAs context addr before read value) (extended : Extends before after) :
    ReadsAs context addr after read value := by
  cases reads with
  | undefined nothing found isNew own =>
      exact .undefined nothing (ValueFile.getElem?_mono extended.values found) isNew own
  | defined reaching own paired =>
      refine .defined reaching (ValueFile.definedAt?_mono extended.values own) fun e member => ?_
      obtain ⟨other, found, pair⟩ := paired e member
      exact ⟨other, ValueFile.definedAt?_mono extended.values found, extended.merges.subset pair⟩

/-- The values of two definitions that reach a read. -/
structure Pairs (context : LoweringContext) (addr : Addr) (state : LoweringState)
    (read : Reg × Width) (pair : Nat × Nat) : Prop where
  first : ∃ d ∈ context.readable addr read.1 read.2, state.values.definedAt? d.site d.reg = some pair.1
  second : ∃ d ∈ context.readable addr read.1 read.2,
    state.values.definedAt? d.site d.reg = some pair.2

theorem Pairs.mono {read : Reg × Width} {pair : Nat × Nat}
    (pairs : Pairs context addr before read pair) (extended : Extends before after) :
    Pairs context addr after read pair := by
  obtain ⟨⟨d, dReaches, first⟩, e, eReaches, second⟩ := pairs
  exact ⟨⟨d, dReaches, ValueFile.definedAt?_mono extended.values first⟩,
    e, eReaches, ValueFile.definedAt?_mono extended.values second⟩

/-- A stretch of lowering an instruction makes reads, which have values, and pairs
only what reaches them. -/
structure Performs (context : LoweringContext) (addr : Addr) (before : LoweringState)
    (reads : List (Reg × Width)) (values : List Nat) (after : LoweringState) : Prop where
  extended : Extends before after
  found : List.Forall₂ (ReadsAs context addr after) reads values
  inside : ∀ read ∈ reads, read.1.number + read.2.slots ≤ context.code.registers
  added : ∀ pair ∈ after.merges, pair ∈ before.merges ∨
    ∃ read ∈ reads, Pairs context addr after read pair

theorem Performs.nothing (keeps : Keeps before after) :
    Performs context addr before [] [] after where
  extended := keeps.extends
  found := .nil
  inside _ member := by cases member
  added _ member := .inl (keeps.merges ▸ member)

theorem Performs.append {first second third : LoweringState} {reads others : List (Reg × Width)}
    {values more : List Nat} (one : Performs context addr first reads values second)
    (two : Performs context addr second others more third) :
    Performs context addr first (reads ++ others) (values ++ more) third where
  extended := one.extended.trans two.extended
  found := List.rel_append (one.found.imp fun _ _ reads => reads.mono two.extended) two.found
  inside := List.forall_mem_append.mpr ⟨one.inside, two.inside⟩
  added pair member := by
    rcases two.added pair member with old | ⟨read, isRead, pairs⟩
    · rcases one.added pair old with older | ⟨read, isRead, pairs⟩
      · exact .inl older
      · exact .inr ⟨read, List.mem_append_left _ isRead, pairs.mono two.extended⟩
    · exact .inr ⟨read, List.mem_append_right _ isRead, pairs⟩

theorem Performs.declared {reads others : List (Reg × Width)} {values : List Nat}
    (performs : Performs context addr before reads values after) (same : others = reads) :
    Performs context addr before others values after :=
  same ▸ performs

theorem Performs.keep {middle : LoweringState} {reads : List (Reg × Width)} {values : List Nat}
    (performs : Performs context addr before reads values middle) (keeps : Keeps middle after) :
    Performs context addr before reads values after := by
  simpa using performs.append (.nothing keeps)

theorem Keeps.performs {middle : LoweringState} {reads : List (Reg × Width)} {values : List Nat}
    (keeps : Keeps before middle) (performs : Performs context addr middle reads values after) :
    Performs context addr before reads values after :=
  (Performs.nothing keeps).append performs

end Lower

end Dalvik
