import Dalvik.Proofs.Lowering.Values
import Dalvik.Proofs.Reaching.State
import Dalvik.Proofs.Success

/-!
# Generations of registers

Reads open the values of definitions that are lowered later, and what is written finds the
value that a read has opened.  In whatever order reads and writes come, each definition has
one value, each register numbers its values in the order in which they come up, and the
value of a read that no definition reaches is never met again.
-/

namespace Dalvik

/-- The definitions that can be read at an address from a register, the least first. -/
def Dataflow.readable (states : Dataflow) (addr : Addr) (reg : Reg) (width : Width) : List Def :=
  ((states.entryAt addr).map fun state => state.readable reg width).getD []

/-- Definitions that can be read from one register come in order, and differ in their site or
their first register. -/
theorem Dataflow.readable_distinct (states : Dataflow) (addr : Addr) (reg : Reg) (width : Width) :
    (states.readable addr reg width).Pairwise fun d e =>
      d.key < e.key ∧ ¬ (d.site = e.site ∧ d.reg = e.reg) := by
  unfold readable
  cases states.entryAt addr with
  | none => exact .nil
  | some state =>
      refine (state.readable_ascending reg width).imp_of_mem fun {d e} isOne isOther before => ?_
      refine ⟨before, fun ⟨sites, regs⟩ => ?_⟩
      have halves : d.half = e.half :=
        (Reaching.holds_of_mem_readable isOne).2.trans (Reaching.holds_of_mem_readable isOther).2.symm
      exact Nat.lt_irrefl e.key (by simpa only [Def.key, sites, regs, halves] using before)

namespace ValueFile

variable {states : Dataflow} {file : ValueFile}

/-- What is asked of the values: the value that the instruction at an address reads, the one
that it writes, or an argument. -/
inductive Call where
  | resolve (reg : Reg) (addr : Addr) (width : Width)
  | define (reg : Reg) (addr : Addr) (width : Width)
  | defineParam (reg : Reg) (width : Width)
  deriving DecidableEq, Repr

def perform (states : Dataflow) (file : ValueFile) : Call → ValueFile × List Nat
  | .resolve reg addr width =>
      let (file, resolved) := file.resolve states reg addr width
      (file, resolved.value :: resolved.aliases)
  | .define reg addr width =>
      let (file, value) := file.define (.at addr) reg width
      (file, [value])
  | .defineParam reg width =>
      let (file, value) := file.define .param reg width
      (file, [value])

def run (states : Dataflow) (file : ValueFile) (calls : List Call) : ValueFile :=
  calls.foldl (fun file call => (file.perform states call).1) file

/-- What holds of the values at every point of a run. -/
structure Numbered (file : ValueFile) : Prop where
  registered : ∀ site reg value, file.definedAt? site reg = some value ↔
    ∃ record, file.get? value = some record ∧ record.site = some site ∧ record.reg = reg
  generations : ∀ reg, (file.values.filter (·.reg == reg)).map ProvisionalValue.generation =
    List.range (file.generations reg)

/-- A value may be added for a definition that has none, and for a read without one. -/
def IsNew (file : ValueFile) (origin : Option Site) (reg : Reg) : Prop :=
  ∀ site, origin = some site → file.definedAt? site reg = none

theorem get?_add {reg : Reg} {origin : Option Site} {width : Width} {value : Nat}
    {record : ProvisionalValue} : (file.add reg origin width).1.get? value = some record ↔
      file.get? value = some record ∨
        value = file.size ∧ record = ⟨reg, file.generations reg, origin, width⟩ := by
  simp only [get?, add, size]
  rw [List.getElem?_append]
  split
  · have old : value ≠ file.values.length := by omega
    simp [old]
  · have none : file.values[value]? = none := List.getElem?_eq_none (by omega)
    rw [none, List.getElem?_singleton]
    split
    · have last : value = file.values.length := by omega
      simp [last, eq_comm]
    · have past : value ≠ file.values.length := by omega
      simp [past]

theorem generations_add {own reg : Reg} {origin : Option Site} {width : Width} :
    (file.add own origin width).1.generations reg =
      file.generations reg + if own = reg then 1 else 0 := by
  rw [generations_eq_countP, generations_eq_countP, add, List.countP_append, List.countP_singleton]
  simp only [beq_iff_eq]

theorem numbered_empty : Numbered .empty where
  registered site reg value := by simp [definedAt?, get?, empty]
  generations reg := rfl

theorem Numbered.add (numbered : file.Numbered) {own : Reg} {origin : Option Site} (width : Width)
    (isNew : file.IsNew origin own) : (file.add own origin width).1.Numbered where
  registered site reg value := by
    simp only [definedAt?_add, get?_add, or_and_right, exists_or, ← numbered.registered]
    cases known : file.definedAt? site reg with
    | none =>
        simp only [Option.none_or, Option.ite_none_right_eq_some, Option.some.injEq, reduceCtorEq,
          false_or]
        grind
    | some old =>
        have other : ¬ (origin = some site ∧ own = reg) := by
          rintro ⟨isSite, rfl⟩
          exact Option.some_ne_none old (known.symm.trans (isNew site isSite))
        simp only [Option.some_or, Option.some.injEq]
        grind
  generations reg := by
    rw [generations_add]
    have before := numbered.generations reg
    by_cases same : own = reg
    · subst same
      simp [ValueFile.add, before, List.range_succ]
    · simp [ValueFile.add, before, same]

/-- A property that adding a new value keeps is kept by all calls. -/
theorem define_keeps {property : ValueFile → Prop}
    (add : ∀ file reg origin width, property file → file.IsNew origin reg →
      property (file.add reg origin width).1) (holds : property file) (site : Site) (reg : Reg)
    (width : Width) : property (file.define site reg width).1 := by
  unfold define
  split
  · exact holds
  · rename_i none
    exact add file reg (some site) width holds fun _ isSite => Option.some.inj isSite ▸ none

theorem defineAll_keeps {property : ValueFile → Prop}
    (add : ∀ file reg origin width, property file → file.IsNew origin reg →
      property (file.add reg origin width).1) (width : Width) (defs : List Def)
    (holds : property file) : property (file.defineAll width defs).1 := by
  induction defs generalizing file with
  | nil => exact holds
  | cons d rest ih => exact ih (define_keeps add holds d.site d.reg width)

theorem perform_keeps {property : ValueFile → Prop}
    (add : ∀ file reg origin width, property file → file.IsNew origin reg →
      property (file.add reg origin width).1) (holds : property file) (call : Call) :
    property (file.perform states call).1 := by
  cases call with
  | resolve reg addr width =>
      have all := defineAll_keeps add width (states.readable addr reg width) holds
      rw [Dataflow.readable] at all
      simp only [perform, resolve]
      generalize file.defineAll width _ = made at all ⊢
      obtain ⟨after, _ | ⟨value, aliases⟩⟩ := made
      · exact add after reg none width all fun _ isSite => by cases isSite
      · exact all
  | define reg addr width => exact define_keeps add holds (.at addr) reg width
  | defineParam reg width => exact define_keeps add holds .param reg width

theorem run_keeps {property : ValueFile → Prop}
    (add : ∀ file reg origin width, property file → file.IsNew origin reg →
      property (file.add reg origin width).1) (holds : property file) (calls : List Call) :
    property (file.run states calls) :=
  List.foldlRecOn calls _ holds fun _ holds call _ => perform_keeps add holds call

theorem Numbered.run (numbered : file.Numbered) (calls : List Call) :
    (file.run states calls).Numbered :=
  run_keeps (fun _ _ _ width numbered isNew => numbered.add width isNew) numbered calls

/-- Calls only append values. -/
theorem prefix_perform (file : ValueFile) (call : Call) :
    file.values <+: (file.perform states call).1.values := by
  refine @perform_keeps states file (fun after => file.values <+: after.values) ?_
    List.prefix_rfl call
  exact fun after _ _ _ extended _ => extended.trans (List.prefix_append after.values _)

theorem prefix_run (file : ValueFile) (calls : List Call) :
    file.values <+: (file.run states calls).values := by
  refine @run_keeps states file (fun after => file.values <+: after.values) ?_
    List.prefix_rfl calls
  exact fun after _ _ _ extended _ => extended.trans (List.prefix_append after.values _)

/-- A value is that of one definition at most. -/
theorem eq_of_definedAt? {site other : Site} {reg own : Reg} {value : Nat}
    (one : file.definedAt? site reg = some value) (two : file.definedAt? other own = some value) :
    site = other ∧ reg = own := by
  obtain ⟨record, found, isSite, isReg⟩ := definedAt?_eq_some one
  obtain ⟨_, found', isOther, isOwn⟩ := definedAt?_eq_some two
  obtain rfl := Option.some.inj (found.symm.trans found')
  exact ⟨Option.some.inj (isSite.symm.trans isOther), isReg.symm.trans isOwn⟩

/-- Definitions that differ in their site or their register have different values. -/
theorem nodup_of_definedAt? {defs : List Def} {values : List Nat}
    (distinct : defs.Pairwise fun d e => d.key < e.key ∧ ¬ (d.site = e.site ∧ d.reg = e.reg))
    (own : List.Forall₂ (fun d value => file.definedAt? d.site d.reg = some value) defs values) :
    values.Nodup := by
  induction own with
  | nil => exact List.nodup_nil
  | cons first rest ih =>
      obtain ⟨apart, others⟩ := List.pairwise_cons.mp distinct
      refine List.nodup_cons.mpr ⟨fun again => ?_, ih others⟩
      obtain ⟨e, isOther, same⟩ := exists_of_forall₂ rest.flip again
      exact (apart e isOther).2 (eq_of_definedAt? first same)

/-- What a call returns: the values of the definitions that can be read, the least first and
each once; or the next number, for a new value without a site; or the value of what is
written. -/
inductive Returns (states : Dataflow) (before after : ValueFile) : Call → List Nat → Prop where
  | found {reg : Reg} {addr : Addr} {width : Width} {d : Def} {others : List Def}
      {values : List Nat} (reaching : states.readable addr reg width = d :: others)
      (least : ∀ e ∈ others, d.key < e.key)
      (own : List.Forall₂ (fun e value => after.definedAt? e.site e.reg = some value) (d :: others)
        values)
      (once : values.Nodup) : Returns states before after (.resolve reg addr width) values
  | opened {reg : Reg} {addr : Addr} {width : Width}
      (nothing : states.readable addr reg width = [])
      (added : after.values = before.values ++ [⟨reg, before.generations reg, none, width⟩]) :
      Returns states before after (.resolve reg addr width) [before.size]
  | written {reg : Reg} {addr : Addr} {width : Width} {value : Nat}
      (own : after.definedAt? (.at addr) reg = some value) :
      Returns states before after (.define reg addr width) [value]
  | passed {reg : Reg} {width : Width} {value : Nat}
      (own : after.definedAt? .param reg = some value) :
      Returns states before after (.defineParam reg width) [value]

theorem returns_perform (file : ValueFile) (call : Call) :
    Returns states file (file.perform states call).1 call (file.perform states call).2 := by
  cases call with
  | define reg addr width => exact .written (define_spec rfl).2
  | defineParam reg width => exact .passed (define_spec rfl).2
  | resolve reg addr width =>
      have distinct := states.readable_distinct addr reg width
      cases reaching : states.readable addr reg width with
      | nil =>
          have made : file.resolve states reg addr width =
              ((file.add reg none width).1, ⟨file.size, []⟩) := by
            rw [Dataflow.readable] at reaching
            rw [resolve, reaching]
            rfl
          rw [perform, made]
          exact .opened reaching rfl
      | cons d others =>
          rw [reaching] at distinct
          cases made : file.resolve states reg addr width with
          | mk after resolved =>
              obtain ⟨-, ⟨nothing, -⟩ | ⟨first, rest, same, head, tail⟩⟩ := resolve_spec reaching made
              · cases nothing
              · obtain ⟨rfl, rfl⟩ := List.cons.inj same
                have own : List.Forall₂ (fun e value => after.definedAt? e.site e.reg = some value)
                    (d :: others) (resolved.value :: resolved.aliases) := .cons head tail
                simp only [perform, made]
                refine .found reaching (fun e isOther => ?_) own (nodup_of_definedAt? distinct own)
                exact (List.rel_of_pairwise_cons distinct isOther).1

/-- What is returned is the place of a value. -/
theorem Returns.lt {before after : ValueFile} {call : Call} {values : List Nat}
    (returns : Returns states before after call values) : ∀ value ∈ values, value < after.size := by
  intro value member
  cases returns with
  | found _ _ own _ =>
      obtain ⟨d, -, defined⟩ := exists_of_forall₂ own.flip member
      exact lt_of_definedAt? defined
  | opened _ added =>
      obtain rfl := List.mem_singleton.mp member
      simp [size, added]
  | written own | passed own =>
      obtain rfl := List.mem_singleton.mp member
      exact lt_of_definedAt? own

/-- A value without a site is not returned by calls after it was opened. -/
theorem Returns.not_mem {before after : ValueFile} {call : Call} {values : List Nat}
    (returns : Returns states before after call values)
    (extended : before.values <+: after.values) {value : Nat} {record : ProvisionalValue}
    (found : before.get? value = some record) (isNew : record.site = none) : value ∉ values := by
  intro member
  have undefined : ∀ site reg, after.definedAt? site reg ≠ some value := by
    intro site reg defined
    obtain ⟨_, found', isSite, -⟩ := definedAt?_eq_some defined
    obtain rfl := Option.some.inj ((getElem?_mono extended found).symm.trans found')
    exact Option.some_ne_none site (isSite.symm.trans isNew)
  cases returns with
  | found _ _ own _ =>
      obtain ⟨d, -, defined⟩ := exists_of_forall₂ own.flip member
      exact undefined d.site d.reg defined
  | opened _ _ =>
      obtain rfl := List.mem_singleton.mp member
      exact Nat.lt_irrefl _ (List.getElem?_eq_some_iff.mp found).1
  | written own | passed own =>
      obtain rfl := List.mem_singleton.mp member
      exact undefined _ _ own

/-- After any calls values are numbered by their definitions and in their registers.  The
next call appends values and returns places of them; and a value without a site is returned
by no later one. -/
theorem run_identifies (states : Dataflow) (calls : List Call) (next : Call) :
    let before := run states .empty calls
    let after := (before.perform states next).1
    let returned := (before.perform states next).2
    before.Numbered ∧ before.values <+: after.values ∧ (∀ value ∈ returned, value < after.size) ∧
      Returns states before after next returned ∧
      ∀ value record, after.get? value = some record → record.site = none →
        ∀ more later, value ∉ ((after.run states more).perform states later).2 := by
  intro before after returned
  have returns : Returns states before after next returned := returns_perform before next
  refine ⟨numbered_empty.run calls, prefix_perform before next, returns.lt, returns, ?_⟩
  intro value record found isNew more later
  have kept : (after.run states more).get? value = some record :=
    getElem?_mono (prefix_run after more) found
  exact (returns_perform _ later).not_mem (prefix_perform _ later) kept isNew

end ValueFile

end Dalvik
