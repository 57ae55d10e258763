import Dalvik.Proofs.Argument
import Dalvik.Proofs.Listing.Layout
import Dalvik.Proofs.Listing.Outcome

/-!
# Arguments as they are written

A listing names the registers of arguments by their number among the argument
slots.  These are the registers that a frame has the arguments in: both count
from the first register behind the others, whichever directive gave the size
of the frame.
-/

namespace Dalvik.Listing

def RegName.regFrom (first : Nat) (name : RegName) : Reg :=
  Reg.ofNat (if name.isParameter then first + name.number else name.number)

namespace Token

def names : Token → List RegName
  | .reg name => [name]
  | .regs names => names
  | .range first last => [first, last]
  | _ => []

def regsFrom (first : Nat) : Token → List Reg
  | .reg name => [name.regFrom first]
  | .regs names => names.map (RegName.regFrom first)
  | .range start stop => registerRange (start.regFrom first) (stop.regFrom first)
  | _ => []

end Token

/-- The names of arguments have slots, and the arguments room in the frame. -/
def Frame.Names (frame : Frame) (names : List RegName) : Prop :=
  ∀ name ∈ names, name.isParameter = true →
    name.number < frame.arguments ∧ frame.arguments ≤ frame.registers

def Frame.first (frame : Frame) : Nat :=
  frame.registers - frame.arguments

/-! ## Operands -/

namespace Draft

variable {draft : Draft} {frame : Frame} {line : Nat} {opcode : Opcode}

theorem resolve_eq_ok {name : RegName} {reg : Reg} (resolves : frame.resolve line name = .ok reg) :
    name.regFrom frame.first = reg ∧ frame.Names [name] := by
  unfold Frame.resolve at resolves
  unfold RegName.regFrom Frame.Names
  split at resolves
  · rename_i isParameter
    split at resolves
    · cases resolves
    · obtain rfl := Except.ok.inj resolves
      refine ⟨by rw [if_pos isParameter, Frame.first], List.forall_mem_singleton.mpr fun _ => ?_⟩
      omega
  · rename_i plain
    obtain rfl := Except.ok.inj resolves
    exact ⟨by rw [if_neg plain],
      List.forall_mem_singleton.mpr fun isParameter => absurd isParameter plain⟩

theorem resolve_all {names : List RegName} {regs : List Reg}
    (resolves : names.mapM (frame.resolve line) = .ok regs) :
    names.map (RegName.regFrom frame.first) = regs ∧ frame.Names names := by
  constructor
  · rw [← List.map_id regs]
    exact map_eq_of_forall₂ (mapM_eq_ok.mp resolves) fun _ _ resolved => (resolve_eq_ok resolved).1
  · intro name member
    obtain ⟨reg, -, resolved⟩ := exists_of_mapM_eq_ok resolves member
    exact (resolve_eq_ok resolved).2 name List.mem_cons_self

/-- An operand adds the registers that it stands for. -/
theorem gather_regs {sofar gathered : Gathered} {token : Token}
    (gathers : draft.gather frame line opcode sofar token = .ok gathered) :
    gathered.regs = sofar.regs ++ token.regsFrom frame.first ∧ frame.Names token.names := by
  have nothing : frame.Names [] := fun name member => absurd member List.not_mem_nil
  cases token with
  | reg name =>
      simp only [gather, bind_eq_ok, pure_eq_ok] at gathers
      obtain ⟨reg, resolved, rfl⟩ := gathers
      obtain ⟨rfl, named⟩ := resolve_eq_ok resolved
      exact ⟨rfl, named⟩
  | regs names =>
      simp only [gather, bind_eq_ok, pure_eq_ok] at gathers
      obtain ⟨regs, resolved, rfl⟩ := gathers
      obtain ⟨rfl, named⟩ := resolve_all resolved
      exact ⟨rfl, named⟩
  | range start stop =>
      simp only [gather, bind_eq_ok] at gathers
      obtain ⟨first, begins, last, ends, gathers⟩ := gathers
      obtain ⟨rfl, here⟩ := resolve_eq_ok begins
      obtain ⟨rfl, there⟩ := resolve_eq_ok ends
      split at gathers
      · cases gathers
      · obtain rfl := pure_eq_ok.mp gathers
        exact ⟨rfl, List.forall_mem_cons.mpr ⟨here start List.mem_cons_self, there⟩⟩
  | string text =>
      obtain rfl := Except.ok.inj gathers
      exact ⟨(List.append_nil _).symm, nothing⟩
  | descriptor text =>
      simp only [gather, bind_eq_ok, pure_eq_ok, Prod.exists] at gathers
      obtain ⟨pool, reference, -, rfl⟩ := gathers
      exact ⟨(List.append_nil _).symm, nothing⟩
  | _ =>
      simp only [gather, bind_eq_ok, pure_eq_ok] at gathers
      obtain ⟨_, -, rfl⟩ := gathers
      exact ⟨(List.append_nil _).symm, nothing⟩

/-- A line comes to the registers that its operands stand for. -/
theorem gathered_regs {tokens : List Token} {sofar gathered : Gathered}
    (gathers : tokens.foldlM (draft.gather frame line opcode) sofar = .ok gathered) :
    gathered.regs = sofar.regs ++ tokens.flatMap (Token.regsFrom frame.first) ∧
      frame.Names (tokens.flatMap Token.names) := by
  induction tokens generalizing sofar with
  | nil =>
      obtain rfl := pure_eq_ok.mp gathers
      exact ⟨(List.append_nil _).symm, fun name member => absurd member List.not_mem_nil⟩
  | cons token tokens ih =>
      rw [List.foldlM_cons, bind_eq_ok] at gathers
      obtain ⟨middle, one, rest⟩ := gathers
      obtain ⟨added, here⟩ := gather_regs one
      obtain ⟨others, there⟩ := ih rest
      constructor
      · rw [others, added, List.append_assoc, List.flatMap_cons]
      · exact List.forall_mem_append.mpr ⟨here, there⟩

theorem flags_of_assemble {pool later : Pool} {code : Code}
    (success : draft.assemble pool = .ok (later, code)) : code.flags = draft.flags := by
  simp only [assemble, bind_eq_ok, pure_eq_ok, Prod.exists, Prod.mk.injEq] at success
  obtain ⟨frame, -, _, instructions, -, _, tries, -, -, rfl⟩ := success
  rfl

end Draft

/-! ## Methods -/

/-- Code whose arguments are in the registers that its lines name for them: the receiver and the
parameters take the last registers of the frame, and the number of an argument register counts
their slots. -/
structure NamesArguments (entries : List Entry) (code : Code) (method : MethodRef)
    (arguments : List Argument) (first : Reg) : Prop where
  origins : arguments.map (fun argument => (argument.source, argument.width)) =
    (if code.isStatic then [] else [(.this, .narrow)]) ++ Argument.origins 0 method.prototype.params
  fill : Argument.Fill arguments first.number code.registers
  lines : List.Forall₂ (fun (written : Nat × Opcode × List Token) instruction =>
    instruction.regs = written.2.2.flatMap (Token.regsFrom first.number) ∧
    ∀ name ∈ written.2.2.flatMap Token.names, name.isParameter = true →
      (name.regFrom first.number).number = first.number + name.number ∧
      (arguments.flatMap Argument.regs)[name.number]? = some (name.regFrom first.number))
    (instructionLines entries) code.instructions

/-- The slot of an argument register is the register itself. -/
theorem slot_of_fill {arguments : List Argument} {first registers : Nat} {name : RegName}
    (fill : Argument.Fill arguments first registers) (isParameter : name.isParameter = true)
    (inside : first + name.number < registers) (small : registers < 65536) :
    (name.regFrom first).number = first + name.number ∧
      (arguments.flatMap Argument.regs)[name.number]? = some (name.regFrom first) := by
  rw [RegName.regFrom, if_pos isParameter]
  refine ⟨Reg.number_ofNat_of_lt (by omega), ?_⟩
  rw [fill.regs, List.getElem?_map, List.getElem?_range' (by omega), Nat.one_mul]
  rfl

theorem AssemblesIn.namesArguments {pool : Pool} {entries : List Entry} {code : Code}
    {arguments : List Argument} (assembles : AssemblesIn pool entries code)
    (success : Argument.ofCode code pool = .ok arguments) :
    ∃ method first, pool.method code.method = .ok method ∧ code.firstArgument pool = .ok first ∧
      NamesArguments entries code method arguments first := by
  obtain ⟨draft, before, later, holds, assembled, known⟩ := assembles
  obtain ⟨frame, isFrame, registers, lines⟩ := holds.assembled_lines assembled
  have small := holds.frame_lt isFrame
  rw [← registers] at small
  obtain ⟨first, starts, room, origins, fill⟩ := Argument.fill_of_ofCode known success small
  have slots : draft.argumentSlots =
      draft.method.prototype.slots + if code.isStatic then 0 else 1 := by
    rw [Draft.argumentSlots, ← Draft.flags_of_assemble assembled]
    exact Nat.mod_eq_of_lt (Nat.lt_of_le_of_lt (Nat.le_of_add_left_le (Nat.le_of_eq room)) small)
  have arguments_eq := (Draft.frame_arguments isFrame).trans slots
  have first_eq : frame.first = first.number := by
    rw [Frame.first, ← registers, arguments_eq]
    omega
  refine ⟨draft.method, first, known, starts, origins, fill, ?_⟩
  rw [← holds.instructions, List.forall₂_map_left_iff]
  refine lines.imp ?_
  rintro pending instruction ⟨gathered, assembled⟩
  obtain ⟨pool, gathers⟩ := assembled.gathers
  obtain ⟨regs, named⟩ := Draft.gathered_regs gathers
  rw [first_eq, List.nil_append] at regs
  refine ⟨assembled.regs.trans regs, fun name member isParameter => ?_⟩
  obtain ⟨inside, -⟩ := named name member isParameter
  exact slot_of_fill fill isParameter (by omega) small

/-- The arguments of a method that is read are in the registers that its text names for them. -/
theorem arguments_of_read {text : String} {listing : Listing} (success : read text = .ok listing) :
    ∃ bodies, (∀ others, Spells (writtenLines text) others ↔ others = bodies) ∧
      List.Forall₂ (fun entries code => ∀ frame,
        RegisterFrame.ofCode code listing.pool = .ok frame →
        ∃ method first arguments, listing.pool.method code.method = .ok method ∧
          code.firstArgument listing.pool = .ok first ∧
          Argument.ofCode code listing.pool = .ok arguments ∧
          frame = ⟨code.registers, arguments.map fun argument => (argument.reg, argument.width)⟩ ∧
          NamesArguments entries code method arguments first)
        (bodies.filter hasCode) listing.methods := by
  obtain ⟨bodies, spelled, codes⟩ := read_codes success
  refine ⟨bodies, fun others => ⟨fun other => other.unique spelled, ?_⟩, ?_⟩
  · rintro rfl
    exact spelled
  · refine codes.assembled.imp fun entries code assembles frame framed => ?_
    simp only [RegisterFrame.ofCode, bind_eq_ok, pure_eq_ok] at framed
    obtain ⟨arguments, isArguments, rfl⟩ := framed
    obtain ⟨method, first, known, starts, names⟩ := assembles.namesArguments isArguments
    exact ⟨method, first, arguments, known, starts, isArguments, rfl, names⟩

/-- A method with a wide parameter behind one without a value, in a frame given by its locals. -/
def wideParameterText : String :=
  ".class La/B;\n.method f(IVJ)V\n.locals 1\nmove v0, p1\nneg-long p2, p2\nreturn-void\n" ++
    ".end method\n"

theorem arguments_wideParameterText :
    ∃ listing, read wideParameterText = .ok listing ∧
      (∃ code frame, listing.methods = [code] ∧
        RegisterFrame.ofCode code listing.pool = .ok frame) ∧
      ∃ bodies, (∀ others, Spells (writtenLines wideParameterText) others ↔ others = bodies) ∧
        List.Forall₂ (fun entries code => ∀ frame,
          RegisterFrame.ofCode code listing.pool = .ok frame →
          ∃ method first arguments, listing.pool.method code.method = .ok method ∧
            code.firstArgument listing.pool = .ok first ∧
            Argument.ofCode code listing.pool = .ok arguments ∧
            frame = ⟨code.registers, arguments.map fun argument => (argument.reg, argument.width)⟩ ∧
            NamesArguments entries code method arguments first)
          (bodies.filter hasCode) listing.methods := by
  have known : ∃ listing, read wideParameterText = .ok listing ∧
      listing.methods.map (fun code => (RegisterFrame.ofCode code listing.pool).toOption.isSome) =
        [true] :=
    exists_ok_of_decide (by decide +kernel)
  obtain ⟨listing, success, framed⟩ := known
  obtain ⟨code, isOnly, framed⟩ := List.map_eq_singleton_iff.mp framed
  obtain ⟨frame, isFrame⟩ := Option.isSome_iff_exists.mp framed
  refine ⟨listing, success, ⟨code, frame, isOnly, ?_⟩, arguments_of_read success⟩
  cases outcome : RegisterFrame.ofCode code listing.pool with
  | error error => rw [outcome] at isFrame; cases isFrame
  | ok other =>
      rw [outcome] at isFrame
      rw [Option.some.inj isFrame]

end Dalvik.Listing
