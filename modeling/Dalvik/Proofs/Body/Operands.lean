import Dalvik.Proofs.Body.Uses

/-!
# The operands of statements

All operands of a statement, literals included, and a statement with other operands.
-/

namespace Dalvik

variable {α β γ : Type}

namespace Expression

def operands : Expression α → List (Operand α)
  | .use operand | .negate operand | .convert operand _ | .checkCast operand _
  | .instanceOf operand _ | .length operand | .newArray _ operand | .instanceField operand _ =>
      [operand]
  | .binary _ left right | .element left right => [left, right]
  | .newInstance _ | .staticField _ => []
  | .newFilledArray _ elements => elements
  | .invoke _ _ receiver arguments => receiver.toList ++ arguments

/-- The expression with each operand changed. -/
def mapOperands (change : Operand α → Operand β) : Expression α → Expression β
  | .use operand => .use (change operand)
  | .binary op left right => .binary op (change left) (change right)
  | .negate operand => .negate (change operand)
  | .convert operand target => .convert (change operand) target
  | .checkCast operand type => .checkCast (change operand) type
  | .instanceOf operand type => .instanceOf (change operand) type
  | .length array => .length (change array)
  | .newInstance type => .newInstance type
  | .newArray type size => .newArray type (change size)
  | .newFilledArray type elements => .newFilledArray type (elements.map change)
  | .element array index => .element (change array) (change index)
  | .instanceField object field => .instanceField (change object) field
  | .staticField field => .staticField field
  | .invoke kind method receiver arguments =>
      .invoke kind method (receiver.map change) (arguments.map change)

@[simp] theorem operands_mapOperands (change : Operand α → Operand β) (value : Expression α) :
    (value.mapOperands change).operands = value.operands.map change := by
  cases value with
  | invoke kind method receiver arguments =>
      cases receiver <;> simp [mapOperands, operands]
  | _ => rfl

theorem mapOperands_mapOperands (change : Operand α → Operand β) (again : Operand β → Operand γ)
    (value : Expression α) :
    (value.mapOperands change).mapOperands again = value.mapOperands (again ∘ change) := by
  cases value <;> simp [mapOperands]

theorem mapOperands_congr {change other : Operand α → Operand β} {value : Expression α}
    (same : ∀ operand ∈ value.operands, change operand = other operand) :
    value.mapOperands change = value.mapOperands other := by
  cases value with
  | newFilledArray type elements => simpa [mapOperands, operands] using same
  | invoke kind method receiver arguments =>
      cases receiver <;> simp_all [mapOperands, operands]
  | _ => simp_all [mapOperands, operands]

theorem uses_eq_flatMap (value : Expression α) : value.uses = value.operands.flatMap Operand.uses := by
  cases value with
  | invoke kind method receiver arguments => cases receiver <;> simp [uses, operands]
  | _ => simp [uses, operands]

end Expression

namespace Destination

def operands : Destination α → List (Operand α)
  | .var _ | .staticField _ => []
  | .element array index => [array, index]
  | .instanceField object _ => [object]

/-- The destination with each operand changed, and with another variable. -/
def mapOperands (change : Operand α → Operand β) (var : β) : Destination α → Destination β
  | .var _ => .var var
  | .element array index => .element (change array) (change index)
  | .instanceField object field => .instanceField (change object) field
  | .staticField field => .staticField field

@[simp] theorem operands_mapOperands (change : Operand α → Operand β) (var : β)
    (dest : Destination α) : (dest.mapOperands change var).operands = dest.operands.map change := by
  cases dest <;> rfl

theorem mapOperands_mapOperands (change : Operand α → Operand β) (again : Operand β → Operand γ)
    (var : β) (other : γ) (dest : Destination α) :
    (dest.mapOperands change var).mapOperands again other =
      dest.mapOperands (again ∘ change) other := by
  cases dest <;> rfl

/-- The variable counts only where one is assigned to. -/
theorem mapOperands_congr {change other : Operand α → Operand β} {var instead : β}
    {dest : Destination α} (same : ∀ operand ∈ dest.operands, change operand = other operand)
    (sameVar : ∀ value, dest.written = some value → var = instead) :
    dest.mapOperands change var = dest.mapOperands other instead := by
  cases dest with
  | var value => rw [mapOperands, mapOperands, sameVar value rfl]
  | _ => simp_all [mapOperands, operands]

theorem written_mapOperands (change : Operand α → Operand β) (var : β) (dest : Destination α) :
    (dest.mapOperands change var).written = dest.written.map fun _ => var := by
  cases dest <;> rfl

theorem uses_eq_flatMap (dest : Destination α) : dest.uses = dest.operands.flatMap Operand.uses := by
  cases dest <;> simp [uses, operands]

end Destination

namespace Statement

def operands : Statement α → List (Operand α)
  | .nop | .identity _ _ | .goto _ => []
  | .assign dest value => value.operands ++ dest.operands
  | .invoke call => call.operands
  | .branch _ left right _ => [left, right]
  | .switch key _ _ => [key]
  | .exit value => value.toList
  | .throw operand | .enterMonitor operand | .exitMonitor operand | .fillArray operand _ _ => [operand]

/-- The statement with each operand changed, and with another variable that is defined. -/
def mapOperands (change : Operand α → Operand β) (var : β) : Statement α → Statement β
  | .nop => .nop
  | .identity _ source => .identity var source
  | .assign dest value => .assign (dest.mapOperands change var) (value.mapOperands change)
  | .invoke call => .invoke (call.mapOperands change)
  | .branch op left right target => .branch op (change left) (change right) target
  | .goto target => .goto target
  | .switch key cases default => .switch (change key) cases default
  | .exit value => .exit (value.map change)
  | .throw operand => .throw (change operand)
  | .enterMonitor object => .enterMonitor (change object)
  | .exitMonitor object => .exitMonitor (change object)
  | .fillArray array width elements => .fillArray (change array) width elements

@[simp] theorem operands_mapOperands (change : Operand α → Operand β) (var : β)
    (statement : Statement α) :
    (statement.mapOperands change var).operands = statement.operands.map change := by
  cases statement with
  | exit value => cases value <;> rfl
  | _ => simp [mapOperands, operands]

theorem mapOperands_mapOperands (change : Operand α → Operand β) (again : Operand β → Operand γ)
    (var : β) (other : γ) (statement : Statement α) :
    (statement.mapOperands change var).mapOperands again other =
      statement.mapOperands (again ∘ change) other := by
  cases statement <;>
    simp [mapOperands, Expression.mapOperands_mapOperands, Destination.mapOperands_mapOperands]

/-- The variable counts only where one is defined. -/
theorem mapOperands_congr {change other : Operand α → Operand β} {var instead : β}
    {statement : Statement α} (same : ∀ operand ∈ statement.operands, change operand = other operand)
    (sameVar : ∀ value, statement.written = some value → var = instead) :
    statement.mapOperands change var = statement.mapOperands other instead := by
  cases statement with
  | identity dest source => rw [mapOperands, mapOperands, sameVar dest rfl]
  | assign dest value =>
      rw [operands, List.forall_mem_append] at same
      rw [mapOperands, mapOperands, Expression.mapOperands_congr same.1,
        Destination.mapOperands_congr same.2 sameVar]
  | invoke call => rw [mapOperands, mapOperands, Expression.mapOperands_congr same]
  | exit value => cases value <;> simp_all [mapOperands, operands]
  | _ => simp_all [mapOperands, operands]

theorem written_mapOperands (change : Operand α → Operand β) (var : β) (statement : Statement α) :
    (statement.mapOperands change var).written = statement.written.map fun _ => var := by
  cases statement with
  | assign dest value => exact Destination.written_mapOperands change var dest
  | _ => rfl

def slots (statement : Statement α) : List α :=
  statement.uses ++ statement.written.toList

theorem mem_slots {statement : Statement α} {value : α} :
    value ∈ statement.slots ↔ value ∈ statement.uses ∨ statement.written = some value := by
  rw [slots, List.mem_append, Option.mem_toList]

theorem uses_eq_flatMap (statement : Statement α) :
    statement.uses = statement.operands.flatMap Operand.uses := by
  cases statement with
  | exit value => cases value <;> simp [uses, operands]
  | _ => simp [uses, operands, Expression.uses_eq_flatMap, Destination.uses_eq_flatMap]

theorem mem_slots_of_operand {statement : Statement α} {value : α}
    (isOperand : .var value ∈ statement.operands) : value ∈ statement.slots := by
  refine mem_slots.mpr (.inl ?_)
  rw [uses_eq_flatMap]
  exact List.mem_flatMap.mpr ⟨_, isOperand, List.mem_singleton_self _⟩

end Statement

end Dalvik
