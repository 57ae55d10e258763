import Dalvik.Lowering.Basic

/-!
# Lowering branches

The two sides of a comparison have one kind, and a comparison with zero is
with the zero of the compared kind.  References can only be tested for
equality.
-/

namespace Dalvik.Lower

def comparison (current : Current) : Except LiftError Comparison :=
  match Comparison.ofMnemonic? current.opcode.mnemonic with
  | some op => .ok op
  | none => current.fail .unknownComparison

def comparable (op : Comparison) : KindSet :=
  if op.isEquality then .narrow else .narrowNumber

def branch (context : LoweringContext) (current : Current) : Lower (List (Statement Slot)) := do
  let op ← comparison current
  let target ← current.target
  let left ← read context current 0 (comparable op)
  let right ← read context current 1 (comparable op)
  sameKind current left right
  return [.branch op (.var left) (.var right) target]

def branchZero (context : LoweringContext) (current : Current) :
    Lower (List (Statement Slot)) := do
  let op ← comparison current
  let target ← current.target
  let left ← read context current 0 (comparable op)
  return [.branch op (.var left) (.literal 0 false left) target]

def goto (current : Current) : Lower (List (Statement Slot)) := do
  let target ← current.target
  return [.goto target]

def switch (context : LoweringContext) (current : Current) : Lower (List (Statement Slot)) := do
  let some payload := current.instruction.payload | current.fail .missingSwitchTable
  let cases ← payload.cases.mapM fun (key, offset) => do
    let target ← current.offsetBy offset
    return (key, target)
  let key ← read context current 0 (.ofKind .int)
  return [.switch (.var key) cases current.instruction.nextAddr]

end Dalvik.Lower
