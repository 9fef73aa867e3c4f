import AdventureScript.Expression.Load

/-!
Indices in brackets. An index known at compile time is checked and counted into the place of a
static array.
-/
namespace AdventureScript

def clampedProduct (a b : Int32) : Int32 :=
  Int32.ofInt (max (-2147483648) (min 2147483647 (a.toInt * b.toInt)))

namespace Gen

/-- Brings the address that a handle refers to into MAR. -/
def dereference (parts : Parts) (o : Operand) : Gen Place := do
  match o.value with
  | .this => return ⟨.this, 0⟩
  | .const _ => fail .dereferenceOfNull
  | .stored (.memory place) =>
    loadAddress place
    emitRegs .memReadPtr [.mar]
  | .ax => emitRegs .regToReg [.ax, .mar]
  | .stored (.attribute _) =>
    let _ ← loadToAx parts o
    emitRegs .regToReg [.ax, .mar]
  emit .checkNull []
  return ⟨.mar, 0⟩

def saveMar : Gen Checkpoint := do
  let c ← checkpoint
  pushReg .mar
  return c

def unsaveMar (saved : Checkpoint) : Gen Unit := do
  restore saved
  adjustStack (-cell)

def indexOperand (parts : Parts) : Gen Operand := do
  let index ← parts.whole
  expect .rightBracket
  return index

def indexToAx (parts : Parts) (index : Operand) : Gen Unit := do
  let ty ← loadToAx parts index
  if !ty.isInteger then fail (.indexType (← textOf ty))

def scaleAx (factor : Int32) : Gen Unit := do
  if factor ≠ 1 then emit .mul [Register.ax.toWord, factor]

def indexStatic (parts : Parts) (place : Place) (dim factor : UInt32) (number : Nat) :
    Gen Place := do
  let _ ← advance
  let saved ← if place.anchor = .mar then some <$> saveMar else pure none
  let index ← indexOperand parts
  match index.constant? with
  | some (.int i) =>
    if i < 0 then fail (.indexTooLow number i)
    if dim ≤ i.toUInt32 then fail (.indexTooHigh number i (dim - 1))
    if let some c := saved then unsaveMar c
    return place.plus (i.toUInt32 * factor)
  | _ =>
    indexToAx parts index
    if saved.isSome then popReg .mar
    emit .checkBounds [Register.ax.toWord, dim.toInt32]
    scaleAx factor.toInt32
    loadAddress place
    emitRegs .addReg [.mar, .ax]
    return ⟨.mar, 0⟩

def indexDynamic (parts : Parts) (factor : Int32) (number : Nat) : Gen Place := do
  let _ ← advance
  let saved ← saveMar
  let index ← indexOperand parts
  match index.constant? with
  | some (.int i) =>
    if i < 0 then fail (.indexTooLow number i)
    unsaveMar saved
    litToReg .ax (clampedProduct i factor)
  | _ =>
    indexToAx parts index
    popReg .mar
    scaleAx factor
  emitRegs .dynamicBounds [.ax]
  emitRegs .addReg [.mar, .ax]
  return ⟨.mar, 0⟩

def compileIndex (parts : Parts) (o : Operand) (number : Nat) : Gen Operand := do
  match o.ty.shape, o.value with
  | .static dims, .stored (.memory place) =>
    let dim ← orFail dims.head? (.outOfRange "dimensions")
    let element := o.ty.afterIndex
    let place ← indexStatic parts place dim (element.size (← getTypes)) number
    return .memory place element o.writeFault
  | .static _, _ => fail .unstoredArray
  | .dynamic, _ =>
    let element := o.ty.element
    let factor := (element.size (← getTypes)).toInt32
    let _ ← dereference parts o
    return .memory (← indexDynamic parts factor number) element none
  | .scalar, _ => fail (.notIndexable (← textOf o.ty))

end Gen
end AdventureScript
