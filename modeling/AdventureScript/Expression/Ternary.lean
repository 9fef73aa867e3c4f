import AdventureScript.Expression.Load

/-!
The conditional operator with three operands, and the short form without the second one.
-/
namespace AdventureScript.Gen

def arm : Part := .upTo ternaryPriority

def checkThirdArm : Gen Unit := do
  if ← atExpressionEnd then fail .emptyThirdArm

def skipArm (parts : Parts) : Gen Unit := do
  let (_, stop) ← dryRun (parts arm)
  setPos stop

def armToAx (parts : Parts) (ty : Ty) : Gen Unit := do
  convertAx (← partToAx parts arm) ty

def armTypes (parts : Parts) : Gen (Ty × Ty) := do
  let second ← parts arm
  expect .colon
  checkThirdArm
  let third ← parts arm
  return (second.ty, third.ty)

def compileChosen (parts : Parts) (condition : Constant) : Gen Operand := do
  if condition.isTrue then
    let chosen ← parts arm
    expect .colon
    skipArm parts
    return chosen
  else
    skipArm parts
    expect .colon
    checkThirdArm
    parts arm

def compileArms (parts : Parts) (condition : Operand) : Gen Operand := do
  let ((second, third), _) ← dryRun (armTypes parts)
  let ty ← match second.common? third (← getTypes) with
    | some ty => pure ty
    | none => failConversion third second
  checkCondition (← loadToAx parts condition)
  let toThird ← jump .jz
  armToAx parts ty
  let toEnd ← jump .jmp
  landHere toThird
  expect .colon
  armToAx parts ty
  landHere toEnd
  return .inAx ty

def compileShort (parts : Parts) (condition : Operand) : Gen Operand := do
  checkThirdArm
  match condition.constant? with
  | some value =>
    if value.isTrue then
      skipArm parts
      return condition
    else
      parts arm
  | none =>
    let ty ← loadToAx parts condition
    checkCondition ty
    let toEnd ← jump .jnz
    armToAx parts ty
    landHere toEnd
    return .inAx ty

def compileTernary (parts : Parts) (condition : Operand) : Gen Operand := do
  let _ ← advance
  if ← eat .colon then
    compileShort parts condition
  else
    if ← atExpressionEnd then fail .emptySecondArm
    match condition.constant? with
    | some value => compileChosen parts value
    | none => compileArms parts condition

end AdventureScript.Gen
