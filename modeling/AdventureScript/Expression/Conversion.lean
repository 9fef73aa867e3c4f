import AdventureScript.Compile.Emit
import AdventureScript.Types.Conversion

/-!
Conversions of the value in AX, and the types that operators and conditions ask for.
-/
namespace AdventureScript.Gen

def failConversion {α : Type} (source target : Ty) : Gen α := do
  fail (.cannotConvert (← textOf source) (← textOf target))

def emitConversion (source target : Ty) : Gen Unit := do
  if source.isOldString && target.isStringPointer (← getTypes) then
    emitRegs .createString [.ax]

def convertAx (source target : Ty) : Gen Unit := do
  if source.isVoid then fail .voidHere
  if !source.convertsTo target (← getTypes) then failConversion source target
  emitConversion source target

/-- Turns the value in AX, of type `source`, into one that can be stored in a `target`. -/
def convertAxForStore (source target : Ty) : Gen Unit := do
  let target := { target with isConst := target.isConst || target.isOldString }
  if source.isVoid then fail .voidHere
  if !source.convertsTo target (← getTypes) then
    fail (.cannotAssign (← textOf source) (← textOf target))
  emitConversion source target

def checkCondition (ty : Ty) : Gen Unit := do
  if !ty.isCondition then fail (.conditionType (← textOf ty))

def selectOpcode (op : BinaryOp) (lhs rhs : Ty) : Gen (Opcode × Ty) := do
  match op.select lhs rhs (← getTypes) with
  | .ok result => return result
  | .error .void => fail .voidInExpression
  | .error .onStrings => fail (.operatorOnStrings op.spelling)
  | .error .onFloats => fail (.operatorOnFloats op.spelling)
  | .error .onPointers => fail (.operatorOnPointers op.spelling)
  | .error .mismatch => failConversion rhs lhs

end AdventureScript.Gen
