import AdventureScript.Expression.Call

/-!
Bringing the value of an operand into AX.
-/
namespace AdventureScript.Gen

/-- Reads a place of the given type into AX. -/
def loadPlace (place : Place) (ty : Ty) : Gen Ty := do
  if ty.isStaticArray then fail .wholeArray
  if ty.isStructValue then
    let s := ty.structId?.bind (← getTypes).struct?
    if !s.any (·.managed) then fail .wholeStruct
    loadAddress place
    emitRegs .regToReg [.mar, .ax]
    return { ty with pointer := true }
  loadAddress place
  if ty.isOldString then emitRegs .regToReg [.mar, .ax]
  else readAx ty
  return ty

def loadToAx (parts : Parts) (o : Operand) : Gen Ty := do
  let ty ← match o.value with
    | .const value => do
      litToReg .ax value.toWord
      pure o.ty
    | .ax => pure o.ty
    | .this => do
      emitRegs .regToReg [.op, .ax]
      pure o.ty
    | .stored (.memory place) => loadPlace place o.ty
    | .stored (.attribute use) => do
      getAttribute parts use
      pure o.ty
  clobberAx
  return ty

def partToAx (parts : Parts) (part : Part) : Gen Ty := do
  loadToAx parts (← parts part)

end AdventureScript.Gen
