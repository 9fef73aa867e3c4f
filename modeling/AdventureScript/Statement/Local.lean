import AdventureScript.Declaration.Shape

/-!
Declarations of local variables. A variable lies on top of the stack when it is declared.
-/
namespace AdventureScript.Gen

def checkLocalName (name : String) : Gen Unit := do
  let scope := (← get).scope
  if (scope.getHere? name).isSome then fail (.localTwice name)
  -- Parameters live one block above the body.
  if scope.depth = 2 && (scope.get? name).any (·.isParam) then fail (.localIsParam name)
  match (← getSymbols).find? name with
  | some (.function _) => warn (.hidesFunction name)
  | some (.constant _ enum) => warn (.hidesEnumValue name ((← getTypes).name enum))
  | some (.type _) => fail (.localIsType name)
  | _ => pure ()

def fillsCell (ty : Ty) : Gen Bool := do
  return ty.size (← getTypes) = cellSize && !ty.isHandle

def allocateZero (ty : Ty) : Gen Unit := do
  let size := (ty.size (← getTypes)).toInt32
  if ← fillsCell ty then
    litToReg .ax 0
    pushReg .ax
  else
    emit .loadSpOffs [0]
    if ty.isHandle then emit .memZeroPtr []
    else emit .zeroMemory [size]
    allocate size

def allocateAx (ty : Ty) : Gen Unit := do
  if ← fillsCell ty then
    pushReg .ax
  else
    emit .loadSpOffs [0]
    if ty.isHandle then emitRegs .memInitPtr [.ax]
    else writeAx ty
    allocate (ty.size (← getTypes)).toInt32

def allocateInitialized (ty : Ty) (name : String) : Gen Unit := do
  if ty.isStaticArray || ty.isStructValue then fail (.wholeWithValue name)
  if ← atExpressionEnd then fail (.expectedValue name (← peek).quoted)
  if ty.isOldString then
    let offset := (← get).scope.offset
    allocateZero ty
    convertAxForStore (← expressionToAx) ty
    loadLocal offset
    copyString
  else
    convertAxForStore (← expressionToAx) ty
    allocateAx ty

def declareLocal (base : Ty) (readOnly : Bool) : Gen Unit := do
  let name ← expectIdentifier
  checkLocalName name
  let ty ← arraySuffix base (some name)
  checkVariableType ty name false
  let offset := (← get).scope.offset
  if ← eat .equal then allocateInitialized ty name
  else allocateZero ty
  let size := ty.size (← getTypes)
  modify fun s => { s with localBytes := s.localBytes + size.toNat }
  let v : Variable := {
    name, ty, offset, readOnly := readOnly || (ty.isConst && !ty.isOldString) }
  match (← get).scope.declare v with
  | .ok scope => modifyScope fun _ => scope
  | .error _ => fail (.declaredTwice name)

def compileLocals : Gen Unit := do
  let readOnly ← eatWord .kwReadonly
  let isConst ← eatWord .kwConst
  let base ← parseType isConst
  repeatWhile do
    declareLocal base readOnly
    eat .comma
  expect .semicolon

end AdventureScript.Gen
