import AdventureScript.Statement.Release
import AdventureScript.Expression.Basic

/-!
Statements that leave a construct. They release what they leave behind, but the code after them is
compiled as if they had not done so.
-/
namespace AdventureScript.Gen

def saveResult (ty : Ty) : Gen Unit := do
  pushReg .ax
  if ty.isHandle then
    emit .loadSpOffs [cell]
    emitRegs .memInitPtr [.ax]

def takeResult (ty : Ty) : Gen Unit := do
  if ty.isHandle then
    emit .loadSpOffs [cell]
    emitRegs .memReadPtr [.ax]
    emit .memZeroPtrNd []
    popReg .bx
  else
    popReg .ax

/-- Releases all variables while AX is kept, so that the object outlives the variables. -/
def releaseKeepingAx (ty : Ty) : Gen Unit := do
  let before ← checkpoint
  saveResult ty
  if ← releaseHandles 1 then
    takeResult ty
  else
    restore before
    adjustStack (-cell)

def compileReturned (ty : Ty) : Gen Unit := do
  if ← eat .semicolon then
    if !ty.isVoid then fail (.expectedReturnValue (← textOf ty))
    let _ ← releaseHandles 1
  else
    if ty.isVoid then fail .valueFromVoid
    convertAxForStore (← expressionToAx) ty
    expect .semicolon
    releaseKeepingAx ty

def compileReturn : Gen Unit := do
  let _ ← advance
  let f ← orFail (← currentFunction?) .returnOutside
  compileReturned f.returnType
  releaseOnExit (← get).scope.offset
  emit .ret []

def compileBreak : Gen Unit := do
  let _ ← advance
  expect .semicolon
  let frame ← orFail (← get).nesting.head? .breakOutside
  leaveTo frame.depth
  let j ← jump .jmp
  modify fun s => { s with nesting := s.nesting.modifyHead (·.addBreak j) }

def compileContinue : Gen Unit := do
  let _ ← advance
  expect .semicolon
  let frame ← orFail (← get).nesting.loop? .continueOutside
  leaveTo frame.depth
  match frame.construct with
  | .loop (some target) _ => jumpTo .jmp target
  | _ =>
    let j ← jump .jmp
    modify fun s => { s with nesting := s.nesting.modifyLoop (·.addContinue j) }

def compileFallthrough : Gen Unit := do
  let _ ← advance
  expect .semicolon
  if (← get).nesting.switch?.isNone then fail .fallthroughOutside
  modify fun s => { s with nesting := s.nesting.markSwitch true }

end AdventureScript.Gen
