import AdventureScript.Expression.Basic

/-!
Assignments and expressions as statements. The right side is computed first.
-/
namespace AdventureScript.Gen

/-! ## Targets -/

def compileTarget (stop : Nat) : Gen (Target × Ty) := do
  let t ← peek
  if !(t.kind = .identifier || t.kind = .keyword .kwThis) then fail (.cannotAssignTo t.quoted)
  let o ← withParts compileAccess
  if (← getPos) ≠ stop then fail (.expectedAssignment (← peek).quoted)
  match o.value with
  | .stored target =>
    if let some fault := o.writeFault then fail fault
    if o.ty.isStaticArray then fail .wholeArray
    if o.ty.isStructValue then fail .wholeStruct
    return (target, o.ty)
  | _ => fail .notAssignable

def writeTarget (target : Target) (ty : Ty) : Gen Unit := do
  match target with
  | .memory place =>
    loadAddress place
    if ty.isOldString then copyString
    else writeAx ty
  | .attribute use => withParts (setAttribute · use ty)

def probeTarget (stop : Nat) : Gen (Ty × Bool) := do
  let (result, _) ← dryRun do
    modify fun s => { s with axClobbered := false }
    let (_, ty) ← compileTarget stop
    return (ty, (← get).axClobbered)
  return result

def storeAx (tokens : Stretch) (source : Ty) : Gen Unit := do
  setPos tokens.start
  let (ty, clobbers) ← probeTarget tokens.stop
  convertAxForStore source ty
  if clobbers then pushReg .ax
  let (target, ty) ← compileTarget tokens.stop
  if clobbers then popReg .ax
  writeTarget target ty

def updateTarget (tokens : Stretch) (target : Target) (ty : Ty) (step : Gen Unit) :
    Gen Unit := do
  match target with
  | .memory place =>
    loadAddress place
    readAx ty
    step
    writeAx ty
  | .attribute use =>
    withParts (getAttribute · use)
    step
    storeAx tokens ty

def compileAssignment (target : Stretch) : Gen Unit := do
  let o ← expression
  let resume ← getPos
  storeAx target (← toAx o)
  setPos resume

def compileCompound (tokens : Stretch) (op : BinaryOp) : Gen Unit := do
  let o ← expression
  let resume ← getPos
  let rhs ← toAx o
  pushReg .ax
  setPos tokens.start
  let (target, ty) ← compileTarget tokens.stop
  if !(ty.isInteger || ty.isFloat) then
    fail (.operatorType (op.spelling ++ "=") (← textOf ty))
  let (opcode, _) ← selectOpcode op ty rhs
  updateTarget tokens target ty do
    popReg .bx
    emitRegs opcode [.ax, .bx]
  setPos resume

def compileIncrement (tokens : Stretch) (mark : Symbol) : Gen Unit := do
  setPos tokens.start
  let (target, ty) ← compileTarget tokens.stop
  if !ty.isInteger then fail (.operatorType mark.spelling (← textOf ty))
  updateTarget tokens target ty do
    emit (if mark = .plusPlus then .add else .sub) [Register.ax.toWord, 1]

def increment? : Token.Kind → Option Symbol
  | .symbol .plusPlus => some .plusPlus
  | .symbol .minusMinus => some .minusMinus
  | _ => none

def compileExpressionStatement : Gen Unit := do
  let o ← expression
  if let .stored (.attribute _) := o.value then
    let _ ← toAx o

def compileAssignmentAt (start middle : Nat) : Gen Unit := do
  let operator := (← tokenAt middle).kind
  setPos (middle + 1)
  if ← atExpressionEnd then fail (.expectedAfter operator.text)
  match operator with
  | .symbol mark =>
    match BinaryOp.ofAssignment? mark with
    | some op => compileCompound ⟨start, middle⟩ op
    | none => compileAssignment ⟨start, middle⟩
  | _ => compileAssignment ⟨start, middle⟩

def compileSimple (terminator : Symbol) : Gen Unit := do
  let start ← getPos
  let stop ← findAtDepthZero start (· = .symbol terminator)
  let middle ← findAtDepthZero start fun kind => kind.isAssignment || kind = .symbol terminator
  if middle < stop then
    compileAssignmentAt start middle
  else
    let (first, last) := (← tokenAt start, ← tokenAt (stop - 1))
    match increment? first.kind, if start < stop then increment? last.kind else none with
    | some mark, _ =>
      compileIncrement ⟨start + 1, stop⟩ mark
      setPos stop
    | none, some mark =>
      compileIncrement ⟨start, stop - 1⟩ mark
      setPos stop
    | none, none => compileExpressionStatement
  expect terminator

end AdventureScript.Gen
