import AdventureScript.Statement.Assignment
import AdventureScript.Statement.Local
import AdventureScript.Statement.Release

/-!
Branches and loops. They are given the step that compiles the statements within them.
-/
namespace AdventureScript.Gen

def compileControlled (statement : Gen Unit) : Gen Unit := do
  enterBlock
  statement
  exitBlock

def compileCondition : Gen Unit := do
  expect .leftParen
  checkCondition (← expressionToAx)
  expect .rightParen

def skipNext : Gen (Option PendingJump) := do
  if ← isReachable then some <$> jump .jmp
  else return none

def landOptional (j? : Option PendingJump) : Gen Unit := do
  if let some j := j? then landHere j

def compileElse (statement : Gen Unit) (toElse : PendingJump) : Gen Unit := do
  let toEnd ← skipNext
  landHere toElse
  compileControlled statement
  landOptional toEnd

def compileIf (statement : Gen Unit) : Gen Unit := do
  let _ ← advance
  compileCondition
  let toElse ← jump .jz
  compileControlled statement
  if ← eatWord .kwElse then compileElse statement toElse
  else landHere toElse

def within {α : Type} (construct : Construct) (depth : Nat) (step : Gen α) : Gen (α × Frame) := do
  modify fun s => { s with nesting := { construct, depth } :: s.nesting }
  let a ← step
  match (← get).nesting with
  | frame :: outer =>
    modify fun s => { s with nesting := outer }
    return (a, frame)
  | [] => fail .unbalancedNesting

def withinLoop (continueTo : Option Nat) (step : Gen Unit) : Gen Frame := do
  let (_, frame) ← within (.loop continueTo #[]) (← get).scope.depth step
  return frame

def startLoop : Gen Nat := do
  let start ← codeSize
  markJumpTarget
  return start

/-- The condition that a loop starts with, and the jump that leaves the loop. -/
def loopCondition : Gen (Option PendingJump) := do
  let o ← expression
  if o.isConstantTrue then
    return none
  else
    checkCondition (← toAx o)
    some <$> jump .jz

def loopBody (statement : Gen Unit) (start : Nat) (toEnd : Option PendingJump) : Gen Unit := do
  let frame ← withinLoop (some start) (compileControlled statement)
  jumpTo .jmp start
  landOptional toEnd
  landAllHere frame.breaks

def compileWhile (statement : Gen Unit) : Gen Unit := do
  let _ ← advance
  let start ← startLoop
  expect .leftParen
  let toEnd ← loopCondition
  expect .rightParen
  loopBody statement start toEnd

def conditionBack (start : Nat) : Gen Unit := do
  let o ← expression
  match o.constant? with
  | some value => if value.isTrue then jumpTo .jmp start
  | none =>
    checkCondition (← toAx o)
    jumpTo .jnz start

def compileDo (statement : Gen Unit) : Gen Unit := do
  let _ ← advance
  let start ← startLoop
  let frame ← withinLoop none (compileControlled statement)
  landAllHere frame.continues
  expectWord .kwWhile
  expect .leftParen
  conditionBack start
  expect .rightParen
  expect .semicolon
  landAllHere frame.breaks

def goTo (pos : Nat) : Gen Unit := do
  setPos pos
  forgetLine
  markLine (← tokenAt pos).line

def loopStart : Gen Unit := do
  if !(← eat .semicolon) then
    if ← atDeclaration then compileLocals
    else compileSimple .semicolon

def loopClauses : Gen (Stretch × Stretch) := do
  let start ← getPos
  let stop ← findAtDepthZero start (· = .symbol .semicolon)
  let t ← tokenAt stop
  if t.kind ≠ .symbol .semicolon then
    setPos stop
    fail (.expectedLoopSemicolon t.quoted)
  let close ← findAtDepthZero (stop + 1) (· = .symbol .rightParen)
  return (⟨start, stop⟩, ⟨stop + 1, close⟩)

def loopStep (clause : Stretch) : Gen Nat := do
  if clause.start < clause.stop then
    let toCondition ← jump .jmp
    let start ← startLoop
    goTo clause.start
    compileSimple .rightParen
    landHere toCondition
    return start
  else
    startLoop

def clauseCondition (clause : Stretch) : Gen (Option PendingJump) := do
  setPos clause.start
  if clause.start < clause.stop then
    goTo clause.start
    loopCondition
  else
    return none

def compileRounds (statement : Gen Unit) : Gen Unit := do
  let (condition, step) ← loopClauses
  let start ← loopStep step
  let toEnd ← clauseCondition condition
  expect .semicolon
  setPos step.stop
  expect .rightParen
  loopBody statement start toEnd

def compileFor (statement : Gen Unit) : Gen Unit := do
  let _ ← advance
  expect .leftParen
  enterBlock
  loopStart
  compileRounds statement
  exitBlock

end AdventureScript.Gen
