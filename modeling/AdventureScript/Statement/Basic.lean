import AdventureScript.Statement.Exit
import AdventureScript.Statement.Switch

/-!
Statements. A statement within another one starts behind the start of that one, so that the number
of tokens bounds how deep statements can be nested.
-/
namespace AdventureScript.Gen

def compileUntilBrace (statement : Gen Unit) (atEndOfInput : Fault) : Gen Unit := do
  repeatWhile do
    if ← check .rightBrace then return false
    if ← atEnd then fail atEndOfInput
    statement
    return true
  let _ ← advance

def compileBlock (statement : Gen Unit) : Gen Unit := do
  expect .leftBrace
  enterBlock
  compileUntilBrace statement .endInBlock
  exitBlock

def compileMarked (statement : Gen Unit) (kind : Token.Kind) : Gen Unit := do
  match kind with
  | .keyword .kwIf => compileIf statement
  | .keyword .kwWhile => compileWhile statement
  | .keyword .kwDo => compileDo statement
  | .keyword .kwFor => compileFor statement
  | .keyword .kwSwitch => compileSwitch statement
  | .keyword .kwReturn => compileReturn
  | .keyword .kwBreak => compileBreak
  | .keyword .kwContinue => compileContinue
  | .keyword .kwFallthrough => compileFallthrough
  | .keyword .kwCase | .keyword .kwDefault => fail (.labelOutsideSwitch kind.text)
  | .keyword .kwElse => fail .elseWithoutIf
  | _ =>
    if ← atDeclaration then compileLocals
    else compileSimple .semicolon

def compileStatement (statement : Gen Unit) : Gen Unit := do
  let t ← peek
  if !(← isReachable) then warnAt t .unreachable
  match t.kind with
  | .symbol .leftBrace => compileBlock statement
  | .symbol .semicolon =>
    let _ ← advance
  | kind =>
    markLine t.line
    compileMarked statement kind

def statementWithin : (depth : Nat) → Gen Unit
  | 0 => fail .tooDeep
  | depth + 1 => compileStatement (statementWithin depth)

def statement : Gen Unit := do
  statementWithin ((← tokenCount) + 1)

end AdventureScript.Gen
