import AdventureScript.Expression.Operator
import AdventureScript.Expression.Ternary

/-!
Expressions. Each part of an expression starts behind the start of the one that it belongs to, so
that the number of tokens bounds how deep parts can be nested.
-/
namespace AdventureScript.Gen

def startsOperand : Token.Kind → Bool
  | .identifier | .int _ | .float _ | .string _ => true
  | .keyword .kwThis | .keyword .kwNull | .keyword .kwNew => true
  | _ => false

def compileOperator (parts : Parts) (priority : Nat) (lhs : Operand) :
    Gen (Round Operand Operand) := do
  match (← peek).kind with
  | .symbol .question =>
    if priority < ternaryPriority then return .done lhs
    return .again (← compileTernary parts lhs)
  | .symbol mark =>
    match (BinaryOp.ofSymbol? mark).filter (·.priority ≤ priority) with
    | none => return .done lhs
    | some op =>
      let _ ← advance
      return .again (← compileRightSide parts op lhs)
  | _ => return .done lhs

def compileOperators (parts : Parts) (priority : Nat) : Gen Operand := do
  let first ← compilePrefixed parts
  let result ← rounds (compileOperator parts priority) first
  let next ← peek
  if startsOperand next.kind then fail (.expectedOperator next.quoted)
  return result

def compileArgument (parts : Parts) (stop : Nat) : Gen Operand := do
  let o ← compileOperators parts ternaryPriority
  if (← getPos) ≠ stop then fail (.expectedArgumentEnd (← peek).quoted)
  return .inAx (← loadToAx parts o)

def tokensLeft : Gen Nat := do
  return (← tokenCount) - (← getPos)

/-- Compiles only parts with fewer tokens left than `limit`. -/
def below (limit : Nat) (parts : Parts) : Parts := fun part => do
  if (← tokensLeft) < limit then parts part else fail .tooDeep

def compileWith (parts : Parts) : Parts
  | .prefixed => compilePrefixed parts
  | .upTo priority => compileOperators parts priority
  | .argument stop => compileArgument parts stop

/-- Compiles parts that hold parts of their own up to `depth` levels deep. -/
def compilePart : (depth : Nat) → Parts
  | 0 => fun _ => fail .tooDeep
  | depth + 1 => fun part => do
    compileWith (below (← tokensLeft) (compilePart depth)) part

def withParts {α : Type} (step : Parts → Gen α) : Gen α := do
  step (compilePart ((← tokenCount) + 1))

def expression : Gen Operand :=
  withParts Parts.whole

def toAx (o : Operand) : Gen Ty :=
  withParts (loadToAx · o)

def expressionToAx : Gen Ty := do
  toAx (← expression)

def constantExpression? : Gen (Option (Constant × Ty)) := do
  let (o, stop) ← dryRun expression
  match o.constant? with
  | some value =>
    setPos stop
    return some (value, o.ty)
  | none => return none

end AdventureScript.Gen
