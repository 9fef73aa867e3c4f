import AdventureScript.Expression.Access
import AdventureScript.Compile.TypeName

/-!
Operands and the operators on them. Operators on constants are carried out at once.
-/
namespace AdventureScript.Gen

def compileNewArray (parts : Parts) (element : Ty) (managed : Bool) : Gen Operand := do
  if !(element.isScalar && (element.isInteger || element.isFloat || managed)) then fail .newOfType
  let element := { element with pointer := element.pointer || managed }
  let count ← partToAx parts (.upTo ternaryPriority)
  if !count.isInteger then fail (.newArraySize (← textOf count))
  expect .rightBracket
  let size := (element.elementSize (← getTypes)).toInt32
  emit .newArray [Register.ax.toWord, size, if element.pointer then 1 else 0]
  clobberAx
  return .inAx { element with shape := .dynamic }

def compileNewObject (element : Ty) (struct : Option StructDef) : Gen Operand := do
  let s ← orFail (struct.filter (·.managed)) .newOfType
  if s.builtin then fail (.newOfBuiltin s.name)
  emit .newUserObject [Register.ax.toWord, s.size.toInt32]
  clobberAx
  return .inAx { element with pointer := true }

def compileNew (parts : Parts) : Gen Operand := do
  let _ ← advance
  let element ← parseType false
  let struct ← structOf? element.base
  if ← eat .leftBracket then compileNewArray parts element (struct.any (·.managed))
  else compileNewObject element struct

def compileOperand (parts : Parts) : Gen Operand := do
  let t ← peek
  match t.kind with
  | .int n =>
    let _ ← advance
    let value ← orFail (narrow? n) (.literalOutOfRange t.lexeme)
    return .constant (.int value) .int
  | .float x =>
    let _ ← advance
    return .constant (.float x) .float
  | .string bytes =>
    let _ ← advance
    stringToAx bytes
    return .inAx .constString
  | .keyword .kwNull =>
    let _ ← advance
    return .constant (.int 0) .null
  | .symbol .leftParen =>
    let _ ← advance
    let o ← parts.whole
    expect .rightParen
    compileChain parts o
  | .keyword .kwNew => compileNew parts
  | .identifier | .keyword .kwThis => compileAccess parts
  | _ => fail (.expectedExpression t.quoted)

def failOperator {α : Type} (op : UnaryOp) (ty : Ty) : Gen α := do
  fail (.operatorType op.spelling (← textOf ty))

def arithmeticType (ty : Ty) : Ty :=
  if ty.isFloat then .float else .int

def foldUnaryOperand (op : UnaryOp) (value : Constant) (ty : Ty) : Gen Operand := do
  if !(ty.isInteger || ty.isFloat) then failOperator op ty
  match foldUnary op value with
  | .ok folded => return .constant folded (if op = .not then .int else arithmeticType ty)
  | .error e => fail (.fold e)

def emitUnary (op : UnaryOp) (ty : Ty) : Gen Operand := do
  match op with
  | .neg =>
    if !(ty.isInteger || ty.isFloat) then failOperator op ty
    litToReg .bx 0
    emitRegs (if ty.isFloat then .fSubReg else .subReg) [.bx, .ax]
    emitRegs .regToReg [.bx, .ax]
    return .inAx (arithmeticType ty)
  | .not =>
    if !ty.isCondition then failOperator op ty
    emitRegs .notReg [.ax]
    return .inAx .int
  | .bitNot =>
    if !ty.isInteger then failOperator op ty
    litToReg .bx (-1)
    emitRegs .subReg [.bx, .ax]
    emitRegs .regToReg [.bx, .ax]
    return .inAx .int

def compileUnary (parts : Parts) (op : UnaryOp) : Gen Operand := do
  -- This magnitude only fits behind a minus.
  if op = .neg && (← checkKind (.int 2147483648)) then
    let _ ← advance
    return .constant (.int Int32.minValue) .int
  if ← atExpressionEnd then fail (.expectedAfter op.spelling)
  let o ← parts .prefixed
  match o.constant? with
  | some value => foldUnaryOperand op value o.ty
  | none => emitUnary op (← loadToAx parts o)

def compilePrefixed (parts : Parts) : Gen Operand := do
  let t ← peek
  match t.kind with
  | .symbol .plusPlus | .symbol .minusMinus => fail (.incrementInside t.lexeme)
  | .symbol mark =>
    match UnaryOp.ofSymbol? mark with
    | some op =>
      let _ ← advance
      compileUnary parts op
    | none => compileOperand parts
  | _ => compileOperand parts

def foldOperands (op : BinaryOp) (a b : Constant) (lhs rhs : Ty) : Gen Operand := do
  match op.foldedType? lhs rhs with
  | none => failConversion rhs lhs
  | some ty =>
    match foldBinary op a b with
    | .ok value => return .constant value ty
    | .error e => fail (.fold e)

def skipJump? : BinaryOp → Option Opcode
  | .and => some .jz
  | .or => some .jnz
  | _ => none

def emitBinary (parts : Parts) (op : BinaryOp) (lhs : Operand) (part : Part) : Gen Operand := do
  let lhsType ← loadToAx parts lhs
  let skip ← (skipJump? op).mapM jump
  pushReg .ax
  let rhsType ← partToAx parts part
  popReg .bx
  let (opcode, ty) ← selectOpcode op lhsType rhsType
  emitRegs opcode [.bx, .ax]
  emitRegs .regToReg [.bx, .ax]
  if let some j := skip then landHere j
  return .inAx ty

def compileRightSide (parts : Parts) (op : BinaryOp) (lhs : Operand) : Gen Operand := do
  if ← atExpressionEnd then fail (.missingRightSide op.spelling)
  let part := Part.upTo (if (← getOptions).leftToRight then op.priority - 1 else op.priority)
  match lhs.constant? with
  | none => emitBinary parts op lhs part
  | some a =>
    let (rhs, stop) ← dryRun (parts part)
    match rhs.constant? with
    | some b =>
      setPos stop
      foldOperands op a b lhs.ty rhs.ty
    | none => emitBinary parts op lhs part

end AdventureScript.Gen
