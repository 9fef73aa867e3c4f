import AdventureScript.Compile.Gen

/-!
Types as they stand in front of a declared name or behind `new`.
-/
namespace AdventureScript.Gen

def atDeclaration : Gen Bool := do
  let t ← peek
  match t.kind with
  | .keyword .kwConst | .keyword .kwReadonly => return true
  | .identifier =>
    let next := (← peekAt 1).kind
    return ((← getSymbols).findType? t.lexeme).isSome &&
      (next = .identifier || next = .symbol .star || next = .symbol .leftBracket)
  | kind => return kind.isPrimitiveType

def baseOf (t : Token) (isConst : Bool) : Gen Base := do
  match t.kind with
  | .keyword .kwVoid => return .void
  | .keyword .kwChar => return .char
  | .keyword .kwShort => return .short
  | .keyword .kwInt => return .int
  | .keyword .kwLong => return .long
  | .keyword .kwFloat => return .float
  | .keyword .kwString =>
    if !isConst && !(← getOptions).oldStrings then fail .oldStringType
    return .oldString
  | .identifier =>
    match (← getSymbols).find? t.lexeme with
    | some (.type id) =>
      match (← getTypes).get? id with
      | some (.enum _) => return .enum id
      | _ => return .struct id
    | some _ => fail (.notAType t.lexeme)
    | none => fail (.undeclaredType t.lexeme)
  | _ => fail (.expectedType t.quoted)

def structOf? (base : Base) : Gen (Option StructDef) := do
  match base with
  | .struct id => return (← getTypes).struct? id
  | _ => return none

def atEmptyBrackets : Gen Bool := do
  return (← check .leftBracket) && (← peekAt 1).kind = .symbol .rightBracket

def declaredName? (ahead : Nat) : Gen (Option String) := do
  let t ← peekAt ahead
  return if t.kind = .identifier then some t.lexeme else none

def dynamicArrayOf (ty : Ty) (name? : Option String) : Gen Ty := do
  if ty.isVoid then fail .arrayOfVoid
  if ty.isStructValue then fail (.dynamicArrayOfStruct name? (← textOf ty))
  return { ty with shape := .dynamic }

def parseType (isConst : Bool) : Gen Ty := do
  let t ← advance
  let base ← baseOf t isConst
  let struct ← structOf? base
  let ty : Ty := { base, isConst, pointer := struct.any (·.autoptr) }
  let starred ← eat .star
  if starred && !struct.any (·.managed) then
    let name? ← declaredName? (if ← atEmptyBrackets then 2 else 0)
    fail (.pointerToUnmanaged name? (← textOf ty))
  let ty := { ty with pointer := ty.pointer || starred }
  if ← atEmptyBrackets then
    let _ ← advance
    let _ ← advance
    dynamicArrayOf ty (← declaredName? 0)
  else
    return ty

end AdventureScript.Gen
