import AdventureScript.Expression.Basic

/-!
The brackets behind a declared name, and the types that a variable can have.
-/
namespace AdventureScript.Gen

def arraySize : Gen UInt32 := do
  match ← constantExpression? with
  | some (.int n, _) =>
    if n ≤ 0 then fail (.arraySizeTooSmall n)
    return n.toUInt32
  | _ => fail .arraySizeNotConstant

def arraySizes : Gen (List UInt32) := do
  let dims ← rounds (fun dims : Array UInt32 => do
    if ← eat .leftBracket then
      let size ← arraySize
      expect .rightBracket
      return .again (dims.push size)
    else
      return .done dims) #[]
  return dims.toList

def arraySuffix (ty : Ty) (name? : Option String) : Gen Ty := do
  if !(← check .leftBracket) then
    return ty
  if ty.isDynamicArray then fail .arrayOfDynamicArrays
  if ← atEmptyBrackets then
    let _ ← advance
    let _ ← advance
    dynamicArrayOf ty name?
  else
    let dims ← arraySizes
    if ty.isVoid then fail .arrayOfVoid
    return { ty with shape := .static dims }

/-- Refuses types that a variable cannot have. Managed objects are not stored in place, except by
whoever exports them. -/
def checkVariableType (ty : Ty) (name : String) (imported : Bool) : Gen Unit := do
  if ty.base = .void then fail (.variableOfVoid name)
  if !ty.pointer then
    if let some s ← structOf? ty.base then
      if s.managed && !imported then fail (.managedInstance name s.name)
      if !s.defined then fail (.onlyForwardDeclared s.name)

end AdventureScript.Gen
