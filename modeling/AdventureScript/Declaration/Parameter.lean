import AdventureScript.Declaration.Shape

/-!
Parameter lists. An extender function, declared outside of the struct that it belongs to, names the
struct in place of its first parameter.
-/
namespace AdventureScript

structure Extended where
  struct : TypeId
  isStatic : Bool
  deriving DecidableEq, Repr, Inhabited

structure ParamList where
  params : List Param := []
  variadic : Bool := false
  extended? : Option Extended := none
  deriving DecidableEq, Repr, Inhabited

def Default.ofConstant? (ty : Ty) : Constant → Option Default
  | .int n =>
    if ty.isInteger then some (.int n)
    else if ty.isHandle && n = 0 then some .null
    else if ty.isFloat then some (.float n.toFloat32)
    else none
  | .float x => if ty.isFloat then some (.float x) else none

namespace Gen

def parseDefault (ty : Ty) (number : Nat) : Gen Default := do
  match (← peek).kind with
  | .keyword .kwNull =>
    let _ ← advance
    if !ty.isHandle then fail (.nullDefault number)
    return .null
  | .string bytes =>
    if !ty.isAnyString (← getTypes) then fail (.stringDefault number)
    let _ ← advance
    return .string bytes
  | _ =>
    let value? := (← constantExpression?).map (·.1)
    orFail (value?.bind (Default.ofConstant? ty)) (.badDefault number (← textOf ty))

def checkParamType (ty : Ty) (number : Nat) : Gen Unit := do
  if ty.isStaticArray then fail (.paramOfStaticArray number)
  if ty.isVoid then fail (.paramOfVoid number)
  if ty.isStructValue then fail (.paramOfStruct number)

def parseParam (number : Nat) : Gen Param := do
  let isConst ← eatWord .kwConst
  let ty ← parseType isConst
  let name ← if ← checkKind .identifier then some <$> expectIdentifier else pure none
  let ty ← arraySuffix ty name
  checkParamType ty number
  let default? ← if ← eat .equal then some <$> parseDefault ty number else pure none
  return { name, ty, default? }

def structNamed (name : String) : Gen TypeId := do
  orFail ((← getSymbols).findStruct? name) (.notAStruct name)

def parseExtended : Gen (Option Extended) := do
  let isStatic ← checkWord .kwStatic
  if !isStatic && !(← checkWord .kwThis) then
    return none
  let _ ← advance
  let struct ← structNamed (← expectIdentifier)
  if !isStatic then expect .star
  return some { struct, isStatic }

def parseParamsFrom (extended? : Option Extended) : Gen ParamList :=
  rounds (fun params : Array Param => do
    if ← eat .ellipsis then
      expect .rightParen
      return .done { params := params.toList, variadic := true, extended? }
    let params := params.push (← parseParam (params.size + 1))
    if ← eat .comma then
      return .again params
    else
      expect .rightParen
      return .done { params := params.toList, extended? }) #[]

def parseParams (allowExtended : Bool) : Gen ParamList := do
  expect .leftParen
  match ← if allowExtended then parseExtended else pure none with
  | some extended =>
    if ← eat .comma then
      if ← eat .rightParen then return { extended? := some extended }
      parseParamsFrom (some extended)
    else
      expect .rightParen
      return { extended? := some extended }
  | none =>
    if ← eat .rightParen then return {}
    parseParamsFrom none

end Gen
end AdventureScript
