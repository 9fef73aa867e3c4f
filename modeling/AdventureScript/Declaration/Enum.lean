import AdventureScript.Declaration.Qualifier
import AdventureScript.Expression.Basic

/-!
Enums. Their values count up from 1, or from the value given last.
-/
namespace AdventureScript.Gen

def checkNewName (name : String) : Gen Unit := do
  if let some other := (← getSymbols).find? name then
    fail (.alreadyDefinedAs name other.kindName)

def declareEnumValue (enum : TypeId) (next : Int32) : Gen Int32 := do
  let name ← expectIdentifier
  checkNewName name
  let value ←
    if ← eat .equal then do
      match ← constantExpression? with
      | some (.int n, _) => pure n
      | _ => fail (.enumValue name)
    else pure next
  modifySymbols (·.addConstant name value enum)
  return value

def compileEnum (q : Qualifiers) : Gen Unit := do
  if !q.isEmpty then fail .qualifiedEnum
  let _ ← advance
  let name ← expectIdentifier
  checkNewName name
  let (enum, symbols) := (← getSymbols).addType (.enum name)
  modifySymbols fun _ => symbols
  expect .leftBrace
  rounds (fun next => do
    if ← check .rightBrace then return .done ()
    let value ← declareEnumValue enum next
    return if ← eat .comma then .again (value + 1) else .done ()) 1
  expect .rightBrace
  expect .semicolon

end AdventureScript.Gen
