import AdventureScript.Declaration.Qualifier
import AdventureScript.Declaration.Shape

/-!
Global variables and their initial values, which are constants.
-/
namespace AdventureScript

def littleEndian (count : Nat) (w : Int32) : List UInt8 :=
  (List.range count).map fun k => (w.toUInt32 >>> (8 * k).toUInt32).toUInt8

namespace Gen

/-- Refuses a variable whose name is taken. -/
def checkGlobalName (name : String) (ty : Ty) (imported : Bool) : Gen Unit := do
  let symbols ← getSymbols
  match symbols.find? name with
  | none => pure ()
  | some (.variable id) =>
    let earlier ← globalAt id
    if !(earlier.isImport && !imported && earlier.ty = ty) then
      fail (.globalTwice name earlier.line)
    if ((← get).script.findImport? name).isSome then fail (.usedAsImport name)
    if (← getOptions).noImportOverride then fail (.importedVariable name)
  | some other => fail (.alreadyDefinedAs name other.kindName)

def initialText (name : String) : Gen (List UInt8) := do
  match (← peek).kind with
  | .string bytes =>
    let _ ← advance
    if oldStringSize.toNat ≤ bytes.length then fail (.stringValueTooLong name)
    return bytes
  | _ => fail (.expectedStringValue name)

def initialNumber (ty : Ty) (name : String) : Gen (Constant × List UInt8) := do
  let (value, _) ← orFail (← constantExpression?) (.valueNotConstant name)
  match ty.base, value with
  | .float, .float _ => return (value, littleEndian 4 value.toWord)
  | .float, .int n => fail (.expectedFloatValue name n)
  | base, .int n =>
    if !base.isInteger then fail (.cannotAssign "int" (← textOf ty))
    return (value, littleEndian (ty.size (← getTypes)).toNat n)
  | _, .float _ => fail (.cannotAssign "float" (← textOf ty))

def initialValue (ty : Ty) (name : String) : Gen (List UInt8 × Option Constant) := do
  if ty.isHandle then fail (.pointerWithValue name)
  if !ty.isScalar || ty.isStructValue then fail (.wholeWithValue name)
  if ty.isOldString then
    return (← initialText name, none)
  else
    let (value, bytes) ← initialNumber ty name
    return (bytes, some value)

def declareGlobal (q : Qualifiers) (ty : Ty) (name : String) : Gen Unit := do
  checkVariableType ty name q.isImport
  let line ← currentLine
  checkGlobalName name ty q.isImport
  let readOnly := q.has .kwReadonly || (q.has .kwConst && !ty.isOldString)
  if q.isImport then
    if ← check .equal then fail .importWithValue
    modifySymbols (·.addGlobal { name, ty, isImport := true, readOnly, line })
  else
    let size := ty.size (← getTypes)
    let (bytes, value?) ← if ← eat .equal then initialValue ty name else pure ([], none)
    let offset ← updateScript (·.addGlobal size bytes)
    modifySymbols (·.addGlobal {
      name, ty, offset, readOnly, line
      value? := value?.filter fun _ => readOnly })

end Gen
end AdventureScript
