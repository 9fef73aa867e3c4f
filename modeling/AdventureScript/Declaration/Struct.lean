import AdventureScript.Declaration.Parameter
import AdventureScript.Declaration.Qualifier

/-!
Structs and their members. A function of a struct is a global symbol as well, under its qualified
name.
-/
namespace AdventureScript.Gen

def changeStruct (id : TypeId) (change : String) (f : StructDef → StructDef) : Gen Unit := do
  if ((← getTypes).struct? id).isNone then fail (.changeOfOther change)
  modifySymbols (·.modifyStruct id f)

/-! ## Members -/

def checkNewComponent (struct : TypeId) (name : String) : Gen Unit := do
  let types ← getTypes
  if let some (owner, c) := types.findComponent? struct name then
    fail (.componentTwice (types.name owner) name c.kindName)

def addMemberFunction (struct : TypeId) (member : String) (f : FuncDef) : Gen FuncId := do
  checkNewComponent struct member
  let symbols ← getSymbols
  if let some other := symbols.find? f.name then fail (.alreadyDefinedAs f.name other.kindName)
  if member ≠ f.shortName then fail .memberName
  let (id, symbols) := symbols.addFunction f
  modifySymbols fun _ => symbols
  changeStruct struct "Adding a function to" (·.add member (.function id))
  return id

def checkFieldType (ty : Ty) (name : String) : Gen Unit := do
  if ty.base = .void then fail (.variableOfVoid name)
  if !ty.pointer then
    if let some s ← structOf? ty.base then
      if s.managed then fail (.fieldOfManaged name s.name)
      if !s.defined then fail (.fieldOfIncomplete name s.name)

def declareField (struct : TypeId) (q : Qualifiers) (base : Ty) (name : String) : Gen Unit := do
  if q.has .kwStatic then fail (.staticField name)
  if q.has .kwImport then fail (.importedField name)
  let ty ← arraySuffix base (some name)
  checkFieldType ty name
  let size := ty.size (← getTypes)
  changeStruct struct "Adding a field to" (·.addField name ty size q.access)

def declareMemberFunction (struct : TypeId) (q : Qualifiers) (returnType : Ty) (name : String) :
    Gen Unit := do
  if q.has .kwWriteprotected || q.has .kwReadonly then fail (.memberFunctionAccess name)
  let line ← currentLine
  let list ← parseParams false
  let _ ← addMemberFunction struct name {
    name := (← getTypes).name struct ++ "::" ++ name
    structOf := some struct
    isStatic := q.has .kwStatic
    isGuarded := q.has .kwProtected
    returnType
    params := list.params
    variadic := list.variadic
    isImport := q.has .kwImport
    line
    sectionIndex := ← currentSection }
  expect .semicolon

def addAccessor (struct : TypeId) (isStatic : Bool) (name : String) (returnType : Ty)
    (params : List Ty) : Gen FuncId := do
  addMemberFunction struct name {
    name := (← getTypes).name struct ++ "::" ++ name
    structOf := some struct
    isStatic
    returnType
    params := params.map fun ty => { name := none, ty, default? := none }
    isImport := true
    line := ← currentLine
    sectionIndex := ← currentSection }

def declareAttribute (struct : TypeId) (q : Qualifiers) (ty : Ty) (name : String) :
    Gen Unit := do
  if q.has .kwProtected || q.has .kwWriteprotected then fail .attributeAccess
  if ty.isStructValue then fail (.attributeOfStruct name)
  let indexed ← atEmptyBrackets
  if indexed then
    let _ ← advance
    let _ ← advance
  let isStatic := q.has .kwStatic
  let index := if indexed then [Ty.int] else []
  let accessor (verb : String) := (if indexed then verb ++ "i_" else verb ++ "_") ++ name
  let getter ← addAccessor struct isStatic (accessor "get") ty index
  let setter ←
    if q.has .kwReadonly then pure none
    else some <$> addAccessor struct isStatic (accessor "set") .void (index ++ [ty])
  let attr : Attribute := { name, ty, indexed, isStatic, getter, setter }
  changeStruct struct "Adding an attribute to" (·.add name (.attribute attr))

def checkMemberQualifiers (q : Qualifiers) : Gen Unit := do
  if let some word := q.structOnly? then fail (.misplacedInStruct word.spelling)
  if q.has .kwTryImport || q.has .kwNoloopcheck then fail .memberQualifier
  if q.restrictsTwice then fail .accessTwice

def declareMembers (struct : TypeId) : Gen Unit := do
  let q ← qualifiers
  checkMemberQualifiers q
  let base ← parseType (q.has .kwConst)
  let closed ← rounds (fun _ => do
    let name ← expectIdentifier
    checkNewComponent struct name
    if ← check .leftParen then
      if q.has .kwAttribute then fail .attributeWithParams
      declareMemberFunction struct q base name
      return .done true
    if q.has .kwAttribute then declareAttribute struct q base name
    else declareField struct q base name
    return if ← eat .comma then .again () else .done false) ()
  if !closed then expect .semicolon

def openStruct (q : Qualifiers) (name : String) : Gen TypeId := do
  let symbols ← getSymbols
  let managed := q.has .kwManaged
  match symbols.find? name with
  | some (.type id) =>
    match symbols.types.struct? id with
    | none => fail (.alreadyEnum name)
    | some s =>
      if s.defined then fail (.structTwice name)
      if s.managed ≠ managed then fail (.forwardDeclaredAs name s.managed)
      return id
  | some other => fail (.alreadyDefinedAs name other.kindName)
  | none =>
    let (id, symbols) := symbols.addType (.struct {
      name, managed
      builtin := q.has .kwBuiltin
      autoptr := q.has .kwAutoptr
      internalString := q.has .kwInternalstring })
    modifySymbols fun _ => symbols
    return id

def extendStruct (id : TypeId) (name : String) (managed : Bool) : Gen Unit := do
  let parentName ← expectIdentifier
  let symbols ← getSymbols
  let (parent, s) ← orFail
    ((symbols.findType? parentName).bind fun id => (symbols.types.struct? id).map (id, ·))
    (.notAStruct parentName)
  if !s.defined then fail (.onlyForwardDeclared parentName)
  if managed ≠ s.managed then fail (.extendsMixed name parentName managed s.managed)
  changeStruct id "Extending" ({ · with parent := some parent, size := s.size })

def structBody (id : TypeId) (name : String) : Gen Unit := do
  expect .leftBrace
  repeatWhile do
    if ← eat .rightBrace then return false
    if ← atEnd then fail (.endInStruct name)
    declareMembers id
    return true
  expect .semicolon
  modifySymbols (·.modifyStruct id ({ · with defined := true }))

def compileStruct (q : Qualifiers) : Gen Unit := do
  if let some word := q.notOnStruct? then fail (.misplacedOnStruct word.spelling)
  let managed := q.has .kwManaged
  if q.has .kwAutoptr && !managed then fail .autoptrOfUnmanaged
  let _ ← advance
  let name ← expectIdentifier
  let id ← openStruct q name
  if ← eat .semicolon then
    if !managed then fail .forwardOfUnmanaged
  else
    if ← eatWord .kwExtends then extendStruct id name managed
    structBody id name

end AdventureScript.Gen
