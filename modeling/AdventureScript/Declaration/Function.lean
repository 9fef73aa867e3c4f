import AdventureScript.Declaration.Parameter
import AdventureScript.Declaration.Qualifier
import AdventureScript.Statement.Basic

/-!
Functions. All declarations of a function have to agree, and one of them at most has a body.
-/
namespace AdventureScript

inductive Membership where
  | free
  | member (struct : TypeId)
  | extender (struct : TypeId) (isStatic : Bool)
  deriving DecidableEq, Repr, Inhabited

def Membership.struct? : Membership → Option TypeId
  | .free => none
  | .member struct | .extender struct _ => some struct

def Membership.isStatic : Membership → Bool
  | .extender _ isStatic => isStatic
  | _ => false

namespace Gen

/-! ## Declarations -/

def qualifiedName (struct? : Option TypeId) (name : String) : Gen String := do
  match struct? with
  | some id => return (← getTypes).name id ++ "::" ++ name
  | none => return name

def addFunction (f : FuncDef) (shortName : String) : Gen FuncId := do
  let (id, symbols) := (← getSymbols).addFunction f
  modifySymbols fun _ =>
    match f.structOf with
    | some struct => symbols.modifyStruct struct (·.add shortName (.function id))
    | none => symbols
  return id

def declareNew (f : FuncDef) (membership : Membership) (shortName : String) : Gen FuncId := do
  let types ← getTypes
  match membership with
  | .member struct => fail (.undeclaredMember shortName (types.name struct))
  | .extender struct _ =>
    if (types.findComponent? struct shortName).isSome then
      fail (.alreadyComponent shortName (types.name struct))
    addFunction f shortName
  | .free => addFunction f shortName

def inheritFrom (earlier f : FuncDef) (membership : Membership) : FuncDef :=
  let params := f.params.zipIdx.map fun (p, k) =>
    { p with default? := p.default?.or (earlier.params[k]?.bind (·.default?)) }
  match membership with
  | .member _ => { f with params, isStatic := earlier.isStatic, isGuarded := earlier.isGuarded }
  | _ => { f with params }

def checkRedeclared (earlier f : FuncDef) (hasBody : Bool) : Gen Unit := do
  if hasBody then
    if earlier.hasBody then fail (.bodyTwice f.name earlier.line)
    if earlier.isImport && (← getOptions).noImportOverride then fail (.importedFunction f.name)
    if earlier.isImport && ((← get).script.findImport? earlier.importName).isSome then
      fail (.calledAsImport f.name)
  else if f.isImport && earlier.hasBody then fail (.importOfDefined f.name earlier.line)

def declareAgain (id : FuncId) (f : FuncDef) (hasBody : Bool) (membership : Membership) :
    Gen Unit := do
  let earlier ← functionAt id
  let f := inheritFrom earlier f membership
  if let some difference := earlier.mismatch? f (← getTypes) then fail (.mismatch difference)
  checkRedeclared earlier f hasBody
  modifySymbols fun symbols =>
    (symbols.modifyFunction id fun g =>
      { g with
        noLoopCheck := g.noLoopCheck || f.noLoopCheck
        params := if hasBody then f.params else g.params
        isImport := g.isImport || f.isImport }).noteImport f.name f.isImport

def declareFunction (f : FuncDef) (hasBody : Bool) (membership : Membership)
    (shortName : String) : Gen FuncId := do
  match (← getSymbols).find? f.name with
  | none => declareNew f membership shortName
  | some (.function id) =>
    declareAgain id f hasBody membership
    return id
  | some other => fail (.alreadyDefinedAs f.name other.kindName)

def startFunction (id : FuncId) : Gen FuncDef := do
  let start ← codeSize
  modifySymbols (·.modifyFunction id fun f =>
    { f with hasBody := true, isImport := false, codeOffset := some start })
  if !(← get).calls.areWithin id start then fail (.outOfRange "code")
  modify fun s =>
    let (calls, script) := s.calls.resolve id start s.script
    { s with
      calls, script, function? := some id, scope := {}, nesting := [], localBytes := 0,
      callBytes := 0 }
  let f ← functionAt id
  emit .thisBase [Int32.ofNat start]
  if f.noLoopCheck then emit .loopCheckOff []
  return f

/-- Declares a parameter as a local variable. -/
def declareParam (p : Param) (index : Nat) : Gen Unit := do
  let offset := paramOffset index
  if p.ty.isHandle then
    loadLocal offset
    emitRegs .memRead [.ax]
    emitRegs .memInitPtr [.ax]
  if let some name := p.name then
    match (← get).scope.declare { name, ty := p.ty, offset, isParam := true } with
    | .ok scope => modifyScope fun _ => scope
    | .error _ => fail (.paramTwice name)

def endFunction (returnType : Ty) : Gen Unit := do
  let _ ← releaseHandles 1
  release (← get).scope.offset
  if !returnType.isVoid then litToReg .ax 0
  emit .ret []

def compileBody (id : FuncId) : Gen Unit := do
  let first ← getPos
  let start ← codeSize
  let f ← startFunction id
  enterBlock
  f.params.zipIdx.forM fun (p, k) => declareParam p k
  enterBlock
  forgetLine
  expect .leftBrace
  compileUntilBrace statement (.endInBody f.name)
  if ← isReachable then
    if !f.returnType.isVoid then warn (.missingReturn f.name)
    endFunction f.returnType
  modify fun s => { s with
    function? := none
    scope := {}
    bodies := s.bodies.push {
      function := id
      tokens := ⟨first, s.pos⟩
      start
      stop := s.script.size
      localBytes := s.localBytes
      callBytes := s.callBytes } }

def checkReturnType (ty : Ty) (name : String) : Gen Unit := do
  if ty.isStructValue then fail (.returnOfStruct name)
  if ty.isStaticArray then fail (.returnOfStaticArray name)

def compileFunction (q : Qualifiers) (returnType : Ty) (name : String)
    (struct? : Option TypeId) : Gen Unit := do
  let line ← currentLine
  checkReturnType returnType name
  let list ← parseParams struct?.isNone
  let membership :=
    match struct?, list.extended? with
    | some id, _ => .member id
    | none, some e => .extender e.struct e.isStatic
    | none, none => Membership.free
  let f : FuncDef := {
    name := ← qualifiedName membership.struct? name
    structOf := membership.struct?
    isStatic := membership.isStatic
    returnType
    params := list.params
    variadic := list.variadic
    noLoopCheck := q.has .kwNoloopcheck
    isImport := q.isImport
    line
    sectionIndex := ← currentSection }
  let hasBody ← check .leftBrace
  if hasBody && f.isImport then fail (.importWithBody f.name)
  if hasBody && q.has .kwReadonly then fail .readonlyFunction
  let id ← declareFunction f hasBody membership name
  if hasBody then compileBody id
  else expect .semicolon

end Gen
end AdventureScript
