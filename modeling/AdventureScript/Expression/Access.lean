import AdventureScript.Expression.Index

/-!
Names, `this`, and the members and elements selected from them, from left to right.
-/
namespace AdventureScript.Gen

def isInside (owner : TypeId) : Gen Bool := do
  let types ← getTypes
  return (← currentStruct?).any (types.isSameOrDerived · owner)

/-! ## Components -/

def fieldWriteFault (access : Access) (inside : Bool) (name : String) : Option Fault :=
  match access with
  | .unrestricted | .guarded => none
  | .writeGuarded => if inside then none else some (.writeToGuarded name)
  | .readOnly => some (.writeToReadonly name)

def compileField (owner : TypeId) (f : Field) (object : Option Place) (name : String) :
    Gen Operand := do
  let place ← orFail object (.accessNeedsObject name)
  let inside ← isInside owner
  if f.access = .guarded && !inside then fail (.guardedComponent name)
  return .memory (place.plus f.offset) f.ty (fieldWriteFault f.access inside name)

def bracketed : Gen Stretch := do
  expect .leftBracket
  let start ← getPos
  let stop ← findAtDepthZero start (· = .symbol .rightBracket)
  setPos stop
  expect .rightBracket
  return ⟨start, stop⟩

def compileAttribute (attr : Attribute) (object : Option Place) (name : String) :
    Gen Operand := do
  if !attr.isStatic && object.isNone then fail (.accessNeedsObject name)
  let index ← if attr.indexed then some <$> bracketed else pure none
  let object := if attr.isStatic then none else object
  return {
    value := .stored (.attribute ⟨attr, object, index⟩)
    ty := attr.ty
    writeFault := if attr.setter.isNone then some (.writeToReadonly name) else none }

def compileMemberCall (parts : Parts) (owner : TypeId) (id : FuncId) (object : Option Place)
    (name : String) : Gen Operand := do
  if !(← check .leftParen) then fail (.expectedCall name)
  let f ← functionAt id
  if f.isGuarded && !(← isInside owner) then fail (.guardedComponent name)
  if f.needsObject && object.isNone then fail (.callNeedsObject name)
  compileCall parts id (if f.needsObject then object else none)

def compileComponent (parts : Parts) (owner : TypeId) (c : Component) (object : Option Place)
    (name : String) : Gen Operand :=
  match c with
  | .field f => compileField owner f object name
  | .attribute attr => compileAttribute attr object name
  | .function id => compileMemberCall parts owner id object name

def findComponent (id : TypeId) (name : String) : Gen (TypeId × Component) := do
  let types ← getTypes
  orFail (types.findComponent? id name) (.notAComponent name (types.name id))

def objectPlace (parts : Parts) (o : Operand) (member : String) : Gen Place := do
  if o.ty.pointer then dereference parts o
  else match o.value with
    | .stored (.memory place) => return place
    | _ => fail (.unstoredStruct member)

/-- The member of an operand whose name is next. -/
def compileMember (parts : Parts) (o : Operand) : Gen Operand := do
  let member ← expectIdentifier
  let id ← orFail (o.ty.structId?.filter fun _ => o.ty.isScalar)
    (.structBeforeDot member (← textOf o.ty))
  let place ← objectPlace parts o member
  let (owner, c) ← findComponent id member
  let selected ← compileComponent parts owner c (some place) member
  let inherited := if o.ty.pointer then none else o.writeFault
  return { selected with writeFault := selected.writeFault.or inherited }

def compileChain (parts : Parts) (start : Operand) : Gen Operand :=
  rounds (fun (o, indices) => do
    if ← eat .dot then
      return .again (← compileMember parts o, 0)
    else if ← check .leftBracket then
      return .again (← compileIndex parts o (indices + 1), indices + 1)
    else
      return .done o) (start, 0)

/-! ## Names -/

def variableWriteFault (readOnly : Bool) (name : String) : Option Fault :=
  if readOnly then some (.writeToReadonly name) else none

/-- A local variable. -/
def compileLocal (v : Variable) : Gen Operand := do
  let writeFault := variableWriteFault v.readOnly v.name
  if v.isParam && v.ty.isOldString then
    loadLocal v.offset
    emitRegs .memRead [.mar]
    return .memory ⟨.mar, 0⟩ v.ty writeFault
  else
    return .memory ⟨.local v.offset, 0⟩ v.ty writeFault

def compileGlobal (id : GlobalId) : Gen Operand := do
  let v ← globalAt id
  match v.value?.filter fun _ => v.readOnly with
  | some value => return .constant value v.ty
  | none =>
    let anchor := if v.isImport then .imported id else .global v.offset
    return .memory ⟨anchor, 0⟩ v.ty (variableWriteFault v.readOnly v.name)

def compileStatic (parts : Parts) (id : TypeId) : Gen Operand := do
  if !(← eat .dot) then fail (.expectedDot ((← getTypes).name id))
  let member ← expectIdentifier
  let (owner, c) ← findComponent id member
  compileComponent parts owner c none member

def compileMeaning (parts : Parts) (name : String) : Gen Operand := do
  match (← getSymbols).find? name with
  | some (.variable id) => compileGlobal id
  | some (.constant value enum) => return .constant (.int value) { base := .enum enum }
  | some (.function id) =>
    if !(← check .leftParen) then fail (.expectedCall name)
    compileCall parts id none
  | some (.type id) => compileStatic parts id
  | none => fail (.undeclared name)

def compileName (parts : Parts) : Gen Operand := do
  let name ← expectIdentifier
  let isCall ← check .leftParen
  match (← get).scope.get? name, isCall with
  | some v, false => compileLocal v
  | _, _ =>
    let types ← getTypes
    match (← currentStruct?).bind (types.findComponent? · name) with
    | some (owner, c) =>
      let object := if ← hasThis then some ⟨.this, 0⟩ else none
      compileComponent parts owner c object name
    | none => compileMeaning parts name

def compileThis : Gen Operand := do
  let _ ← advance
  if !(← hasThis) then fail .thisOutside
  let id ← orFail (← currentStruct?) .noStruct
  return { value := .this, ty := .pointerTo id, writeFault := some .writeToThis }

def compileAccess (parts : Parts) : Gen Operand := do
  let start ← if ← checkWord .kwThis then compileThis else compileName parts
  compileChain parts start

end AdventureScript.Gen
