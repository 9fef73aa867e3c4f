import AdventureScript.Expression.Address
import AdventureScript.Expression.Conversion

/-!
Calls. Every argument takes a cell of the stack, and the last one is pushed first.
-/
namespace AdventureScript

inductive Argument where
  | tokens (stretch : Stretch)
  | inAx (ty : Ty)
  | default (value : Default)
  deriving DecidableEq, Repr, Inhabited

structure Cell where
  argument : Argument
  ty? : Option Ty
  deriving DecidableEq, Repr, Inhabited

def defaultCells : (number : Nat) → List Param → Except Fault (List Cell)
  | _, [] => .ok []
  | number, p :: ps =>
    match p.default? with
    | some value => (defaultCells (number + 1) ps).map (⟨.default value, some p.ty⟩ :: ·)
    | none => .error (.missingArgument number)

def matchCells : (number : Nat) → List Param → List Argument → Except Fault (List Cell)
  | number, p :: ps, a :: given => (matchCells (number + 1) ps given).map (⟨a, some p.ty⟩ :: ·)
  | number, ps, [] => defaultCells number ps
  | _, [], given => .ok (given.map (⟨·, none⟩))

def FuncDef.cells (f : FuncDef) (given : List Argument) : Except Fault (List Cell) :=
  if f.params.length < given.length && !f.variadic then
    .error (.tooManyArguments f.params.length given.length)
  else matchCells 1 f.params given

def FuncDef.isExternal (f : FuncDef) : Bool :=
  f.isImport && !f.hasBody

namespace Gen

def scanArguments : Gen (List Argument) := do
  expect .leftParen
  if ← eat .rightParen then
    return []
  let given ← rounds (fun given : Array Argument => do
    let start ← getPos
    let stop ← findAtDepthZero start (· = .symbol .comma)
    if start = stop then fail (.emptyArgument (given.size + 1))
    let given := given.push (.tokens ⟨start, stop⟩)
    setPos stop
    if ← eat .comma then
      return .again given
    else
      expect .rightParen
      return .done given) #[]
  return given.toList

def loadDefault : Default → Gen Ty
  | .int value => do
    litToReg .ax value
    return .int
  | .float value => do
    litToReg .ax value.toBits.toInt32
    return .float
  | .null => do
    litToReg .ax 0
    return .null
  | .string bytes => do
    stringToAx bytes
    return .constString

def loadArgument (parts : Parts) : Argument → Gen Ty
  | .tokens stretch => do
    setPos stretch.start
    return (← parts (.argument stretch.stop)).ty
  | .inAx ty => return ty
  | .default value => loadDefault value

def pushCell (parts : Parts) (external : Bool) (c : Cell) : Gen Unit := do
  let ty ← loadArgument parts c.argument
  match c.ty? with
  | some target => convertAx ty target
  | none => if ty.isVoid then fail .voidArgument
  if external then emitRegs .pushReal [.ax]
  else pushReg .ax

/-! ## Calls -/

def emitCallInstruction (id : FuncId) (f : FuncDef) (count : Int32) : Gen Unit := do
  if f.isExternal then
    emit .numFuncArgs [count]
    importToReg .ax (.external id) f.importName
    emitRegs .callExt [.ax]
    if 0 < count then
      emit .subRealStack [count]
  else
    litToReg .ax (Int32.ofNat (f.codeOffset.getD 0))
    fixupLast (.function id)
    if f.codeOffset.isNone then
      modify fun s => { s with calls := s.calls.add (s.script.size - 1) id }
    emitRegs .call [.ax]
    release (count * cell)

/-- Brings the object of a call into MAR and saves it on the stack. -/
def saveObject (f : FuncDef) (object : Option Place) : Gen (Option Checkpoint) := do
  if f.needsObject then
    loadAddress (← orFail object (.callWithoutObject f.name))
    let c ← checkpoint
    pushReg .mar
    return some c
  else
    return none

/-- Makes the object the one of the next call. -/
def passObject (saved : Checkpoint) (f : FuncDef) (count : Int32) : Gen Unit := do
  if count = 0 then
    restore saved
    adjustStack (-cell)
  else
    let pushed := if f.isExternal then 0 else count
    emit .loadSpOffs [(1 + pushed) * cell]
    emitRegs .memRead [.mar]
  emitRegs .callObj [.mar]

def callWithCells (parts : Parts) (id : FuncId) (f : FuncDef) (object : Option Place)
    (cells : List Cell) : Gen Unit := do
  let count := Int32.ofNat cells.length
  match ← saveObject f object with
  | some saved =>
    cells.reverse.forM (pushCell parts f.isExternal)
    passObject saved f count
    emitCallInstruction id f count
    if 0 < count then popReg .mar
  | none =>
    cells.reverse.forM (pushCell parts f.isExternal)
    emitCallInstruction id f count

def keepingThis (f : FuncDef) (call : Gen Unit) : Gen Unit := do
  if f.needsObject && (← hasThis) then
    pushReg .op
    call
    popReg .op
  else
    call

def getCells (f : FuncDef) (given : List Argument) : Gen (List Cell) :=
  match f.cells given with
  | .ok cells => pure cells
  | .error fault => fail fault

def emitCall (parts : Parts) (id : FuncId) (object : Option Place) (given : List Argument) :
    Gen Operand := do
  let resume ← getPos
  let f ← functionAt id
  let cells ← getCells f given
  modify fun s => { s with callBytes := max s.callBytes (4 * cells.length) }
  keepingThis f (callWithCells parts id f object cells)
  clobberAx
  setPos resume
  return .inAx f.returnType

def compileCall (parts : Parts) (id : FuncId) (object : Option Place) : Gen Operand := do
  emitCall parts id object (← scanArguments)

def indexArguments (use : AttributeUse) : List Argument :=
  use.index.toList.map .tokens

def getAttribute (parts : Parts) (use : AttributeUse) : Gen Unit := do
  let _ ← emitCall parts use.attr.getter use.object (indexArguments use)

def setAttribute (parts : Parts) (use : AttributeUse) (valueType : Ty) : Gen Unit := do
  let setter ← orFail use.attr.setter (.writeToReadonly use.attr.name)
  let _ ← emitCall parts setter use.object (indexArguments use ++ [.inAx valueType])

end Gen
end AdventureScript
