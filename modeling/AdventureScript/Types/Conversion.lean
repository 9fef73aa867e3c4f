import AdventureScript.Types.Table
import AdventureScript.Operator

/-!
Which types can be used for which: implicit conversions, operators on values in registers, and the
common type of two alternatives.
-/
namespace AdventureScript

namespace Ty

def convertsTo (source target : Ty) (types : TypeTable) : Bool :=
  if source.isVoid || target.isVoid then false
  else if source.isConst && !target.isConst && target.isOldString then false
  else if source.withoutConst = target.withoutConst then true
  else if source.isNull then target.isHandle
  else if source.isOldString && target.isAnyString types then true
  else if source.isStringPointer types && target.isOldString then target.isConst
  else if source.isInteger && target.isInteger then true
  else if source.isPointer && target.isPointer then
    match source.structId?, target.structId? with
    | some derived, some base => types.isSameOrDerived derived base
    | _, _ => false
  else if source.isDynamicArray && target.isDynamicArray then
    source.base = target.base && source.pointer = target.pointer
  else false

def common? (second third : Ty) (types : TypeTable) : Option Ty :=
  if second.isInteger && third.isInteger then some .int
  else if third.convertsTo second types && !second.isNull && !second.isOldString then some second
  else if second.convertsTo third types then some third
  else if third.convertsTo second types then some second
  else none

def readOpcode (t : Ty) (types : TypeTable) : Opcode :=
  if t.isHandle then .memReadPtr
  else if t.size types = 1 then .memReadB
  else if t.size types = 2 then .memReadW
  else .memRead

def writeOpcode (t : Ty) (types : TypeTable) : Opcode :=
  if t.isHandle then .memWritePtr
  else if t.size types = 1 then .memWriteB
  else if t.size types = 2 then .memWriteW
  else .memWrite

def isCondition (t : Ty) : Bool :=
  t.isInteger || t.isHandle

def isTruthy (t : Ty) : Bool :=
  t.isInteger || t.isHandle || t.isNull || t.isFloat

def isHandleLike (t : Ty) : Bool :=
  t.isHandle || t.isNull

end Ty

inductive OperatorFault where
  | void
  | onStrings
  | onFloats
  | onPointers
  | mismatch
  deriving DecidableEq, Repr

namespace BinaryOp

def select (op : BinaryOp) (lhs rhs : Ty) (types : TypeTable) :
    Except OperatorFault (Opcode × Ty) :=
  if lhs.isVoid || rhs.isVoid then .error .void
  else if lhs.isAnyString types && rhs.isAnyString types then
    match op.stringOpcode? with
    | some opcode => .ok (opcode, .int)
    | none => .error .onStrings
  else if op = .and || op = .or then
    if lhs.isTruthy && rhs.isTruthy then .ok (op.intOpcode, .int) else .error .mismatch
  else if lhs.isInteger && rhs.isInteger then .ok (op.intOpcode, .int)
  else if lhs.isFloat && rhs.isFloat then
    match op.floatOpcode? with
    | some opcode => .ok (opcode, if op.isComparison then .int else .float)
    | none => .error .onFloats
  else if lhs.isHandleLike && rhs.isHandleLike then
    if !op.isEquality then .error .onPointers
    else if rhs.convertsTo lhs types || lhs.convertsTo rhs types then .ok (op.intOpcode, .int)
    else .error .mismatch
  else .error .mismatch

def foldedType? (op : BinaryOp) (lhs rhs : Ty) : Option Ty :=
  let bothInt := lhs.isInteger && rhs.isInteger
  let bothFloat := lhs.isFloat && rhs.isFloat
  if !bothInt && !bothFloat && !(lhs.isNull && rhs.isNull) then none
  else if op.isComparison || bothInt then some .int
  else some .float

end BinaryOp
end AdventureScript
