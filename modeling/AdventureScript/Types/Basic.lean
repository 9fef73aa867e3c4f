/-!
Types of values, variables and parameters. Structs and enums are referred to by their number in a
type table.
-/
namespace AdventureScript

structure TypeId where
  index : Nat
  deriving DecidableEq, Repr, Inhabited

structure FuncId where
  index : Nat
  deriving DecidableEq, Repr, Inhabited

structure GlobalId where
  index : Nat
  deriving DecidableEq, Repr, Inhabited

inductive Base where
  | void
  | char
  | short
  | int
  | long
  | float
  | oldString
  | null
  | struct (id : TypeId)
  | enum (id : TypeId)
  deriving DecidableEq, Repr, Inhabited

def Base.isInteger : Base → Bool
  | .char | .short | .int | .long | .enum _ => true
  | _ => false

inductive Shape where
  | scalar
  | static (dims : List UInt32)
  | dynamic
  deriving DecidableEq, Repr, Inhabited

structure Ty where
  base : Base
  isConst : Bool := false
  pointer : Bool := false
  shape : Shape := .scalar
  deriving DecidableEq, Repr, Inhabited

namespace Ty

def void : Ty := { base := .void }

def int : Ty := { base := .int }

def float : Ty := { base := .float }

def null : Ty := { base := .null }

def constString : Ty := { base := .oldString, isConst := true }

def pointerTo (id : TypeId) : Ty := { base := .struct id, pointer := true }

def isScalar (t : Ty) : Bool :=
  t.shape = .scalar

def isVoid (t : Ty) : Bool :=
  t.base = .void && t.isScalar

def isNull (t : Ty) : Bool :=
  t.base = .null

def isInteger (t : Ty) : Bool :=
  t.isScalar && !t.pointer && t.base.isInteger

def isFloat (t : Ty) : Bool :=
  t.isScalar && !t.pointer && t.base = .float

def isStaticArray (t : Ty) : Bool :=
  match t.shape with
  | .static _ => true
  | _ => false

def isDynamicArray (t : Ty) : Bool :=
  t.shape = .dynamic

def isPointer (t : Ty) : Bool :=
  t.pointer && t.isScalar

def isHandle (t : Ty) : Bool :=
  t.isPointer || t.isDynamicArray

def isOldString (t : Ty) : Bool :=
  t.isScalar && !t.pointer && t.base = .oldString

def structId? (t : Ty) : Option TypeId :=
  match t.base with
  | .struct id => some id
  | _ => none

def isStructValue (t : Ty) : Bool :=
  t.isScalar && !t.pointer && t.structId?.isSome

def element (t : Ty) : Ty :=
  { t with shape := .scalar }

def afterIndex (t : Ty) : Ty :=
  match t.shape with
  | .static (_ :: d :: ds) => { t with shape := .static (d :: ds) }
  | _ => t.element

def withoutConst (t : Ty) : Ty :=
  { t with isConst := false }

end Ty
end AdventureScript
