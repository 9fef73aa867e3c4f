import AdventureScript.Types.Basic
import AdventureScript.Machine.Register

/-!
The table of structs and enums: their members, inheritance, sizes and names.
-/
namespace AdventureScript

/-! ## Definitions -/

inductive Access where
  | unrestricted
  | guarded
  | writeGuarded
  | readOnly
  deriving DecidableEq, Repr, Inhabited

structure Field where
  ty : Ty
  offset : UInt32
  access : Access
  deriving DecidableEq, Repr, Inhabited

structure Attribute where
  name : String
  ty : Ty
  indexed : Bool
  isStatic : Bool
  getter : FuncId
  setter : Option FuncId
  deriving DecidableEq, Repr, Inhabited

inductive Component where
  | field (f : Field)
  | function (id : FuncId)
  | attribute (a : Attribute)
  deriving DecidableEq, Repr, Inhabited

def Component.kindName : Component → String
  | .field _ => "variable"
  | .function _ => "function"
  | .attribute _ => "attribute"

structure Member where
  name : String
  component : Component
  deriving DecidableEq, Repr, Inhabited

structure StructDef where
  name : String
  managed : Bool
  builtin : Bool := false
  autoptr : Bool := false
  internalString : Bool := false
  parent : Option TypeId := none
  /-- The bytes taken by all fields, those of the parent included. -/
  size : UInt32 := 0
  defined : Bool := false
  members : Array Member := #[]
  deriving DecidableEq, Repr, Inhabited

namespace StructDef

def component? (s : StructDef) (name : String) : Option Component :=
  (s.members.toList.reverse.find? (·.name = name)).map (·.component)

def fields (s : StructDef) : List (String × Field) :=
  s.members.toList.filterMap fun m =>
    match m.component with
    | .field f => some (m.name, f)
    | _ => none

def add (s : StructDef) (name : String) (c : Component) : StructDef :=
  { s with members := s.members.push ⟨name, c⟩ }

def addField (s : StructDef) (name : String) (ty : Ty) (size : UInt32) (access : Access) :
    StructDef :=
  { s with size := s.size + size }.add name (.field ⟨ty, s.size, access⟩)

end StructDef

inductive TypeDef where
  | struct (s : StructDef)
  | enum (name : String)
  deriving DecidableEq, Repr, Inhabited

def TypeDef.name : TypeDef → String
  | .struct s => s.name
  | .enum name => name

structure TypeTable where
  defs : Array TypeDef := #[]
  deriving DecidableEq, Repr, Inhabited

namespace TypeTable

def add (types : TypeTable) (d : TypeDef) : TypeId × TypeTable :=
  (⟨types.defs.size⟩, ⟨types.defs.push d⟩)

def get? (types : TypeTable) (id : TypeId) : Option TypeDef :=
  types.defs[id.index]?

def name (types : TypeTable) (id : TypeId) : String :=
  ((types.get? id).map TypeDef.name).getD "?"

def struct? (types : TypeTable) (id : TypeId) : Option StructDef :=
  match types.get? id with
  | some (.struct s) => some s
  | _ => none

def modifyStruct (types : TypeTable) (id : TypeId) (f : StructDef → StructDef) : TypeTable :=
  match types.struct? id with
  | some s => ⟨types.defs.setIfInBounds id.index (.struct (f s))⟩
  | none => types

/-! ## Inheritance -/

def parent? (types : TypeTable) (id : TypeId) : Option TypeId :=
  (types.struct? id).bind (·.parent)

def lineageFrom (types : TypeTable) : (steps : Nat) → TypeId → List TypeId
  | 0, id => [id]
  | steps + 1, id =>
    id :: match types.parent? id with
      | some p => types.lineageFrom steps p
      | none => []

/-- A struct and what it extends, nearest first. -/
def lineage (types : TypeTable) (id : TypeId) : List TypeId :=
  types.lineageFrom types.defs.size id

def findComponent? (types : TypeTable) (id : TypeId) (name : String) :
    Option (TypeId × Component) :=
  (types.lineage id).findSome? fun owner =>
    ((types.struct? owner).bind (·.component? name)).map (owner, ·)

def isSameOrDerived (types : TypeTable) (derived base : TypeId) : Bool :=
  (types.lineage derived).contains base

def allFields (types : TypeTable) (id : TypeId) : List Field :=
  (types.lineage id).flatMap fun owner =>
    ((types.struct? owner).map (·.fields.map (·.2))).getD []

end TypeTable

def Base.size (b : Base) (types : TypeTable) : UInt32 :=
  match b with
  | .void | .null => 0
  | .char => 1
  | .short => 2
  | .int | .long | .float | .enum _ => 4
  | .oldString => oldStringSize
  | .struct id => ((types.struct? id).map (·.size)).getD 0

namespace Ty

def elementSize (t : Ty) (types : TypeTable) : UInt32 :=
  if t.pointer then handleSize else t.base.size types

def elementCount (dims : List UInt32) : UInt32 :=
  dims.foldl (· * ·) 1

/-- The bytes of a variable. Sizes are 32-bit numbers and wrap around. -/
def size (t : Ty) (types : TypeTable) : UInt32 :=
  match t.shape with
  | .scalar => t.elementSize types
  | .dynamic => handleSize
  | .static dims => elementCount dims * t.elementSize types

def isStringPointer (t : Ty) (types : TypeTable) : Bool :=
  t.isPointer && (t.structId?.bind types.struct?).any (·.internalString)

def isAnyString (t : Ty) (types : TypeTable) : Bool :=
  t.isOldString || t.isStringPointer types

def holdsHandleWithin (types : TypeTable) : (depth : Nat) → Ty → Bool
  | 0, t => t.isHandle || (t.pointer && t.isStaticArray)
  | depth + 1, t =>
    t.isHandle || (t.pointer && t.isStaticArray) ||
      match t.structId? with
      | some id =>
        !t.pointer && (types.allFields id).any fun f => holdsHandleWithin types depth f.ty
      | none => false

/-- Whether `t` is a handle or holds one that has to be released with a variable of the type.
Structs stored within each other are all different, so the table bounds their depth. -/
def holdsHandle (t : Ty) (types : TypeTable) : Bool :=
  holdsHandleWithin types types.defs.size t

def text (t : Ty) (types : TypeTable) : String :=
  let base :=
    match t.base with
    | .void => "void"
    | .char => "char"
    | .short => "short"
    | .int => "int"
    | .long => "long"
    | .float => "float"
    | .oldString => "string"
    | .null => "null"
    | .struct id | .enum id => types.name id
  let array :=
    match t.shape with
    | .scalar => ""
    | .dynamic => "[]"
    | .static dims => String.join (dims.map fun d => s!"[{d}]")
  (if t.isConst then "const " else "") ++ base ++ (if t.pointer then "*" else "") ++ array

end Ty
end AdventureScript
