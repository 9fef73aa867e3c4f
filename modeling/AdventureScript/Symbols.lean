import AdventureScript.Constant
import AdventureScript.Types.Function

/-!
The global symbol table. One name has one meaning: a type, a function, a variable or an enum value.
-/
namespace AdventureScript

inductive Meaning where
  | type (id : TypeId)
  | function (id : FuncId)
  | variable (id : GlobalId)
  | constant (value : Int32) (enum : TypeId)
  deriving DecidableEq, Repr, Inhabited

def Meaning.kindName : Meaning → String
  | .type _ => "type"
  | .function _ => "function"
  | .variable _ => "variable"
  | .constant _ _ => "constant"

structure GlobalVar where
  name : String
  ty : Ty
  /-- Where it lies in the global data; imports lie elsewhere. -/
  offset : UInt32 := 0
  isImport : Bool := false
  readOnly : Bool := false
  /-- The value of a read-only variable with a constant initial value. -/
  value? : Option Constant := none
  line : Nat := 0
  deriving DecidableEq, Repr, Inhabited

structure Symbols where
  types : TypeTable := {}
  functions : Array FuncDef := #[]
  globals : Array GlobalVar := #[]
  names : List (String × Meaning) := []
  /-- For the record: the names that were declared with `import`. -/
  imported : List String := []
  deriving Inhabited

namespace Symbols

def find? (s : Symbols) (name : String) : Option Meaning :=
  s.names.lookup name

def findType? (s : Symbols) (name : String) : Option TypeId :=
  match s.find? name with
  | some (.type id) => some id
  | _ => none

def findStruct? (s : Symbols) (name : String) : Option TypeId :=
  (s.findType? name).filter fun id => (s.types.struct? id).isSome

def bind (s : Symbols) (name : String) (m : Meaning) : Symbols :=
  { s with names := (name, m) :: s.names }

def noteImport (s : Symbols) (name : String) (isImport : Bool) : Symbols :=
  if isImport then { s with imported := name :: s.imported } else s

def addType (s : Symbols) (d : TypeDef) : TypeId × Symbols :=
  let (id, types) := s.types.add d
  (id, { s with types }.bind d.name (.type id))

def addFunction (s : Symbols) (f : FuncDef) : FuncId × Symbols :=
  let id : FuncId := ⟨s.functions.size⟩
  (id, ({ s with functions := s.functions.push f }.bind f.name (.function id)).noteImport
    f.name f.isImport)

def addGlobal (s : Symbols) (v : GlobalVar) : Symbols :=
  ({ s with globals := s.globals.push v }.bind v.name (.variable ⟨s.globals.size⟩)).noteImport
    v.name v.isImport

def addConstant (s : Symbols) (name : String) (value : Int32) (enum : TypeId) : Symbols :=
  s.bind name (.constant value enum)

def function (s : Symbols) (id : FuncId) : FuncDef :=
  s.functions[id.index]?.getD default

def modifyFunction (s : Symbols) (id : FuncId) (f : FuncDef → FuncDef) : Symbols :=
  { s with functions := s.functions.modify id.index f }

def global (s : Symbols) (id : GlobalId) : GlobalVar :=
  s.globals[id.index]?.getD default

def modifyStruct (s : Symbols) (id : TypeId) (f : StructDef → StructDef) : Symbols :=
  { s with types := s.types.modifyStruct id f }

end Symbols
end AdventureScript
