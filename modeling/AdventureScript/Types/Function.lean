import AdventureScript.Types.Table
import AdventureScript.Text.Shortest
import AdventureScript.Text.Utf8

/-!
Functions: their parameters, the names they have in the import and export tables, and the rule that
all declarations of one function agree.
-/
namespace AdventureScript

inductive Default where
  | int (value : Int32)
  | float (value : Float32)
  | null
  | string (bytes : List UInt8)
  deriving DecidableEq, Repr, Inhabited

namespace Default

def text : Default → String
  | .int value => toString value
  | .float value => Text.single value
  | .null => "null"
  | .string bytes => "\"" ++ String.ofList (Text.decodeLossy bytes) ++ "\""

def agrees : Default → Default → Bool
  | .float a, .float b => a == b
  | a, b => a = b

end Default

def sameDefault : Option Default → Option Default → Bool
  | some a, some b => a.agrees b
  | none, none => true
  | _, _ => false

structure Param where
  name : Option String
  ty : Ty
  default? : Option Default
  deriving DecidableEq, Repr, Inhabited

structure FuncDef where
  name : String
  structOf : Option TypeId := none
  isStatic : Bool := false
  isGuarded : Bool := false
  returnType : Ty
  params : List Param := []
  variadic : Bool := false
  noLoopCheck : Bool := false
  /-- Declared with `import`; calls go through the import table until a body is seen. -/
  isImport : Bool := false
  hasBody : Bool := false
  codeOffset : Option Nat := none
  line : Nat := 0
  sectionIndex : UInt16 := 0
  deriving DecidableEq, Repr, Inhabited

def afterLastScope (found : List Char) : List Char → List Char
  | ':' :: ':' :: cs => afterLastScope cs (':' :: cs)
  | _ :: cs => afterLastScope found cs
  | [] => found

inductive Mismatch where
  | paramCount (name : String) (here first line : Nat)
  | returnType (name here first : String) (line : Nat)
  | staticness (name : String) (here first : Bool) (line : Nat)
  | paramType (number : Nat) (name here first : String) (line : Nat)
  | paramDefault (name : String) (number : Nat) (here first : Option Default) (line : Nat)
  deriving DecidableEq, Repr

namespace Mismatch

def staticText (isStatic : Bool) : String :=
  if isStatic then "static" else "non-static"

def defaultText : Option Default → String
  | some d => s!"the default {d.text}"
  | none => "no default"

def message : Mismatch → String
  | .paramCount name here first line =>
    s!"Function '{name}' is declared with {here} parameter(s) here " ++
      s!"but with {first} parameter(s) on line {line}"
  | .returnType name here first line =>
    s!"Return type of '{name}' is '{here}' here but '{first}' on line {line}"
  | .staticness name here first line =>
    s!"Function '{name}' is declared as {staticText here} here " ++
      s!"but as {staticText first} on line {line}"
  | .paramType number name here first line =>
    s!"Type of parameter #{number} of '{name}' is '{here}' here but '{first}' on line {line}"
  | .paramDefault name number here first line =>
    s!"In '{name}', parameter #{number} has {defaultText here} here " ++
      s!"but {defaultText first} on line {line}"

end Mismatch

namespace FuncDef

def needsObject (f : FuncDef) : Bool :=
  f.structOf.isSome && !f.isStatic

def shortName (f : FuncDef) : String :=
  String.ofList (afterLastScope f.name.toList f.name.toList)

/-- The name in the import table. -/
def importName (f : FuncDef) : String :=
  let arity := f.params.length + (if f.variadic then 100 else 0)
  if f.structOf.isSome then s!"{f.name}^{arity}" else f.name

def exportName (f : FuncDef) : String :=
  s!"{f.name}${f.params.length}"

def requiredParams (f : FuncDef) : Nat :=
  (f.params.reverse.dropWhile (·.default?.isSome)).length

def paramMismatch? (name : String) (line : Nat) (types : TypeTable) :
    (number : Nat) → (first here : List Param) → Option Mismatch
  | number, p :: ps, q :: qs =>
    if p.ty ≠ q.ty then some (.paramType number name (q.ty.text types) (p.ty.text types) line)
    else if !sameDefault p.default? q.default? then
      some (.paramDefault name number q.default? p.default? line)
    else paramMismatch? name line types (number + 1) ps qs
  | _, _, _ => none

def mismatch? (first here : FuncDef) (types : TypeTable) : Option Mismatch :=
  if first.params.length ≠ here.params.length ∨ first.variadic ≠ here.variadic then
    some (.paramCount first.name here.params.length first.params.length first.line)
  else if first.returnType ≠ here.returnType then
    some (.returnType first.name (here.returnType.text types) (first.returnType.text types)
      first.line)
  else if first.isStatic ≠ here.isStatic then
    some (.staticness first.name here.isStatic first.isStatic first.line)
  else paramMismatch? first.name first.line types 1 first.params here.params

end FuncDef
end AdventureScript
