import AdventureScript.Compile.Gen

/-!
Operands: where the value of an expression is. Constants stay constants until an instruction needs
them, and variables stay places in memory, so that what is read can also be written.
-/
namespace AdventureScript

inductive Anchor where
  | global (offset : UInt32)
  | local (offset : Int32)
  | imported (id : GlobalId)
  | this
  | mar
  deriving DecidableEq, Repr, Inhabited

structure Place where
  anchor : Anchor
  component : UInt32 := 0
  deriving DecidableEq, Repr, Inhabited

def Place.plus (p : Place) (bytes : UInt32) : Place :=
  { p with component := p.component + bytes }

structure AttributeUse where
  attr : Attribute
  object : Option Place
  index : Option Stretch
  deriving DecidableEq, Repr, Inhabited

inductive Target where
  | memory (place : Place)
  | attribute (use : AttributeUse)
  deriving DecidableEq, Repr, Inhabited

inductive Value where
  | const (value : Constant)
  | ax
  | this
  | stored (target : Target)
  deriving DecidableEq, Repr, Inhabited

structure Operand where
  value : Value
  ty : Ty
  writeFault : Option Fault := none
  deriving DecidableEq, Repr

namespace Operand

def constant (value : Constant) (ty : Ty) : Operand :=
  { value := .const value, ty }

def inAx (ty : Ty) : Operand :=
  { value := .ax, ty }

def memory (place : Place) (ty : Ty) (writeFault : Option Fault) : Operand :=
  { value := .stored (.memory place), ty, writeFault }

def constant? (o : Operand) : Option Constant :=
  match o.value with
  | .const value => some value
  | _ => none

def isConstantTrue (o : Operand) : Bool :=
  o.constant?.any (·.isTrue)

end Operand

inductive Part where
  | prefixed
  /-- Operands joined by operators that bind as tightly as `priority` or tighter. -/
  | upTo (priority : Nat)
  /-- A whole expression that ends at the token `stop`; its value goes to AX. -/
  | argument (stop : Nat)
  deriving DecidableEq, Repr, Inhabited

abbrev Parts := Part → Gen Operand

namespace Parts

def whole (parts : Parts) : Gen Operand :=
  parts (.upTo ternaryPriority)

end Parts

namespace Gen

def atExpressionEnd : Gen Bool := do
  let kind := (← peek).kind
  return kind.isAssignment || kind.isCloser ||
    match kind with
    | .symbol .semicolon | .symbol .comma | .symbol .colon | .endOfInput => true
    | _ => false

end Gen
end AdventureScript
