import AdventureScript.Types.Basic

/-!
Local variables of the function being compiled.
-/
namespace AdventureScript

structure Variable where
  name : String
  ty : Ty
  offset : Int32
  readOnly : Bool := false
  isParam : Bool := false
  deriving DecidableEq, Repr, Inhabited

/-- The position of a parameter, counted from 0: below the return address, the first one nearest. -/
def paramOffset (index : Nat) : Int32 :=
  -(4 * (Int32.ofNat index + 2))

structure Block where
  start : Int32
  vars : List Variable := []
  deriving DecidableEq, Repr, Inhabited

structure Scope where
  blocks : List Block := []
  offset : Int32 := 0
  deriving DecidableEq, Repr, Inhabited

namespace Scope

def depth (s : Scope) : Nat :=
  s.blocks.length

def enter (s : Scope) : Scope :=
  { s with blocks := ⟨s.offset, []⟩ :: s.blocks }

def leave (s : Scope) : List Variable × Scope :=
  match s.blocks with
  | b :: outer => (b.vars, { s with blocks := outer })
  | [] => ([], s)

def adjust (s : Scope) (delta : Int32) : Scope :=
  { s with offset := s.offset + delta }

def sizeFrom (s : Scope) (depth : Nat) : Int32 :=
  if depth = 0 then s.offset
  else match s.blocks.reverse[depth - 1]? with
    | some b => s.offset - b.start
    | none => s.offset

def distance (s : Scope) (offset : Int32) : Int32 :=
  s.offset - offset

def get? (s : Scope) (name : String) : Option Variable :=
  s.blocks.findSome? fun b => b.vars.find? (·.name = name)

def getHere? (s : Scope) (name : String) : Option Variable :=
  s.blocks.head?.bind fun b => b.vars.find? (·.name = name)

def add (s : Scope) (v : Variable) : Scope :=
  match s.blocks with
  | b :: outer => { s with blocks := { b with vars := v :: b.vars } :: outer }
  | [] => s

def declare (s : Scope) (v : Variable) : Except Variable Scope :=
  match s.getHere? v.name with
  | some w => .error w
  | none => .ok (s.add v)

def varsFrom (s : Scope) (depth : Nat) : List Variable :=
  (s.blocks.take (s.depth + 1 - depth)).flatMap (·.vars)

end Scope
end AdventureScript
