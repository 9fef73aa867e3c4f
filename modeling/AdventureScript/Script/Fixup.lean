/-!
Fixups: the code words that a loader has to adjust, and what they refer to.
-/
namespace AdventureScript

inductive FixupKind where
  | globalData
  | function
  | string
  | imported
  | dataData
  | stack
  deriving DecidableEq, Repr, Inhabited

namespace FixupKind

def all : List FixupKind :=
  [.globalData, .function, .string, .imported, .dataData, .stack]

def tag (k : FixupKind) : Nat :=
  k.ctorIdx + 1

def ofTag? (n : Nat) : Option FixupKind :=
  if n = 0 then none else all[n - 1]?

def name : FixupKind → String
  | .globalData => "GlobalData"
  | .function => "Function"
  | .string => "String"
  | .imported => "Import"
  | .dataData => "DataData"
  | .stack => "Stack"

end FixupKind

structure Fixup where
  offset : Nat
  kind : FixupKind
  deriving DecidableEq, Repr, Inhabited

end AdventureScript
