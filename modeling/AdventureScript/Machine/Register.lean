/-!
The registers of the script machine, and the sizes in bytes that its memory is laid out by.
-/
namespace AdventureScript

inductive Register where
  | sp
  | mar
  | ax
  | bx
  | cx
  | op
  | dx
  deriving DecidableEq, Repr, Inhabited

namespace Register

def all : List Register :=
  [.sp, .mar, .ax, .bx, .cx, .op, .dx]

def toWord (r : Register) : Int32 :=
  Int32.ofNat (r.ctorIdx + 1)

def ofWord? (word : Int32) : Option Register :=
  if 1 ≤ word then all[word.toInt.toNat - 1]? else none

def name : Register → String
  | .sp => "sp"
  | .mar => "mar"
  | .ax => "ax"
  | .bx => "bx"
  | .cx => "cx"
  | .op => "op"
  | .dx => "dx"

end Register

def cellSize : UInt32 := 4

def oldStringSize : UInt32 := 200

def handleSize : UInt32 := 4

end AdventureScript
