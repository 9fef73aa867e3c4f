import AdventureScript.Machine.Opcode
import AdventureScript.Token.Symbol

/-!
Operators: how tightly they bind and the instructions that carry them out.
-/
namespace AdventureScript

inductive BinaryOp where
  | mul | div | mod | add | sub | shl | shr | bitAnd | bitOr | bitXor
  | eq | ne | gt | lt | ge | le | and | or
  deriving DecidableEq, Repr, Inhabited

namespace BinaryOp

def ofSymbol? : Symbol → Option BinaryOp
  | .star => some .mul
  | .slash => some .div
  | .percent => some .mod
  | .plus => some .add
  | .minus => some .sub
  | .lessLess => some .shl
  | .greaterGreater => some .shr
  | .amp => some .bitAnd
  | .pipe => some .bitOr
  | .caret => some .bitXor
  | .equalEqual => some .eq
  | .bangEqual => some .ne
  | .greater => some .gt
  | .less => some .lt
  | .greaterEqual => some .ge
  | .lessEqual => some .le
  | .ampAmp => some .and
  | .pipePipe => some .or
  | _ => none

def ofAssignment? : Symbol → Option BinaryOp
  | .plusEqual => some .add
  | .minusEqual => some .sub
  | .starEqual => some .mul
  | .slashEqual => some .div
  | .percentEqual => some .mod
  | .ampEqual => some .bitAnd
  | .pipeEqual => some .bitOr
  | .caretEqual => some .bitXor
  | .lessLessEqual => some .shl
  | .greaterGreaterEqual => some .shr
  | _ => none

def priority : BinaryOp → Nat
  | .mul | .div | .mod => 103
  | .add | .sub => 105
  | .shl | .shr => 107
  | .bitAnd => 109
  | .bitOr | .bitXor => 110
  | .eq | .ne | .gt | .lt | .ge | .le => 112
  | .and => 118
  | .or => 119

def spelling : BinaryOp → String
  | .mul => "*"
  | .div => "/"
  | .mod => "%"
  | .add => "+"
  | .sub => "-"
  | .shl => "<<"
  | .shr => ">>"
  | .bitAnd => "&"
  | .bitOr => "|"
  | .bitXor => "^"
  | .eq => "=="
  | .ne => "!="
  | .gt => ">"
  | .lt => "<"
  | .ge => ">="
  | .le => "<="
  | .and => "&&"
  | .or => "||"

def isComparison : BinaryOp → Bool
  | .eq | .ne | .gt | .lt | .ge | .le | .and | .or => true
  | _ => false

def isEquality : BinaryOp → Bool
  | .eq | .ne => true
  | _ => false

def intOpcode : BinaryOp → Opcode
  | .mul => .mulReg
  | .div => .divReg
  | .mod => .modReg
  | .add => .addReg
  | .sub => .subReg
  | .shl => .shiftLeft
  | .shr => .shiftRight
  | .bitAnd => .bitAnd
  | .bitOr => .bitOr
  | .bitXor => .xorReg
  | .eq => .isEqual
  | .ne => .notEqual
  | .gt => .greater
  | .lt => .lessThan
  | .ge => .gte
  | .le => .lte
  | .and => .and
  | .or => .or

def floatOpcode? : BinaryOp → Option Opcode
  | .mul => some .fMulReg
  | .div => some .fDivReg
  | .add => some .fAddReg
  | .sub => some .fSubReg
  | .eq => some .isEqual
  | .ne => some .notEqual
  | .gt => some .fGreater
  | .lt => some .fLessThan
  | .ge => some .fGte
  | .le => some .fLte
  | .and => some .and
  | .or => some .or
  | .mod | .shl | .shr | .bitAnd | .bitOr | .bitXor => none

def stringOpcode? : BinaryOp → Option Opcode
  | .eq => some .stringsEqual
  | .ne => some .stringsNotEq
  | _ => none

end BinaryOp

def ternaryPriority : Nat := 120

inductive UnaryOp where
  | neg | not | bitNot
  deriving DecidableEq, Repr, Inhabited

namespace UnaryOp

def ofSymbol? : Symbol → Option UnaryOp
  | .minus => some .neg
  | .bang => some .not
  | .tilde => some .bitNot
  | _ => none

def spelling : UnaryOp → String
  | .neg => "-"
  | .not => "!"
  | .bitNot => "~"

end UnaryOp
end AdventureScript
