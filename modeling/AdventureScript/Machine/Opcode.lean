/-!
The instruction set of the script machine. An instruction is one opcode word and a fixed number of
operand words.
-/
namespace AdventureScript

/-- What an instruction does. The numbering, from 1, is the order of this list. -/
inductive Opcode where
  | add
  | sub
  /-- Computes `second = first`. -/
  | regToReg
  | writeLit
  | ret
  | litToReg
  /-- Reads four bytes at MAR; the narrower forms read one or two. -/
  | memRead
  /-- Writes four bytes at MAR; the narrower forms write one or two. -/
  | memWrite
  | mulReg
  | divReg
  | addReg
  | subReg
  | bitAnd
  | bitOr
  | isEqual
  | notEqual
  | greater
  | lessThan
  | gte
  | lte
  | and
  | or
  | call
  | memReadB
  | memReadW
  | memWriteB
  | memWriteW
  /-- Jumps if AX is zero. The operand counts from the next instruction. -/
  | jz
  | pushReg
  | popReg
  | jmp
  | mul
  | callExt
  | pushReal
  | subRealStack
  | lineNum
  | callAs
  /-- The entry of a function; the operand is its own code position. -/
  | thisBase
  | numFuncArgs
  | modReg
  | xorReg
  | notReg
  | shiftLeft
  | shiftRight
  | callObj
  /-- Aborts unless `0 <= reg < lit`. -/
  | checkBounds
  | memWritePtr
  | memReadPtr
  | memZeroPtr
  | memInitPtr
  | loadSpOffs
  | checkNull
  | fAdd
  | fSub
  | fMulReg
  | fDivReg
  | fAddReg
  | fSubReg
  | fGreater
  | fLessThan
  | fGte
  | fLte
  | zeroMemory
  | createString
  | stringsEqual
  | stringsNotEq
  | checkNullReg
  | loopCheckOff
  | memZeroPtrNd
  | jnz
  | dynamicBounds
  /-- Computes `reg = new array[reg]`; then the element size and whether elements are handles. -/
  | newArray
  | newUserObject
  deriving DecidableEq, Repr, Inhabited

namespace Opcode

def all : List Opcode :=
  [.add, .sub, .regToReg, .writeLit, .ret, .litToReg, .memRead, .memWrite, .mulReg, .divReg,
   .addReg, .subReg, .bitAnd, .bitOr, .isEqual, .notEqual, .greater, .lessThan, .gte, .lte, .and,
   .or, .call, .memReadB, .memReadW, .memWriteB, .memWriteW, .jz, .pushReg, .popReg, .jmp, .mul,
   .callExt, .pushReal, .subRealStack, .lineNum, .callAs, .thisBase, .numFuncArgs, .modReg,
   .xorReg, .notReg, .shiftLeft, .shiftRight, .callObj, .checkBounds, .memWritePtr, .memReadPtr,
   .memZeroPtr, .memInitPtr, .loadSpOffs, .checkNull, .fAdd, .fSub, .fMulReg, .fDivReg, .fAddReg,
   .fSubReg, .fGreater, .fLessThan, .fGte, .fLte, .zeroMemory, .createString, .stringsEqual,
   .stringsNotEq, .checkNullReg, .loopCheckOff, .memZeroPtrNd, .jnz, .dynamicBounds, .newArray,
   .newUserObject]

def toWord (op : Opcode) : Int32 :=
  Int32.ofNat (op.ctorIdx + 1)

def ofWord? (word : Int32) : Option Opcode :=
  if 1 ≤ word then all[word.toInt.toNat - 1]? else none

def operandCount : Opcode → Nat
  | .ret | .memZeroPtr | .checkNull | .loopCheckOff | .memZeroPtrNd => 0
  | .memRead | .memWrite | .call | .memReadB | .memReadW | .memWriteB | .memWriteW | .jz
  | .pushReg | .popReg | .jmp | .callExt | .pushReal | .subRealStack | .lineNum | .callAs
  | .thisBase | .numFuncArgs | .notReg | .callObj | .memWritePtr | .memReadPtr
  | .memInitPtr | .loadSpOffs | .zeroMemory | .createString | .checkNullReg | .jnz
  | .dynamicBounds => 1
  | .newArray => 3
  | _ => 2

def mnemonic : Opcode → String
  | .add => "add"
  | .sub => "sub"
  | .regToReg => "mov"
  | .writeLit => "memwritelit"
  | .ret => "ret"
  | .litToReg => "mov"
  | .memRead => "memread4"
  | .memWrite => "memwrite4"
  | .mulReg => "mul"
  | .divReg => "div"
  | .addReg => "add"
  | .subReg => "sub"
  | .bitAnd => "and"
  | .bitOr => "or"
  | .isEqual => "cmpeq"
  | .notEqual => "cmpne"
  | .greater => "gt"
  | .lessThan => "lt"
  | .gte => "gte"
  | .lte => "lte"
  | .and => "and"
  | .or => "or"
  | .call => "call"
  | .memReadB => "memread1"
  | .memReadW => "memread2"
  | .memWriteB => "memwrite1"
  | .memWriteW => "memwrite2"
  | .jz => "jzi"
  | .pushReg => "push"
  | .popReg => "pop"
  | .jmp => "jmpi"
  | .mul => "mul"
  | .callExt => "farcall"
  | .pushReal => "farpush"
  | .subRealStack => "farsubsp"
  | .lineNum => "sourceline"
  | .callAs => "callscr"
  | .thisBase => "thisaddr"
  | .numFuncArgs => "setfuncargs"
  | .modReg => "mod"
  | .xorReg => "xor"
  | .notReg => "not"
  | .shiftLeft => "shl"
  | .shiftRight => "shr"
  | .callObj => "callobj"
  | .checkBounds => "checkbounds"
  | .memWritePtr => "memwrite.ptr"
  | .memReadPtr => "memread.ptr"
  | .memZeroPtr => "memwrite.ptr.0"
  | .memInitPtr => "meminit.ptr"
  | .loadSpOffs => "load.sp.offs"
  | .checkNull => "checknull.ptr"
  | .fAdd => "f.add"
  | .fSub => "f.sub"
  | .fMulReg => "f.mul"
  | .fDivReg => "f.div"
  | .fAddReg => "f.add"
  | .fSubReg => "f.sub"
  | .fGreater => "f.gt"
  | .fLessThan => "f.lt"
  | .fGte => "f.gte"
  | .fLte => "f.lte"
  | .zeroMemory => "zeromem"
  | .createString => "newstring"
  | .stringsEqual => "strings.=="
  | .stringsNotEq => "strings.!="
  | .checkNullReg => "checknull"
  | .loopCheckOff => "loopcheckoff"
  | .memZeroPtrNd => "memwrite.ptr.0.nd"
  | .jnz => "jnzi"
  | .dynamicBounds => "dynamicbounds"
  | .newArray => "newarray"
  | .newUserObject => "newusrobj"

def isRegister (op : Opcode) (index : Nat) : Bool :=
  match op with
  | .regToReg | .mulReg | .divReg | .addReg | .subReg | .bitAnd | .bitOr | .isEqual
  | .notEqual | .greater | .lessThan | .gte | .lte | .and | .or | .modReg | .xorReg
  | .shiftLeft | .shiftRight | .fMulReg | .fDivReg | .fAddReg | .fSubReg | .fGreater
  | .fLessThan | .fGte | .fLte | .stringsEqual | .stringsNotEq | .memRead | .memWrite
  | .call | .memReadB | .memReadW | .memWriteB | .memWriteW | .pushReg | .popReg | .callExt
  | .pushReal | .callAs | .callObj | .memWritePtr | .memReadPtr | .memInitPtr
  | .createString | .checkNullReg | .dynamicBounds | .notReg => true
  | .add | .sub | .litToReg | .mul | .checkBounds | .fAdd | .fSub | .newArray
  | .newUserObject => index = 0
  | _ => false

def endsFlow : Opcode → Bool
  | .jmp | .ret => true
  | _ => false

end Opcode
end AdventureScript
