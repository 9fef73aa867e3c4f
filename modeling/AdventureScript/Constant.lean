import AdventureScript.Operator
import AdventureScript.Text.Shortest

/-!
Values known at compile time, and operators on them.
-/
namespace AdventureScript

inductive Constant where
  | int (value : Int32)
  | float (value : Float32)
  deriving DecidableEq, Repr, Inhabited

namespace Constant

def toWord : Constant → Int32
  | .int value => value
  | .float value => value.toBits.toInt32

def isTrue : Constant → Bool
  | .int value => value ≠ 0
  | .float value => !(value == 0)

def text : Constant → String
  | .int value => toString value
  | .float value => Text.single value

def ofBool (b : Bool) : Constant :=
  .int (if b then 1 else 0)

end Constant

/-! ## Folding -/

inductive FoldError where
  | overflow (op : BinaryOp) (lhs rhs : Constant)
  | divisionByZero (op : BinaryOp) (lhs rhs : Constant)
  | negativeShift (op : BinaryOp) (lhs rhs : Constant)
  | shiftTooLarge (op : BinaryOp) (lhs rhs : Constant)
  | mixed (op : BinaryOp) (lhs rhs : Constant)
  | notOnFloats (op : BinaryOp)
  | negationOverflow (value : Int32)
  | complementOfFloat
  deriving DecidableEq, Repr

namespace FoldError

def expression (op : BinaryOp) (lhs rhs : Constant) : String :=
  s!"'{lhs.text} {op.spelling} {rhs.text}'"

def message : FoldError → String
  | .overflow op lhs rhs => s!"Overflow when calculating {expression op lhs rhs}"
  | .divisionByZero op lhs rhs => s!"Division by zero when calculating {expression op lhs rhs}"
  | .negativeShift op lhs rhs =>
    s!"Negative shift count when calculating {expression op lhs rhs}"
  | .shiftTooLarge op lhs rhs =>
    s!"Shift count too large when calculating {expression op lhs rhs}"
  | .mixed op lhs rhs =>
    s!"Type mismatch: cannot combine int and float in {expression op lhs rhs}"
  | .notOnFloats op => s!"Operator '{op.spelling}' cannot be applied to float values"
  | .negationOverflow value => s!"Overflow when calculating '-{value}'"
  | .complementOfFloat => "Operator '~' cannot be applied to float values"

end FoldError

def narrow? (n : Int) : Option Int32 :=
  if -2147483648 ≤ n ∧ n ≤ 2147483647 then some (Int32.ofInt n) else none

def exactInt? (op : BinaryOp) (a b : Int32) : Option Int :=
  match op with
  | .add => some (a.toInt + b.toInt)
  | .sub => some (a.toInt - b.toInt)
  | .mul => some (a.toInt * b.toInt)
  | .div => some (a.toInt.tdiv b.toInt)
  | .mod =>
    -- The quotient has to be an integer of the range, too.
    some (if a = Int32.minValue ∧ b = -1 then 2147483648 else a.toInt.tmod b.toInt)
  | .shl => some (a.toInt <<< b.toInt.toNat)
  | _ => none

def foldInts (op : BinaryOp) (a b : Int32) : Except FoldError Constant :=
  let (lhs, rhs) := (Constant.int a, Constant.int b)
  match op with
  | .add | .sub | .mul =>
    match (exactInt? op a b).bind narrow? with
    | some v => .ok (.int v)
    | none => .error (.overflow op lhs rhs)
  | .div | .mod =>
    if b = 0 then .error (.divisionByZero op lhs rhs)
    else match (exactInt? op a b).bind narrow? with
      | some v => .ok (.int v)
      | none => .error (.overflow op lhs rhs)
  | .shl | .shr =>
    if b < 0 then .error (.negativeShift op lhs rhs)
    else if 32 ≤ b then .error (.shiftTooLarge op lhs rhs)
    else if op = .shr then .ok (.int (a >>> b))
    else match (exactInt? op a b).bind narrow? with
      | some v => .ok (.int v)
      | none => .error (.overflow op lhs rhs)
  | .bitAnd => .ok (.int (a &&& b))
  | .bitOr => .ok (.int (a ||| b))
  | .bitXor => .ok (.int (a ^^^ b))
  | .eq => .ok (.ofBool (a = b))
  | .ne => .ok (.ofBool (a ≠ b))
  | .gt => .ok (.ofBool (b < a))
  | .lt => .ok (.ofBool (a < b))
  | .ge => .ok (.ofBool (b ≤ a))
  | .le => .ok (.ofBool (a ≤ b))
  | .and => .ok (.ofBool (a ≠ 0 && b ≠ 0))
  | .or => .ok (.ofBool (a ≠ 0 || b ≠ 0))

def foldFloats (op : BinaryOp) (a b : Float32) : Except FoldError Constant :=
  let finite (v : Float32) : Except FoldError Constant :=
    if v.isFinite then .ok (.float v) else .error (.overflow op (.float a) (.float b))
  match op with
  | .add => finite (a + b)
  | .sub => finite (a - b)
  | .mul => finite (a * b)
  | .div =>
    if b == 0 then .error (.divisionByZero op (.float a) (.float b)) else finite (a / b)
  | .eq => .ok (.ofBool (a == b))
  | .ne => .ok (.ofBool (!(a == b)))
  | .gt => .ok (.ofBool (decide (b < a)))
  | .lt => .ok (.ofBool (decide (a < b)))
  | .ge => .ok (.ofBool (decide (b ≤ a)))
  | .le => .ok (.ofBool (decide (a ≤ b)))
  | .and => .ok (.ofBool (!(a == 0) && !(b == 0)))
  | .or => .ok (.ofBool (!(a == 0) || !(b == 0)))
  | .mod | .shl | .shr | .bitAnd | .bitOr | .bitXor => .error (.notOnFloats op)

def foldBinary (op : BinaryOp) (lhs rhs : Constant) : Except FoldError Constant :=
  match lhs, rhs with
  | .int a, .int b => foldInts op a b
  | .float a, .float b => foldFloats op a b
  | _, _ => .error (.mixed op lhs rhs)

def foldUnary (op : UnaryOp) (value : Constant) : Except FoldError Constant :=
  match op, value with
  | .neg, .int v =>
    match narrow? (-v.toInt) with
    | some w => .ok (.int w)
    | none => .error (.negationOverflow v)
  | .neg, .float v => .ok (.float (-v))
  | .not, v => .ok (.ofBool (!v.isTrue))
  | .bitNot, .int v => .ok (.int (~~~v))
  | .bitNot, .float _ => .error .complementOfFloat

end AdventureScript
