import AdventureScript.Scan.Reading

/-!
Numeric literals. A literal is a float as soon as it has a point or an exponent mark.
-/
namespace AdventureScript.Scan

def digitRun (cs : List Char) : Nat :=
  (cs.takeWhile Char.isDigit).length

def fractionExtent : List Char → Nat
  | '.' :: cs => 1 + digitRun cs
  | _ => 0

def exponentExtent (cs : List Char) : Nat :=
  match cs with
  | [] => 0
  | c :: cs =>
    if c = 'e' || c = 'E' then
      match cs with
      | '-' :: ds | '+' :: ds => 2 + digitRun ds
      | ds => 1 + digitRun ds
    else 0

/-- How many characters of `cs` belong to a number that starts with `c`, and whether it is a float.
-/
def numberExtent (c : Char) (cs : List Char) : Nat × Bool :=
  let whole := digitRun cs
  let fraction := if c = '.' then 0 else fractionExtent (cs.drop whole)
  let exponent := exponentExtent (cs.drop (whole + fraction))
  (whole + fraction + exponent, c = '.' || 0 < fraction || 0 < exponent)

/-! ## Value -/

def digitsValue (ds : List Char) : Nat :=
  ds.foldl (fun v d => v * 10 + (d.toNat - '0'.toNat)) 0

structure Decimal where
  mantissa : Nat
  exponent : Int
  deriving DecidableEq, Repr

def exponentValue? (cs : List Char) : Option Int :=
  match cs with
  | '-' :: ds => if ds.isEmpty then none else some (-(digitsValue ds : Int))
  | '+' :: ds => if ds.isEmpty then none else some (digitsValue ds)
  | ds => if ds.isEmpty then none else some (digitsValue ds)

def Decimal.parse? (text : List Char) : Option Decimal :=
  let whole := text.takeWhile Char.isDigit
  let rest := text.dropWhile Char.isDigit
  let (fraction, rest) :=
    match rest with
    | '.' :: cs => (cs.takeWhile Char.isDigit, cs.dropWhile Char.isDigit)
    | cs => ([], cs)
  let mantissa := digitsValue (whole ++ fraction)
  match rest with
  | [] => some ⟨mantissa, -(fraction.length : Int)⟩
  | _ :: cs => (exponentValue? cs).map fun e => ⟨mantissa, e - fraction.length⟩

def Decimal.magnitude (d : Decimal) : Int :=
  d.exponent + (Nat.toDigits 10 d.mantissa).length

def greatestSingle : Float :=
  Float.ofScientific 34028234663852886 false 22

/-- The nearest single-precision number; none when, read in double precision, the decimal lies above
the greatest one. Far outside the range of either format the answer does not depend on the digits.
-/
def Decimal.toSingle? (d : Decimal) : Option Float32 :=
  if d.mantissa = 0 || d.magnitude < -400 then some (Float32.ofBits 0)
  else if 400 < d.magnitude then none
  else
    let negative := decide (d.exponent < 0)
    let places := d.exponent.natAbs
    if greatestSingle < Float.ofScientific d.mantissa negative places then none
    else some (Float32.ofScientific d.mantissa negative places)

/-- The greatest integer literal. It fits an `int` only when it is negated. -/
def greatestInt : Nat := 2147483648

def numberKind (text : List Char) (isFloat : Bool) : Except Fault Token.Kind :=
  if isFloat then
    match Decimal.parse? text with
    | none => .error (.malformedNumber (String.ofList text))
    | some d =>
      match d.toSingle? with
      | none => .error (.numberOutOfRange (String.ofList text))
      | some x => .ok (.float x)
  else
    let value := digitsValue text
    if value ≤ greatestInt then .ok (.int value)
    else .error (.numberOutOfRange (String.ofList text))

def number (c : Char) (cs : List Char) : Reading Token.Kind :=
  let (n, isFloat) := numberExtent c cs
  ⟨numberKind (c :: cs.take n) isFloat, n⟩

end AdventureScript.Scan
