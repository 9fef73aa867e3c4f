/-!
Decimal texts of single-precision numbers: the fewest digits that read back to the same number, of
those the nearest to it, laid out positionally for exponents from -4 to 15 and with an exponent mark
otherwise.
-/
namespace AdventureScript.Text

/-! ## Digits -/

structure Binary where
  mantissa : Nat
  exponent : Int
  deriving DecidableEq, Repr

def hiddenBit : Nat := 0x800000

def Binary.ofBits (bits : UInt32) : Binary :=
  let fraction : Nat := bits.toNat % hiddenBit
  let biased : Nat := bits.toNat / hiddenBit % 256
  if biased = 0 then ⟨fraction, -149⟩ else ⟨fraction + hiddenBit, (biased : Int) - 150⟩

/-- The numbers strictly between `low / unit` and `high / unit` read back as `value / unit`; the
ends themselves do so when `closed`. All four are natural numbers on one common scale. -/
structure Interval where
  unit : Nat
  value : Nat
  low : Nat
  high : Nat
  closed : Bool

/-- What rounds to the nearest single at `x`: half way to each neighbour, and half ways go to the
even mantissa. Below a power of two the neighbours lie twice as dense. -/
def Binary.interval (x : Binary) : Interval :=
  -- Four steps to a unit in the last place, so that every half way is a whole number of steps.
  let up := 1 <<< x.exponent.toNat
  let unit := 4 <<< (-x.exponent).toNat
  let dense := x.mantissa = hiddenBit ∧ -149 < x.exponent
  { unit
    value := 4 * x.mantissa * up
    low := (4 * x.mantissa - (if dense then 1 else 2)) * up
    high := (4 * x.mantissa + 2) * up
    closed := x.mantissa % 2 = 0 }

def Interval.contains (i : Interval) (m d : Nat) : Bool :=
  if i.closed then i.low * d ≤ m * i.unit && m * i.unit ≤ i.high * d
  else i.low * d < m * i.unit && m * i.unit < i.high * d

structure Digits where
  digits : Nat
  exponent : Int
  deriving DecidableEq, Repr

/-- The point of the grid of multiples of `10 ^ exponent` that lies in the interval, if there is
one: of the two neighbours of the value the nearer, and the upper one of two that are equally near.
-/
def Interval.onGrid (i : Interval) (exponent : Int) : Option Digits :=
  let scale := Nat.pow 10 exponent.toNat
  let d := Nat.pow 10 (-exponent).toNat
  let below := i.value * d / (i.unit * scale)
  let above := below + 1
  let hitBelow := 0 < below && i.contains (below * scale) d
  let hitAbove := i.contains (above * scale) d
  -- `value - below ≥ above - value`, on the common scale
  let upper := i.value * d - below * scale * i.unit ≥ above * scale * i.unit - i.value * d
  if hitAbove && (!hitBelow || upper) then some ⟨above, exponent⟩
  else if hitBelow then some ⟨below, exponent⟩
  else none

def Interval.firstHit (i : Interval) : Nat → Int → Digits
  | 0, exponent => ⟨i.value / i.unit, exponent⟩
  | fuel + 1, exponent => (i.onGrid exponent).getD (i.firstHit fuel (exponent - 1))

/-- The shortest digits of a positive number. Singles lie below `10 ^ 39` and above `10 ^ -46`, and
nine digits always suffice. -/
def Binary.shortest (x : Binary) : Digits :=
  x.interval.firstHit 100 39

def Digits.scientific (d : Digits) : List Char × Int :=
  let all := Nat.toDigits 10 d.digits
  let kept := (all.reverse.dropWhile (· = '0')).reverse
  (kept, d.exponent + all.length - 1)

def positional (digits : List Char) (exponent : Int) : List Char :=
  if exponent < 0 then
    "0.".toList ++ List.replicate (-exponent - 1).toNat '0' ++ digits
  else
    let whole := exponent.toNat + 1
    let fraction := digits.drop whole
    digits.take whole ++ List.replicate (whole - digits.length) '0' ++
      '.' :: (if fraction.isEmpty then ['0'] else fraction)

def withExponent (digits : List Char) (exponent : Int) : List Char :=
  let tail := 'e' :: (toString exponent).toList
  match digits with
  | [] => tail
  | [d] => d :: tail
  | d :: ds => d :: '.' :: ds ++ tail

def single (x : Float32) : String :=
  let bits := x.toBits
  let sign := if bits < 0x80000000 then "" else "-"
  if bits &&& 0x7F800000 = 0x7F800000 then
    if bits &&& 0x7FFFFF = 0 then sign ++ "inf" else "NaN"
  else if bits &&& 0x7FFFFFFF = 0 then sign ++ "0.0"
  else
    let (digits, exponent) := (Binary.ofBits bits).shortest.scientific
    sign ++ String.ofList
      (if exponent < -4 ∨ 16 ≤ exponent then withExponent digits exponent
       else positional digits exponent)

end AdventureScript.Text
