/-!
# Floating-point numbers and their decimals

Numbers of the binary format of 64 bits, and how they are written and read in decimal. All
arithmetic is exact, on whole numbers.
-/

set_option autoImplicit false

/-!
## Binary floating-point numbers

Numbers of the binary format with a 53-bit significand and an 11-bit exponent, as a type of their
own: a sign, a whole significand and a power of two. `Double.ofDecimal` gives the number nearest to
a decimal, by exact arithmetic on whole numbers.
-/

namespace YamlWeave

inductive Double where
  | nan
  | infinite (negative : Bool)
  /-- The number `significand * 2 ^ exponent`. Either the significand has 53 bits, or it has fewer
  and the exponent is the least one, -1074. -/
  | finite (negative : Bool) (significand : Nat) (exponent : Int)
deriving DecidableEq

namespace Double

def leastExponent : Int := -1074

def greatestExponent : Int := 971

/-- The number at which a significand needs a 53rd bit. -/
def fullSignificand : Nat := Nat.pow 2 52

/-- Whether two numbers are the same. Zeros of either sign are the same, and so is NaN to itself. -/
def same : Double → Double → Bool
  | .nan, .nan => true
  | .infinite s, .infinite t => s == t
  | .finite s m e, .finite t n f => m == n && e == f && (s == t || m == 0)
  | _, _ => false

/-- A quotient of whole numbers, rounded to the nearest one; a half goes to the even neighbour. -/
def roundDiv (num den : Nat) : Nat :=
  let q := num / den
  let r := num % den
  if 2 * r > den || (2 * r == den && q % 2 == 1) then q + 1 else q

/-- The two sides of a fraction after it is divided by `2 ^ e`. -/
def scaleDown (num den : Nat) (e : Int) : Nat × Nat :=
  if e < 0 then (num * Nat.pow 2 (-e).toNat, den) else (num, den * Nat.pow 2 e.toNat)

/-- The number with a significand that may have grown to 54 bits by rounding. Past the greatest
exponent it is infinite. -/
def normalized (negative : Bool) (m : Nat) (e : Int) : Double :=
  let (m, e) := if m == 2 * fullSignificand then (fullSignificand, e + 1) else (m, e)
  if e > greatestExponent then .infinite negative else .finite negative m e

/-- The number nearest to a positive fraction. Half-way cases go to the even significand. -/
def ofFraction (negative : Bool) (num den : Nat) : Double :=
  let e := max ((num.log2 : Int) - den.log2 - 52) leastExponent
  let (n, d) := scaleDown num den e
  if n / d < fullSignificand && e > leastExponent then
    let (n, d) := scaleDown num den (e - 1)
    normalized negative (roundDiv n d) (e - 1)
  else normalized negative (roundDiv n d) e

/-- The number nearest to `digits * 10 ^ exponent`. Decimals so large or so small that they round to
infinity or to zero are not computed in full. -/
def ofDecimal (negative : Bool) (digits : Nat) (exponent : Int) : Double :=
  let magnitude := exponent + (digits.log2 * 30103 / 100000 : Nat)
  if digits == 0 || magnitude < -400 then .finite negative 0 leastExponent
  else if magnitude > 400 then .infinite negative
  else if exponent < 0 then ofFraction negative digits (Nat.pow 10 (-exponent).toNat)
  else ofFraction negative (digits * Nat.pow 10 exponent.toNat) 1

end Double

end YamlWeave

/-!
## The shortest decimal of a number

Among the decimals that read back as a given number, the one with the fewest digits, and of those
the nearest. For each count of digits only the two decimals next to the number can be meant, so both
are tried for one digit, two digits and so on. Seventeen digits always suffice.

All arithmetic is on whole numbers. A number `m * 2 ^ e` and the ends of the interval that reads
back as it are written as fractions with the denominator four, because the interval ends half a step
above and a half or a quarter of a step below.
-/

namespace YamlWeave.Decimal

/-- Digits and a power of ten: the number 0.d₁d₂… * 10 ^ `point`, where the digits are those of
`digits`. -/
structure Scientific where
  digits : Nat
  /-- How many digits there are. -/
  count : Nat
  point : Int
deriving DecidableEq

/-- Which of two equally near decimals of the same length is chosen. -/
inductive Tie where
  /-- The one whose last digit is even. -/
  | even
  /-- The greater one. -/
  | up
deriving DecidableEq

/-- The interval of reals that round to one number, as multiples of a quarter. -/
structure Interval where
  low : Nat
  value : Nat
  high : Nat
  /-- Whether the ends belong to it. -/
  closed : Bool

/-- The interval of `m * 2 ^ e` in units of `2 ^ (e - 2)`. -/
def interval (m : Nat) (e : Int) : Interval :=
  let low :=
    if m == Double.fullSignificand && e > Double.leastExponent then 4 * m - 1 else 4 * m - 2
  ⟨low, 4 * m, 4 * m + 2, m % 2 == 0⟩

/-- Whether `a / b` lies in an interval whose unit is `num / den`. -/
def Interval.contains (i : Interval) (num den a b : Nat) : Bool :=
  let x := a * den
  let low := i.low * num * b
  let high := i.high * num * b
  if i.closed then low ≤ x && x ≤ high else low < x && x < high

/-- The power of ten just above a positive fraction: the least of four neighbouring ones, the first
of which is at most one below it. -/
def decimalPoint (num den : Nat) : Int :=
  let guess : Int := ((num.log2 : Int) - den.log2 - 1) * 30103 / 100000
  let isBelow (k : Int) : Bool :=
    if k < 0 then num * Nat.pow 10 (-k).toNat < den else num < den * Nat.pow 10 k.toNat
  if isBelow guess then guess
  else if isBelow (guess + 1) then guess + 1
  else if isBelow (guess + 2) then guess + 2
  else guess + 3

/-- The nearest decimal of `n` digits that lies in the interval, if one does. `point` is the power
of ten just above the number, and the unit of the interval is `num / den`. -/
def nearest? (tie : Tie) (i : Interval) (num den : Nat) (point : Int) (n : Nat) : Option Nat :=
  let step := point - n
  let up := if step < 0 then Nat.pow 10 (-step).toNat else 1
  let down := if step < 0 then 1 else Nat.pow 10 step.toNat
  let top := i.value * num * up
  let bottom := den * down
  let q := top / bottom
  let r := top % bottom
  let lower := i.contains num den (q * down) up
  let upper := i.contains num den ((q + 1) * down) up
  match lower, upper with
  | false, false => none
  | true, false => some q
  | false, true => some (q + 1)
  | true, true =>
    if 2 * r < bottom then some q
    else if 2 * r > bottom then some (q + 1)
    else match tie with
      | .even => some (if q % 2 == 0 then q else q + 1)
      | .up => some (q + 1)

/-- Digits without the zeros at their end, of which there are at most `bound`. -/
def withoutZeros (bound digits count : Nat) : Nat × Nat :=
  match bound with
  | 0 => (digits, count)
  | bound + 1 =>
    if digits % 10 == 0 && count > 1 then withoutZeros bound (digits / 10) (count - 1)
    else (digits, count)

/-- The shortest decimal of `m * 2 ^ e`, where `m` is positive. -/
def shortest (tie : Tie) (m : Nat) (e : Int) : Scientific :=
  let i := interval m e
  let unit := e - 2
  let num := if unit < 0 then 1 else Nat.pow 2 unit.toNat
  let den := if unit < 0 then Nat.pow 2 (-unit).toNat else 1
  let point := decimalPoint (i.value * num) den
  let withCount? (n : Nat) : Option Scientific :=
    (nearest? tie i num den point n).map fun d =>
      if d == Nat.pow 10 n then ⟨1, 1, point + 1⟩
      else
        let (digits, count) := withoutZeros n d n
        ⟨digits, count, point⟩
  ((List.range' 1 17).findSome? withCount?).getD ⟨0, 1, point⟩

/-!
## Writing floating-point numbers

How the digits of `Decimal.shortest` are set out: with a decimal point among zeros, or with an
exponent. What differs from format to format is gathered in a `Layout`.
-/

/-- The decisions of a format for floating-point numbers. -/
structure Layout where
  tie : Tie
  /-- The powers of ten between which a number is written without an exponent: above the first one
  and up to the second. Without them none has an exponent. -/
  positional : Option (Int × Int)
  nan : String
  infinity : String
  negativeInfinity : String
deriving DecidableEq

namespace Layout

/-- A decimal written out, with at least one digit on both sides of the point. -/
def writeOut (s : Scientific) : List Char :=
  let ds := Nat.toDigits 10 s.digits
  if s.point ≤ 0 then '0' :: '.' :: (List.replicate (-s.point).toNat '0' ++ ds)
  else
    let whole := s.point.toNat
    if ds.length ≤ whole then ds ++ List.replicate (whole - ds.length) '0' ++ ['.', '0']
    else ds.take whole ++ '.' :: ds.drop whole

/-- A decimal with an exponent. A single digit has no point after it. -/
def writeWithExponent (s : Scientific) : List Char :=
  let exponent := 'e' :: (toString (s.point - 1)).toList
  match Nat.toDigits 10 s.digits with
  | [] => exponent
  | [d] => d :: exponent
  | d :: ds => d :: '.' :: (ds ++ exponent)

def write (layout : Layout) : Double → String
  | .nan => layout.nan
  | .infinite negative => if negative then layout.negativeInfinity else layout.infinity
  | .finite negative m e =>
    let text :=
      if m == 0 then ['0', '.', '0']
      else
        let s := shortest layout.tie m e
        let positional :=
          layout.positional.all fun (above, upTo) => above < s.point && s.point ≤ upTo
        if positional then writeOut s else writeWithExponent s
    String.ofList (if negative then '-' :: text else text)

end Layout

end YamlWeave.Decimal
