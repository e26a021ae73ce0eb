import Imprint.Number.Binary64

set_option autoImplicit false

/-!
# Shortest decimal digits

A floating point number stands for all reals that round to it.  Its shortest digits are the fewest
decimal digits of a number among those reals, and of the candidates with that many digits the one
nearest to the number itself.  For each count of digits only the two neighbours of the number on the
decimal grid have to be tried: if any point of the grid lies in the interval, one of these does.
-/

namespace Imprint.Number

-- Powers of numbers are those of the core library, whatever else is imported.
attribute [local instance (high)] instPowNat

/-- Decimal digits and the position of the point: the value is `0.d₁d₂…dₙ * 10 ^ point`. -/
structure Decimal where
  digits : List Char
  point : Int
deriving DecidableEq, Repr, Inhabited

/-- The decimal digits of a natural number. -/
def digitsOf (value : Nat) : List Char :=
  Nat.toDigits 10 value

/-- The number of steps by ten that bring a ratio below one up to at least one. -/
def leadingZeros : Nat → Nat → Nat → Nat
  | 0, _, _ => 0
  | fuel + 1, numerator, denominator =>
      if denominator ≤ numerator then 0 else leadingZeros fuel (10 * numerator) denominator + 1

/-- The place of the decimal point in front of the first digit of a positive ratio. -/
def pointOf (numerator denominator : Nat) : Int :=
  if denominator ≤ numerator then Int.ofNat (digitsOf (numerator / denominator)).length
  else 1 - Int.ofNat (leadingZeros 400 numerator denominator)

/-- The candidate of a count of digits if one of the two grid neighbours lies in the interval, as a
whole number of grid units.  Bounds and value are given over one denominator. -/
def gridCandidate? (low value high denominator : Nat) (closed : Bool) (unit : Nat × Nat) :
    Option Nat :=
  -- a grid point `n` stands for `n * unit.1 / unit.2`
  let scale := denominator * unit.1
  let below := value * unit.2 / scale
  let inside (candidate : Nat) : Bool :=
    let position := candidate * scale
    if closed then low * unit.2 ≤ position && position ≤ high * unit.2
    else low * unit.2 < position && position < high * unit.2
  let distanceBelow := value * unit.2 - below * scale
  let distanceAbove := (below + 1) * scale - value * unit.2
  match inside below, inside (below + 1) with
  | true, true =>
      if distanceBelow < distanceAbove then some below
      else if distanceAbove < distanceBelow then some (below + 1)
      else some (if below % 2 = 0 then below else below + 1)
  | true, false => some below
  | false, true => some (below + 1)
  | false, false => none

/-- Drops the zeros at the end of a list of digits. -/
def dropTrailingZeros (digits : List Char) : List Char :=
  (digits.reverse.dropWhile (· = '0')).reverse

/-- Tries counts of digits from `count` on. -/
def shortestFrom (low value high denominator : Nat) (closed : Bool) (point : Int) :
    Nat → Nat → Decimal
  | 0, _ => ⟨digitsOf (value / denominator), point⟩
  | fuel + 1, count =>
      let exponent := point - Int.ofNat count
      let unit := if exponent < 0 then (1, 10 ^ exponent.natAbs) else (10 ^ exponent.toNat, 1)
      match gridCandidate? low value high denominator closed unit with
      | some candidate =>
          let digits := digitsOf candidate
          -- rounding up to the next power of ten gives one digit more
          let moved := Int.ofNat digits.length - Int.ofNat count
          ⟨dropTrailingZeros digits, point + moved⟩
      | none => shortestFrom low value high denominator closed point fuel (count + 1)

/-- Shortest digits of `mantissa * 2 ^ exponent`, which is positive. -/
def shortest (mantissa : Nat) (exponent : Int) : Decimal :=
  -- the next number below is only half as far away at a power of two
  let narrow := mantissa = 2 ^ (52 : Nat) && exponent > -1074
  let value := 4 * mantissa
  let low := if narrow then value - 1 else value - 2
  let high := value + 2
  let scaled := exponent - 2
  let factor := if scaled < 0 then 1 else 2 ^ scaled.toNat
  let denominator := if scaled < 0 then 2 ^ scaled.natAbs else 1
  let point := pointOf (value * factor) denominator
  shortestFrom (low * factor) (value * factor) (high * factor) denominator (mantissa % 2 = 0)
    point 17 1

/-- Digits with a sign and at least two digits, as exponents are written. -/
def exponentText (value : Int) : List Char :=
  let digits := digitsOf value.natAbs
  (if value < 0 then '-' else '+') :: (if digits.length < 2 then '0' :: digits else digits)

/-- Which decimals are written with an exponent, and whether a whole number keeps a zero behind the
point. -/
structure DecimalStyle where
  smallestPoint : Int
  largestPoint : Int
  keepPoint : Bool

/-- Numbers as values are shown: positional from one ten-thousandth to below ten to the sixteenth,
always with a point or an exponent. -/
def plainStyle : DecimalStyle := ⟨-3, 16, true⟩

/-- Writes a decimal. -/
def Decimal.write (decimal : Decimal) (style : DecimalStyle) : List Char :=
  let digits := decimal.digits
  let point := decimal.point
  if point < style.smallestPoint || style.largestPoint < point then
    let fraction := match digits.drop 1 with
      | [] => []
      | rest => '.' :: rest
    digits.take 1 ++ fraction ++ 'e' :: exponentText (point - 1)
  else if point ≤ 0 then '0' :: '.' :: List.replicate point.natAbs '0' ++ digits
  else
    let size := point.toNat
    if digits.length ≤ size then
      digits ++ List.replicate (size - digits.length) '0' ++ (if style.keepPoint then ['.', '0'] else [])
    else digits.take size ++ '.' :: digits.drop size

/-- The text of a floating point number. -/
def floatText (value : Float) : List Char :=
  match view value with
  | .nan => ['n', 'a', 'n']
  | .infinite negative => if negative then ['-', 'i', 'n', 'f'] else ['i', 'n', 'f']
  | .finite negative mantissa exponent =>
      let size :=
        if mantissa = 0 then ['0', '.', '0'] else (shortest mantissa exponent).write plainStyle
      if negative then '-' :: size else size

end Imprint.Number
