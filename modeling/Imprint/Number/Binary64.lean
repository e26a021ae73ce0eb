set_option autoImplicit false

/-!
# Floating point numbers as exact quantities

A finite number is a sign and a natural number times a power of two.  `view` takes a number apart,
`ofRatio` rounds a ratio of natural numbers to the nearest floating point number, ties to the even
neighbour.  All conversions of the library between floating point numbers, integers and decimal
texts go through these two, so they are exact up to that one rounding.
-/

namespace Imprint.Number

-- Powers of numbers are those of the core library, whatever else is imported.
attribute [local instance (high)] instPowNat

/-- A floating point number taken apart.  The value of `finite negative mantissa exponent` is
`mantissa * 2 ^ exponent`, with a minus sign if `negative`. -/
inductive View where
  | nan
  | infinite (negative : Bool)
  | finite (negative : Bool) (mantissa : Nat) (exponent : Int)
deriving DecidableEq, Repr, Inhabited

/-- Takes a floating point number apart. -/
def view (value : Float) : View :=
  let bits := value.toBits.toNat
  let negative := bits / 2 ^ (63 : Nat) = 1
  let biased := bits / 2 ^ (52 : Nat) % 2 ^ (11 : Nat)
  let fraction := bits % 2 ^ (52 : Nat)
  if biased = 2047 then
    if fraction = 0 then .infinite negative else .nan
  else if biased = 0 then .finite negative fraction (-1074)
  else .finite negative (fraction + 2 ^ (52 : Nat)) (Int.ofNat biased - 1075)

/-- Number of binary digits. -/
def bitLength (value : Nat) : Nat :=
  if value = 0 then 0 else Nat.log2 value + 1

/-- The quotient rounded to the nearest natural number, a half to the even neighbour. -/
def roundDiv (numerator denominator : Nat) : Nat :=
  let quotient := numerator / denominator
  let twice := 2 * (numerator % denominator)
  if twice < denominator then quotient
  else if denominator < twice then quotient + 1
  else if quotient % 2 = 0 then quotient else quotient + 1

/-- The floating point number with the given bits of sign, exponent and fraction. -/
def ofFields (negative : Bool) (biased fraction : Nat) : Float :=
  let sign := if negative then 2 ^ (63 : Nat) else 0
  Float.ofBits (UInt64.ofNat (sign + biased * 2 ^ (52 : Nat) + fraction))

/-- The nearest floating point number to a ratio with a positive denominator. -/
def ofRatio (negative : Bool) (numerator denominator : Nat) : Float :=
  if numerator = 0 then ofFields negative 0 0
  else
    -- the exponent that leaves 53 binary digits, at least the one of the smallest numbers
    let estimate : Int := Int.ofNat (bitLength numerator) - Int.ofNat (bitLength denominator) - 53
    let scaled (exponent : Int) : Nat × Nat :=
      if exponent < 0 then (numerator * 2 ^ exponent.natAbs, denominator)
      else (numerator, denominator * 2 ^ exponent.toNat)
    let first := scaled estimate
    let exponent := if 2 ^ (53 : Nat) * first.2 ≤ first.1 then estimate + 1 else estimate
    let exponent := max exponent (-1074)
    let parts := scaled exponent
    let mantissa := roundDiv parts.1 parts.2
    let (mantissa, exponent) :=
      if mantissa = 2 ^ (53 : Nat) then (2 ^ (52 : Nat), exponent + 1) else (mantissa, exponent)
    if mantissa < 2 ^ (52 : Nat) then ofFields negative 0 mantissa
    else
      let biased := exponent + 1075
      if 2047 ≤ biased then ofFields negative 2047 0
      else ofFields negative biased.toNat (mantissa - 2 ^ (52 : Nat))

/-- Positive infinity. -/
def infinity : Float := ofFields false 2047 0

/-- The number that is not one. -/
def notANumber : Float := ofFields false 2047 (2 ^ (51 : Nat))

/-- The nearest floating point number to an integer, if it is not too large. -/
def ofInt? (value : Int) : Option Float :=
  let result := ofRatio (value < 0) value.natAbs 1
  match view result with
  | .finite .. => some result
  | _ => none

/-- Numerator and denominator of a finite number's absolute value. -/
def ratio (mantissa : Nat) (exponent : Int) : Nat × Nat :=
  if exponent < 0 then (mantissa, 2 ^ exponent.natAbs) else (mantissa * 2 ^ exponent.toNat, 1)

/-- The integer part of a finite number. -/
def truncate? (value : Float) : Option Int :=
  match view value with
  | .finite negative mantissa exponent =>
      let (numerator, denominator) := ratio mantissa exponent
      let size := Int.ofNat (numerator / denominator)
      some (if negative then -size else size)
  | _ => none

/-- The largest integer at or below a finite number. -/
def floor? (value : Float) : Option Int :=
  match view value with
  | .finite negative mantissa exponent =>
      let (numerator, denominator) := ratio mantissa exponent
      let signed := if negative then -Int.ofNat numerator else Int.ofNat numerator
      some (Int.fdiv signed (Int.ofNat denominator))
  | _ => none

/-- The smallest integer at or above a finite number. -/
def ceil? (value : Float) : Option Int :=
  (floor? (-value)).map fun below => -below

/-- Whether a number is a whole one. -/
def isWhole (value : Float) : Bool :=
  match view value with
  | .finite _ mantissa exponent =>
      let (numerator, denominator) := ratio mantissa exponent
      numerator % denominator == 0
  | _ => false

/-- A number and its sign exactly compared with an integer; nothing compares with the number that is
not one. -/
def compareInt? (value : Float) (other : Int) : Option Ordering :=
  match view value with
  | .nan => none
  | .infinite negative => some (if negative then .lt else .gt)
  | .finite negative mantissa exponent =>
      let (numerator, denominator) := ratio mantissa exponent
      let signed := if negative then -Int.ofNat numerator else Int.ofNat numerator
      some (compare signed (other * Int.ofNat denominator))

/-- Rounds a finite number to a count of decimal places, a half to the even neighbour; a negative
count rounds to tens, hundreds and so on. -/
def roundPlaces (value : Float) (places : Int) : Float :=
  match view value with
  | .finite negative mantissa exponent =>
      -- with this many places every number is already exact, with this few it is lost
      if places > 400 then value
      else if places < -400 then ofRatio negative 0 1
      else
        let (numerator, denominator) := ratio mantissa exponent
        if places < 0 then
          let unit := 10 ^ places.natAbs
          ofRatio negative (roundDiv numerator (denominator * unit) * unit) 1
        else
          let unit := 10 ^ places.toNat
          ofRatio negative (roundDiv (numerator * unit) denominator) unit
  | _ => value

end Imprint.Number
