import Imprint.Number.Binary64

set_option autoImplicit false

/-!
# Division with remainder and powers

The remainder of a division has the sign of the divisor, and the quotient is rounded down, for
floating point numbers as for integers.
-/

namespace Imprint.Number

/-- The exact remainder of a finite division, with the sign of the dividend. -/
def truncatedRemainder (left right : Float) : Float :=
  match view left, view right with
  | .finite negative mantissa exponent, .finite _ mantissa' exponent' =>
      let (numerator, denominator) := ratio mantissa exponent
      let (numerator', denominator') := ratio mantissa' exponent'
      let unit := denominator * denominator'
      let dividend := numerator * denominator'
      let divisor := numerator' * denominator
      if divisor = 0 then notANumber else ofRatio negative (dividend % divisor) unit
  | .finite .., .infinite _ => left
  | _, _ => notANumber

/-- A zero with the sign of a number. -/
def zeroLike (value : Float) : Float :=
  ofFields (value < 0 || 1 / value < 0) 0 0

/-- Quotient rounded down, and remainder, of a division by a number that is not zero. -/
def floorDivide (left right : Float) : Float × Float :=
  let remainder := truncatedRemainder left right
  let quotient := (left - remainder) / right
  let (remainder, quotient) :=
    if remainder == 0 then (zeroLike right, quotient)
    else if (right < 0) != (remainder < 0) then (remainder + right, quotient - 1)
    else (remainder, quotient)
  let quotient :=
    if quotient == 0 then zeroLike (left / right)
    else
      let whole := quotient.floor
      if quotient - whole > 0.5 then whole + 1 else whole
  (quotient, remainder)

/-- The quotient of two integers as the nearest floating point number, if it is not too large.  It is
negative zero if zero is divided by a negative integer. -/
def divideInts? (left right : Int) : Option Float :=
  let result := ofRatio ((left < 0) != (right < 0)) left.natAbs right.natAbs
  match view result with
  | .finite .. => some result
  | _ => none

/-- Whether a number is not an infinity and not undefined. -/
def isFinite (value : Float) : Bool :=
  match view value with
  | .finite .. => true
  | _ => false

end Imprint.Number
