import Imprint.Number.Shortest

set_option autoImplicit false

/-!
# Numbers with a chosen count of digits

A finite number can be written with a fixed count of decimal places, with an exponent and a fixed
count of significant digits, or in whichever of the two ways suits its size.  Rounding is exact, a
half going to the even neighbour.  The result keeps the whole digits apart from what follows them, so
that they can be grouped.
-/

namespace Imprint.Number

-- Powers of numbers are those of the core library, whatever else is imported.
attribute [local instance (high)] instPowNat

/-- The written size of a number: the digits in front of the point, and everything behind. -/
structure Written where
  whole : List Char
  rest : List Char
deriving DecidableEq, Repr, Inhabited

/-- The three ways of writing. -/
inductive Layout where
  | fixed
  | exponent
  | general
deriving DecidableEq, Repr, Inhabited

/-- Puts zeros in front of digits. -/
def zeroFill (width : Nat) (digits : List Char) : List Char :=
  List.replicate (width - digits.length) '0' ++ digits

/-- Separates the last `places` digits of a number by a point. -/
def withPoint (digits : List Char) (places : Nat) (keepPoint : Bool) : Written :=
  let digits := zeroFill (places + 1) digits
  let size := digits.length - places
  let fraction := digits.drop size
  ⟨digits.take size, if fraction.isEmpty && !keepPoint then [] else '.' :: fraction⟩

/-- A size with a count of decimal places. -/
def writeFixed (mantissa : Nat) (exponent : Int) (places : Nat) (keepPoint : Bool) : Written :=
  let (numerator, denominator) := ratio mantissa exponent
  withPoint (digitsOf (roundDiv (numerator * 10 ^ places) denominator)) places keepPoint

/-- The first `count` digits of a positive size, rounded, and the place of the point in front of the
first one. -/
def leadingDigits (mantissa : Nat) (exponent : Int) (count : Nat) : List Char × Int :=
  if mantissa = 0 then (List.replicate count '0', 1)
  else
    let (numerator, denominator) := ratio mantissa exponent
    let point := pointOf numerator denominator
    let shift := Int.ofNat count - point
    let digits :=
      if shift < 0 then digitsOf (roundDiv numerator (denominator * 10 ^ shift.natAbs))
      else digitsOf (roundDiv (numerator * 10 ^ shift.toNat) denominator)
    if digits.length > count then (digits.take count, point + 1) else (digits, point)

/-- Digits with a point behind the first one and an exponent. -/
def withExponent (digits : List Char) (point : Int) (keepPoint : Bool) : Written :=
  let fraction := digits.drop 1
  let middle := if fraction.isEmpty && !keepPoint then [] else '.' :: fraction
  ⟨digits.take 1, middle ++ 'e' :: exponentText (point - 1)⟩

/-- A size with a count of significant digits, with or without an exponent.  `pointed` asks for a
digit behind the point where there is no exponent. -/
def writeGeneral (mantissa : Nat) (exponent : Int) (count : Nat) (alternate pointed : Bool) :
    Written :=
  let count := max count 1
  let (digits, point) := leadingDigits mantissa exponent count
  let kept := if alternate then digits else dropTrailingZeros digits
  let kept := if kept.isEmpty then ['0'] else kept
  let limit := Int.ofNat count - (if pointed then 1 else 0)
  if point ≤ -4 || limit < point then withExponent kept point alternate
  else if point ≤ 0 then
    ⟨['0'], '.' :: List.replicate point.natAbs '0' ++ kept⟩
  else
    let size := point.toNat
    let whole := kept.take size ++ List.replicate (size - kept.length) '0'
    let fraction := kept.drop size
    ⟨whole,
      if !fraction.isEmpty then '.' :: fraction
      else if pointed then ['.', '0']
      else if alternate then ['.'] else []⟩

/-- A size in one of the layouts. -/
def write (layout : Layout) (mantissa : Nat) (exponent : Int) (count : Nat) (alternate : Bool) :
    Written :=
  match layout with
  | .fixed => writeFixed mantissa exponent count alternate
  | .exponent =>
      let (digits, point) := leadingDigits mantissa exponent (count + 1)
      withExponent digits point alternate
  | .general => writeGeneral mantissa exponent count alternate false

/-- The shortest digits, as they are written without a layout. -/
def writeShortest (mantissa : Nat) (exponent : Int) (alternate : Bool) : Written :=
  let letters :=
    if mantissa = 0 then ['0', '.', '0'] else (shortest mantissa exponent).write plainStyle
  let whole := letters.takeWhile Char.isDigit
  let rest := letters.drop whole.length
  ⟨whole, if alternate && rest.head? != some '.' then '.' :: rest else rest⟩

/-- Whole digits in groups of a size, filled up with zeros to a width. -/
def grouped (separator : Char) (size : Nat) (digits : List Char) (width : Nat) : List Char :=
  (go digits.reverse width (digits.length + width + 1)).reverse
where
  /-- Works on the reversed digits; the last argument bounds the number of groups. -/
  go (rest : List Char) (width : Nat) : Nat → List Char
    | 0 => rest
    | fuel + 1 =>
        let count := min size (max (max rest.length width) 1)
        let taken := rest.take count
        let group := taken ++ List.replicate (count - taken.length) '0'
        let rest := rest.drop count
        let width := width - count
        if rest.isEmpty && width = 0 then group
        else group ++ separator :: go rest (width - 1) fuel

/-- Digits of a natural number in a base up to sixteen. -/
def digitsIn (base value : Nat) : List Char :=
  Nat.toDigits base value

end Imprint.Number
