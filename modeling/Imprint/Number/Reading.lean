import Imprint.Number.Binary64
import Imprint.Text.Search

set_option autoImplicit false

/-!
# Reading numbers from texts

Integers and floating point numbers as people type them: blanks around them, a sign, digits of any
script, single underscores between digits.  Integers may have a base from two to thirty-six, with
the customary two-character marks; floating point numbers may be one of the special values.
-/

namespace Imprint.Number

-- Powers of numbers are those of the core library, whatever else is imported.
attribute [local instance (high)] instPowNat

/-- The value of a digit in bases up to thirty-six. -/
def digitValue? (letter : Char) : Option Nat :=
  if 'a' ≤ letter && letter ≤ 'z' then some (letter.toNat - 'a'.toNat + 10)
  else if 'A' ≤ letter && letter ≤ 'Z' then some (letter.toNat - 'A'.toNat + 10)
  else Text.decimalValue? letter

/-- Reads digits with single underscores between them, all of the list.  The flag tells whether the
character in front was a digit. -/
def readDigits? (base : Nat) : Nat → Bool → List Char → Option Nat
  | value, afterDigit, [] => if afterDigit then some value else none
  | value, afterDigit, '_' :: rest => if afterDigit then readDigits? base value false rest else none
  | value, _, letter :: rest =>
      match digitValue? letter with
      | some digit => if digit < base then readDigits? base (base * value + digit) true rest else none
      | none => none

/-- Splits off a sign. -/
def splitSign : List Char → Bool × List Char
  | '-' :: rest => (true, rest)
  | '+' :: rest => (false, rest)
  | text => (false, text)

/-- Splits off the mark of a base; an underscore may follow the mark. -/
def splitBaseMark (letters : List Char) : Option (Nat × List Char) :=
  let digits (rest : List Char) : List Char :=
    match rest with
    | '_' :: more => more
    | more => more
  match letters with
  | '0' :: mark :: rest =>
      if mark = 'x' || mark = 'X' then some (16, digits rest)
      else if mark = 'o' || mark = 'O' then some (8, digits rest)
      else if mark = 'b' || mark = 'B' then some (2, digits rest)
      else none
  | _ => none

/-- Reads an integer in a base.  Base zero takes the base from the mark, or ten if there is none; a
number without a mark has no zeros at its start then. -/
def readInt? (base : Nat) (text : List Char) : Option Int :=
  let (negative, letters) := splitSign (Text.trim text)
  let signed (value : Nat) : Int := if negative then -Int.ofNat value else Int.ofNat value
  match splitBaseMark letters with
  | some (marked, digits) =>
      if base = 0 || base = marked then (readDigits? marked 0 false digits).map signed
      else (readDigits? base 0 false letters).map signed
  | none =>
      if base = 0 then
        match readDigits? 10 0 false letters with
        | some value =>
            if letters.head? = some '0' && value != 0 then none else some (signed value)
        | none => none
      else (readDigits? base 0 false letters).map signed

/-- The longest start of decimal digits and underscores. -/
def spanDigits (letters : List Char) : List Char × List Char :=
  letters.span fun letter => letter = '_' || (Text.decimalValue? letter).isSome

/-- Reads digits that may be missing; the second component is their number. -/
def readOptionalDigits? (letters : List Char) : Option (Nat × Nat) :=
  if letters.isEmpty then some (0, 0)
  else (readDigits? 10 0 false letters).map fun value =>
    (value, (letters.filter (· != '_')).length)

/-- The nearest floating point number to `value * 10 ^ exponent`. -/
def ofDecimal (negative : Bool) (value : Nat) (exponent : Int) : Float :=
  if value = 0 then ofRatio negative 0 1
  else
    -- beyond these bounds the result does not depend on the exponent any more
    let size := Int.ofNat (bitLength value)
    if exponent > 400 then ofRatio negative (10 ^ (400 : Nat)) 1
    else if exponent < -(800 + size) then ofRatio negative 0 1
    else if exponent < 0 then ofRatio negative value (10 ^ exponent.natAbs)
    else ofRatio negative (value * 10 ^ exponent.toNat) 1

/-- Reads a floating point number. -/
def readFloat? (text : List Char) : Option Float :=
  let (negative, letters) := splitSign (Text.trim text)
  let small := letters.map Char.toLower
  if small = "inf".toList || small = "infinity".toList then
    some (if negative then -infinity else infinity)
  else if small = "nan".toList then some notANumber
  else
    let (whole, rest) := spanDigits letters
    let (fraction, rest, pointed) :=
      match rest with
      | '.' :: more => let (digits, tail) := spanDigits more; (digits, tail, true)
      | _ => ([], rest, false)
    let exponent? : Option Int :=
      match rest with
      | [] => some 0
      | mark :: more =>
          if mark = 'e' || mark = 'E' then
            let (down, digits) := splitSign more
            (readDigits? 10 0 false digits).map fun value =>
              if down then -Int.ofNat value else Int.ofNat value
          else none
    if whole.isEmpty && fraction.isEmpty then none
    else if pointed && whole.getLast? = some '_' then none
    else
      match readOptionalDigits? whole, readOptionalDigits? fraction, exponent? with
      | some (high, _), some (low, places), some exponent =>
          some (ofDecimal negative (high * 10 ^ places + low) (exponent - Int.ofNat places))
      | _, _, _ => none

end Imprint.Number
