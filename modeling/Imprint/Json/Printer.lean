import Imprint.Json.Reader
import Imprint.Number.Division
import Imprint.Number.Shortest

set_option autoImplicit false

/-!
# Writing JSON texts

Data are written on one line without blanks.  In texts, quotes, backslashes and control characters are
escaped, and so are halves of pairs; all other characters stand for themselves.
-/

namespace Imprint.Json

/-- A digit in base sixteen. -/
def hexDigit (value : Nat) : Char :=
  if value < 10 then Char.ofNat ('0'.toNat + value) else Char.ofNat ('a'.toNat + value - 10)

/-- A character inside of a text. -/
def escapeChar (letter : Char) : List Char :=
  if letter = '"' then ['\\', '"']
  else if letter = '\\' then ['\\', '\\']
  else if letter = '\n' then ['\\', 'n']
  else if letter.toNat < 0x20 then
    ['\\', 'u', '0', '0', hexDigit (letter.toNat / 16), hexDigit (letter.toNat % 16)]
  else [letter]

/-- A text in quotes. -/
def quoteText (content : String) : List Char :=
  '"' :: (content.toList.flatMap escapeChar ++ ['"'])

/-- A text given by its codes, in quotes. -/
def quoteCodes (codes : List Nat) : List Char :=
  '"' :: (codes.flatMap (fun code =>
    if Text.isHalf code then Text.escapeOf code else escapeChar (Char.ofNat code)) ++ ['"'])

/-- A floating point number; the special ones have names. -/
def floatLetters (number : Float) : List Char :=
  if Number.isFinite number then Number.floatText number
  else if number == Number.infinity then "Infinity".toList
  else if number == -Number.infinity then "-Infinity".toList
  else "NaN".toList

mutual

/-- The text of data. -/
def letters : Json → List Char
  | null => "null".toList
  | bool true => "true".toList
  | bool false => "false".toList
  | int number => (toString number).toList
  | float number => floatLetters number
  | text content => quoteText content
  | array items => '[' :: (itemLetters items ++ [']'])
  | object entries => '\x7b' :: (entryLetters entries ++ ['\x7d'])
  | unpaired codes => quoteCodes codes
  | keyed entries => '\x7b' :: (keyedLetters entries ++ ['\x7d'])

/-- The items of an array with commas between them. -/
def itemLetters : List Json → List Char
  | [] => []
  | [item] => letters item
  | item :: rest => letters item ++ ',' :: itemLetters rest

/-- The entries of an object with commas between them. -/
def entryLetters : List (String × Json) → List Char
  | [] => []
  | [(key, item)] => quoteText key ++ ':' :: letters item
  | (key, item) :: rest => quoteText key ++ ':' :: (letters item ++ ',' :: entryLetters rest)

/-- The entries of an object whose keys are given by their codes, with commas between them. -/
def keyedLetters : List (List Nat × Json) → List Char
  | [] => []
  | [(codes, item)] => quoteCodes codes ++ ':' :: letters item
  | (codes, item) :: rest => quoteCodes codes ++ ':' :: (letters item ++ ',' :: keyedLetters rest)

end

/-- The text of data. -/
def render (data : Json) : String :=
  String.ofList data.letters

/-- The entry of an object with a key. -/
def entry? (key : String) : Json → Option Json
  | object entries => entries.lookup key
  | _ => none

end Imprint.Json
