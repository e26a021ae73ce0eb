import Imprint.Text.Category

set_option autoImplicit false

/-!
# Quoted texts

The quoted form shows a text on one line with every character recognisable: single quotes around
it, or double quotes if it holds a single quote and no double one; the quote and the backslash
escaped; line feed, carriage return and tab by a letter; every other character that is not printable
by its code in two, four or eight hexadecimal digits.
-/

namespace Imprint.Text

/-- A lower case hexadecimal digit. -/
def hexDigit (value : Nat) : Char :=
  if value < 10 then Char.ofNat (48 + value) else Char.ofNat (87 + value)

/-- The last `width` hexadecimal digits of a number. -/
def hexDigits : Nat → Nat → List Char
  | 0, _ => []
  | width + 1, value => hexDigits width (value / 16) ++ [hexDigit (value % 16)]

/-- The escape of a code, with as few digits as its size allows. -/
def escapeOf (code : Nat) : List Char :=
  if code < 0x100 then '\\' :: 'x' :: hexDigits 2 code
  else if code < 0x10000 then '\\' :: 'u' :: hexDigits 4 code
  else '\\' :: 'U' :: hexDigits 8 code

/-- The escape of a character by its code. -/
def codeEscape (letter : Char) : List Char :=
  escapeOf letter.toNat

/-- The quote put around a text. -/
def quoteFor (text : List Char) : Char :=
  if text.contains '\'' && !text.contains '"' then '"' else '\''

/-- One character inside quotes. -/
def quotedChar (quote letter : Char) : List Char :=
  if letter = quote || letter = '\\' then ['\\', letter]
  else if letter = '\n' then ['\\', 'n']
  else if letter = '\r' then ['\\', 'r']
  else if letter = '\t' then ['\\', 't']
  else if isPrintable letter then [letter]
  else codeEscape letter

/-- The quoted form of a text. -/
def quoted (text : List Char) : List Char :=
  let quote := quoteFor text
  quote :: text.flatMap (quotedChar quote) ++ [quote]

/-- The quoted form of a text, as a string. -/
def quote (text : String) : String :=
  String.ofList (quoted text.toList)

/-- A text in single quotes, just as it is. -/
def inQuotes (text : String) : String :=
  "'" ++ text ++ "'"

/-! ## Texts with halves of pairs

In some notations a character of a high code is written as a pair of codes that stand for no character by
themselves.  A text can hold a half of such a pair alone; it then has codes and no letters. -/

/-- Whether a code is half of a pair. -/
def isHalf (code : Nat) : Bool :=
  0xd800 ≤ code && code < 0xe000

/-- The letters of a text, unless it holds a half alone. -/
def lettersOf? (codes : List Nat) : Option (List Char) :=
  if codes.any isHalf then none else some (codes.map Char.ofNat)

/-- Whether a text occurs in another, both given by their codes. -/
def codesOccurIn (needle codes : List Nat) : Bool :=
  (List.range (codes.length + 1)).any fun index => needle.isPrefixOf (codes.drop index)

/-- A code as it is shown: its letter, or the escape of a half. -/
def shownCode (code : Nat) : List Char :=
  if isHalf code then escapeOf code else [Char.ofNat code]

/-- One code inside quotes. -/
def quotedCode (quote : Char) (code : Nat) : List Char :=
  if isHalf code then escapeOf code else quotedChar quote (Char.ofNat code)

/-- The quoted form of a text given by its codes. -/
def quotedCodes (codes : List Nat) : List Char :=
  let quote := quoteFor (codes.map Char.ofNat)
  quote :: codes.flatMap (quotedCode quote) ++ [quote]

/-! ## Encodings -/

/-- What is reported if an encoding refuses some of the codes of a text: the first of them, with those that
follow at once, and the reason. -/
def encodingTrouble? (encoding reason : String) (refuses : Nat → Bool) (codes : List Nat) : Option String :=
  let start := (codes.takeWhile fun code => !refuses code).length
  let about (place : String) : String :=
    "'" ++ encoding ++ "' codec can't encode " ++ place ++ ": " ++ reason
  match (codes.drop start).takeWhile refuses with
  | [] => none
  | [code] => some (about
      ("character '" ++ String.ofList (escapeOf code) ++ "' in position " ++ toString start))
  | others => some (about
      ("characters in position " ++ toString start ++ "-" ++ toString (start + others.length - 1)))

/-! ## Bytes -/

/-- One byte inside quotes. -/
def quotedByte (quote : Char) (byte : UInt8) : List Char :=
  let letter := Char.ofNat byte.toNat
  if letter = quote || letter = '\\' then ['\\', letter]
  else if letter = '\n' then ['\\', 'n']
  else if letter = '\r' then ['\\', 'r']
  else if letter = '\t' then ['\\', 't']
  else if 32 ≤ byte.toNat && byte.toNat < 127 then [letter]
  else '\\' :: 'x' :: hexDigits 2 byte.toNat

/-- The quoted form of a sequence of bytes. -/
def quotedBytes (bytes : List UInt8) : List Char :=
  let quote := quoteFor (bytes.map fun byte => Char.ofNat byte.toNat)
  'b' :: quote :: bytes.flatMap (quotedByte quote) ++ [quote]

end Imprint.Text
