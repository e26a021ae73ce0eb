import Imprint.Json.Basic
import Imprint.Number.Reading

set_option autoImplicit false

/-!
# Reading JSON texts

A reader takes data off the start of a list of characters and returns what is left.  Trouble is
reported with the number of characters left at the place where it was found, from which the line and
the column follow.  Besides proper JSON, the names of the three special floating point numbers are
accepted.
-/

namespace Imprint.Json

/-- Trouble with a text. -/
inductive Trouble where
  /-- Something is wrong where so many characters are left. -/
  | malformed (message : String) (left : Nat)
  /-- An integer has too many digits. -/
  | tooManyDigits (count : Nat)
deriving DecidableEq, Repr, Inhabited

/-- Characters between the parts of a text. -/
def isBlank (letter : Char) : Bool :=
  letter = ' ' || letter = '\t' || letter = '\n' || letter = '\r'

/-- The characters behind blanks. -/
def skipBlanks (letters : List Char) : List Char :=
  letters.dropWhile isBlank

/-- Trouble at the start of some characters. -/
def trouble {α : Type} (message : String) (letters : List Char) : Except Trouble (α × List Char) :=
  .error (.malformed message letters.length)

/-! ## Texts -/

/-- The value of a digit in base sixteen. -/
def hexDigit? (letter : Char) : Option Nat :=
  if '0' ≤ letter && letter ≤ '9' then some (letter.toNat - '0'.toNat)
  else if 'a' ≤ letter && letter ≤ 'f' then some (letter.toNat - 'a'.toNat + 10)
  else if 'A' ≤ letter && letter ≤ 'F' then some (letter.toNat - 'A'.toNat + 10)
  else none

/-- The number of four digits in base sixteen. -/
def hexNumber? : List Char → Option Nat
  | [a, b, c, d] => do
      return (((← hexDigit? a) * 16 + (← hexDigit? b)) * 16 + (← hexDigit? c)) * 16 + (← hexDigit? d)
  | _ => none

/-- The character of a short escape. -/
def escaped? : Char → Option Char
  | '"' => some '"'
  | '\\' => some '\\'
  | '/' => some '/'
  | 'b' => some '\x08'
  | 'f' => some '\x0c'
  | 'n' => some '\n'
  | 'r' => some '\r'
  | 't' => some '\t'
  | _ => none

/-- Reads the code behind the mark of a long escape.  The escapes of both halves of a pair stand for one
code; a half alone is kept. -/
def readUnicode (letters : List Char) : Except Trouble (Nat × List Char) :=
  let invalid {α : Type} (left : Nat) : Except Trouble (α × List Char) :=
    .error (.malformed "Invalid \\uXXXX escape" left)
  let start := letters.length + 1
  match hexNumber? (letters.take 4) with
  | none => invalid start
  | some code =>
      let rest := letters.drop 4
      if rest.isEmpty then invalid start
      else if 0xd800 ≤ code && code < 0xdc00 && 6 < rest.length then
        match rest with
        | '\\' :: 'u' :: more =>
            match hexNumber? (more.take 4) with
            | none => invalid (more.length + 1)
            | some second =>
                if 0xdc00 ≤ second && second < 0xe000 then
                  .ok (0x10000 + (code - 0xd800) * 0x400 + (second - 0xdc00), more.drop 4)
                else .ok (code, rest)
        | _ => .ok (code, rest)
      else .ok (code, rest)

/-- Reads the codes of a text up to its closing quote.  `opening` is the number of characters left at the
opening one; the first number bounds the characters that are read. -/
def readText (opening : Nat) : Nat → List Char → Except Trouble (List Nat × List Char)
  | 0, _ => .error (.malformed "Unterminated string starting at" opening)
  | fuel + 1, letters =>
      let add (code : Nat) (rest : List Char) : Except Trouble (List Nat × List Char) := do
        let (codes, rest) ← readText opening fuel rest
        return (code :: codes, rest)
      match letters with
      | [] => .error (.malformed "Unterminated string starting at" opening)
      | '"' :: rest => .ok ([], rest)
      | ['\\'] => .error (.malformed "Unterminated string starting at" opening)
      | '\\' :: 'u' :: rest => do
          let (code, rest) ← readUnicode rest
          add code rest
      | '\\' :: mark :: rest =>
          match escaped? mark with
          | some letter => add letter.toNat rest
          | none => trouble "Invalid \\escape" ('\\' :: mark :: rest)
      | letter :: rest =>
          if letter.toNat < 0x20 then trouble "Invalid control character at" (letter :: rest)
          else add letter.toNat rest

/-- Reads the codes of a text behind its opening quote. -/
def readString (rest : List Char) : Except Trouble (List Nat × List Char) :=
  readText (rest.length + 1) (rest.length + 1) rest

/-! ## Numbers -/

/-- Whether a character is a decimal digit. -/
def isDigit (letter : Char) : Bool :=
  '0' ≤ letter && letter ≤ '9'

/-- The decimal digits at the start. -/
def spanDigits (letters : List Char) : List Char × List Char :=
  letters.span isDigit

/-- The fraction at the start: a point and at least one digit. -/
def spanFraction (letters : List Char) : List Char × List Char :=
  match letters with
  | '.' :: digit :: rest =>
      if isDigit digit then
        let (digits, rest) := spanDigits rest
        ('.' :: digit :: digits, rest)
      else ([], letters)
  | _ => ([], letters)

/-- The exponent at the start: its mark, perhaps a sign, and at least one digit. -/
def spanExponent (letters : List Char) : List Char × List Char :=
  match letters with
  | mark :: rest =>
      if mark = 'e' || mark = 'E' then
        let (sign, rest) := match rest with
          | '+' :: more => (['+'], more)
          | '-' :: more => (['-'], more)
          | more => ([], more)
        let (digits, rest) := spanDigits rest
        if digits.isEmpty then ([], letters) else (mark :: (sign ++ digits), rest)
      else ([], letters)
  | [] => ([], letters)

/-- The digits in front of the point; a zero at the start stands alone. -/
def spanWhole (letters : List Char) : List Char × List Char :=
  match letters with
  | '0' :: rest => (['0'], rest)
  | letters => spanDigits letters

/-- Most digits that an integer may have. -/
def digitLimit : Nat := 4300

/-- Reads a number. -/
def readNumber (letters : List Char) : Except Trouble (Json × List Char) :=
  let (sign, unsigned) := match letters with
    | '-' :: rest => (['-'], rest)
    | letters => ([], letters)
  let (whole, rest) := spanWhole unsigned
  if whole.isEmpty then trouble "Expecting value" letters
  else
    let (fraction, rest) := spanFraction rest
    let (exponent, rest) := spanExponent rest
    if fraction.isEmpty && exponent.isEmpty then
      if digitLimit < whole.length then .error (.tooManyDigits whole.length)
      else .ok (.int ((Number.readInt? 10 (sign ++ whole)).getD 0), rest)
    else
      let number := Number.readFloat? (sign ++ whole ++ fraction ++ exponent)
      .ok (.float (number.getD Number.notANumber), rest)

/-! ## Data -/

/-- The data that names stand for. -/
def names : List (List Char × Json) :=
  [("null".toList, .null), ("true".toList, .bool true), ("false".toList, .bool false),
    ("NaN".toList, .float Number.notANumber), ("Infinity".toList, .float Number.infinity),
    ("-Infinity".toList, .float (-Number.infinity))]

/-- Reads a name or a number. -/
def readScalar (letters : List Char) : Except Trouble (Json × List Char) :=
  match names.find? fun entry => entry.1.isPrefixOf letters with
  | some (name, data) => .ok (data, letters.drop name.length)
  | none => readNumber letters

mutual

/-- Reads data; the number bounds how much is read. -/
def readData : Nat → List Char → Except Trouble (Json × List Char)
  | 0, letters => trouble "Expecting value" letters
  | fuel + 1, letters =>
      match letters with
      | [] => trouble "Expecting value" letters
      | '"' :: rest => do
          let (codes, rest) ← readString rest
          return (.ofCodes codes, rest)
      | '\x7b' :: rest =>
          match skipBlanks rest with
          | '\x7d' :: rest => .ok (.object [], rest)
          | rest => do
              let (entries, rest) ← readEntries fuel rest
              return (.ofEntries entries, rest)
      | '[' :: rest =>
          match skipBlanks rest with
          | ']' :: rest => .ok (.array [], rest)
          | rest => do
              let (items, rest) ← readItems fuel rest
              return (.array items, rest)
      | letters => readScalar letters

/-- Reads the items of an array up to its end. -/
def readItems : Nat → List Char → Except Trouble (List Json × List Char)
  | 0, letters => trouble "Expecting value" letters
  | fuel + 1, letters => do
      let (item, rest) ← readData fuel letters
      match skipBlanks rest with
      | ']' :: rest => return ([item], rest)
      | ',' :: rest => do
          let (items, rest) ← readItems fuel (skipBlanks rest)
          return (item :: items, rest)
      | rest => trouble "Expecting ',' delimiter" rest

/-- Reads the entries of an object up to its end. -/
def readEntries : Nat → List Char → Except Trouble (List (List Nat × Json) × List Char)
  | 0, letters => trouble "Expecting value" letters
  | fuel + 1, letters => do
      match letters with
      | '"' :: rest => do
          let (key, rest) ← readString rest
          match skipBlanks rest with
          | ':' :: rest => do
              let (item, rest) ← readData fuel (skipBlanks rest)
              match skipBlanks rest with
              | '\x7d' :: rest => return ([(key, item)], rest)
              | ',' :: rest => do
                  let (entries, rest) ← readEntries fuel (skipBlanks rest)
                  return ((key, item) :: entries, rest)
              | rest => trouble "Expecting ',' delimiter" rest
          | rest => trouble "Expecting ':' delimiter" rest
      | letters => trouble "Expecting property name enclosed in double quotes" letters

end

/-- Reads a whole text. -/
def readWhole (letters : List Char) : Except Trouble Json :=
  match letters with
  | '\ufeff' :: _ =>
      .error (.malformed "Unexpected UTF-8 BOM (decode using utf-8-sig)" letters.length)
  | _ => do
      let start := skipBlanks letters
      let (data, rest) ← readData (2 * start.length + 2) start
      match skipBlanks rest with
      | [] => return data
      | rest => .error (.malformed "Extra data" rest.length)

/-- A place in a text: its line, its column, and the number of characters in front of it. -/
def placeText (before : List Char) : String :=
  let line := (before.filter (· = '\n')).length + 1
  let column := (before.reverse.takeWhile (· != '\n')).length + 1
  "line " ++ toString line ++ " column " ++ toString column ++
    " (char " ++ toString before.length ++ ")"

/-- What is reported for trouble with a text. -/
def Trouble.message (letters : List Char) : Trouble → String
  | malformed message left =>
      message ++ ": " ++ placeText (letters.take (letters.length - left))
  | tooManyDigits count =>
      "Exceeds the limit (" ++ toString digitLimit ++ " digits) for integer string conversion: " ++
        "value has " ++ toString count ++ " digits; use sys.set_int_max_str_digits() to increase " ++
        "the limit"

end Imprint.Json
