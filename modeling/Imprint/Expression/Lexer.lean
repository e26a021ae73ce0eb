import Imprint.Expression.TextLiteral
import Imprint.Expression.Token

set_option autoImplicit false

/-!
# Reading tokens

The text of an expression is read from left to right.  At every place the kinds of tokens are tried
in a fixed order: the closing mark (only outside of all brackets), blanks, floating point numbers,
integers, names, texts, signs.  Brackets are matched while they are read.
-/

namespace Imprint.Expression

/-- All line ends written as line feeds. -/
def normalizeLines : List Char → List Char
  | [] => []
  | '\r' :: '\n' :: rest => '\n' :: normalizeLines rest
  | '\r' :: rest => '\n' :: normalizeLines rest
  | letter :: rest => letter :: normalizeLines rest

/-- Digits with single underscores between them, as many as there are. -/
def takeDigits (isDigit : Char → Bool) : List Char → List Char
  | '_' :: digit :: rest =>
      if isDigit digit then '_' :: digit :: takeDigits isDigit rest else []
  | digit :: rest => if isDigit digit then digit :: takeDigits isDigit rest else []
  | [] => []

/-- Digits with single underscores between them, starting with a digit. -/
def takeNumber (letters : List Char) : List Char :=
  match letters with
  | '_' :: _ => []
  | _ => takeDigits Text.isDecimal letters

/-- The exponent at the start of a text, or nothing. -/
def takeExponent (letters : List Char) : List Char :=
  match letters with
  | mark :: rest =>
      if mark = 'e' || mark = 'E' then
        let sign := (rest.take 1).filter fun letter => letter = '+' || letter = '-'
        let digits := takeNumber (rest.drop sign.length)
        if digits.isEmpty then [] else mark :: sign ++ digits
      else []
  | [] => []

/-- The fraction at the start of a text, or nothing. -/
def takeFraction (letters : List Char) : List Char :=
  match letters with
  | '.' :: rest =>
      let digits := takeNumber rest
      if digits.isEmpty then [] else '.' :: digits
  | _ => []

/-- The floating point number at the start of a text, or nothing: digits with a fraction, an exponent
or both. -/
def takeFloat (letters : List Char) : List Char :=
  let whole := takeNumber letters
  if whole.isEmpty then []
  else
    let fraction := takeFraction (letters.drop whole.length)
    let exponent := takeExponent (letters.drop (whole.length + fraction.length))
    if fraction.isEmpty && exponent.isEmpty then [] else whole ++ fraction ++ exponent

/-- The digits of a base behind its mark. -/
def isBaseDigit (mark : Char) : Option (Char → Bool) :=
  if mark = 'b' || mark = 'B' then some fun letter => letter = '0' || letter = '1'
  else if mark = 'o' || mark = 'O' then some isOctal
  else if mark = 'x' || mark = 'X' then
    some fun letter => (hexValue? letter).isSome || Text.isDecimal letter
  else none

/-- The integer at the start of a text, or nothing.  A number that starts with zero is zero. -/
def takeInteger (letters : List Char) : List Char :=
  match letters with
  | '0' :: rest =>
      let zeros := '0' :: takeDigits (· = '0') rest
      match rest with
      | mark :: digits =>
          match isBaseDigit mark with
          | some isDigit =>
              let found := takeDigits isDigit digits
              if found.isEmpty then zeros else '0' :: mark :: found
          | none => zeros
      | [] => zeros
  | digit :: rest =>
      if '1' ≤ digit && digit ≤ '9' then digit :: takeDigits Text.isDecimal rest else []
  | [] => []

/-- Characters that names are made of. -/
def isNameLetter (letter : Char) : Bool :=
  letter = '_' || Text.isAlphanumeric letter || Text.continuesName letter

/-- The quoted text at the start of a text: its content and what follows. -/
def takeQuoted (quote : Char) : List Char → List Char → Option (List Char × List Char)
  | _, [] => none
  | _, ['\\'] => none
  | content, '\\' :: letter :: rest => takeQuoted quote (letter :: '\\' :: content) rest
  | content, letter :: rest =>
      if letter = quote then some (content.reverse, rest)
      else takeQuoted quote (letter :: content) rest

def longSigns : List String := ["//", "**", "==", "!=", ">=", "<="]

def shortSigns : List Char := "+-/*%~[](){}<>=.:|,;".toList

/-- The sign at the start of a text; longer ones come first. -/
def takeSign? (letters : List Char) : Option String :=
  match longSigns.find? fun sign => sign.toList.isPrefixOf letters with
  | some sign => some sign
  | none => letters.head?.bind fun letter =>
      if shortSigns.contains letter then some (String.singleton letter) else none

/-- The bracket that closes an opening one. -/
def closingBracket? : String → Option String
  | "(" => some ")"
  | "[" => some "]"
  | "\x7b" => some "\x7d"
  | _ => none

/-- The open brackets after a sign, innermost first. -/
def matchBracket (sign : String) (open_ : List String) : Except Fault (List String) :=
  match closingBracket? sign with
  | some closing => .ok (closing :: open_)
  | none =>
      if sign = ")" || sign = "]" || sign = "\x7d" then
        match open_ with
        | [] => .error (.malformed ("unexpected '" ++ sign ++ "'"))
        | expected :: rest =>
            if expected = sign then .ok rest
            else .error (.malformed
              ("unexpected '" ++ sign ++ "', expected '" ++ expected ++ "'"))
      else .ok open_

/-- A decimal literal with more digits than integers may have. -/
def literalTooLong (digits : Nat) : Fault :=
  .valueError ("Exceeds the limit (4300 digits) for integer string conversion: value has " ++
    toString digits ++ " digits; use sys.set_int_max_str_digits() to increase the limit")

/-- Most digits that an integer literal may have. -/
def literalDigitLimit : Nat := 4300

/-- The integer that a literal stands for. -/
def integerWord (letters : List Char) : Word :=
  let digits := letters.filter (· != '_')
  let marked := (digits.drop 1).head?.any fun mark => (isBaseDigit mark).isSome
  if !marked && literalDigitLimit < digits.length then .broken (literalTooLong digits.length)
  else
    match Number.readInt? 0 digits with
    | some number => .integer number.toNat
    | none => .broken (.valueError "invalid literal")

/-- The floating point number that a literal stands for: its digits are those of the basic Latin
alphabet. -/
def floatWord (letters : List Char) : Word :=
  let written := letters.filter (· != '_')
  match written.find? fun letter => letter.toNat ≥ 128 with
  | some letter => .broken (.error .invalidCode (String.ofList
      ("invalid character '".toList ++ letter :: "' (U+".toList ++
        (Text.hexDigits 4 letter.toNat).map Char.toUpper ++ ") (<unknown>, line 1)".toList)))
  | none =>
      match Number.readFloat? written with
      | some number => .float number
      | none => .broken (.valueError "invalid literal")

/-- What is read at one place: a token, or blanks; with the number of characters. -/
structure Lexeme where
  word : Option Word
  length : Nat
  open_ : List String

/-- The token or the blanks at the start of a text that is not empty. -/
def readLexeme (afterPoint : Bool) (open_ : List String) (offset : Nat) (letters : List Char) :
    Lexeme :=
  let blanks := letters.takeWhile Text.isBlank
  let float := if afterPoint then [] else takeFloat letters
  let integer := takeInteger letters
  let name := letters.takeWhile isNameLetter
  let closes := ['\x7d', '\x7d'].isPrefixOf letters || ['-', '\x7d', '\x7d'].isPrefixOf letters
  if open_.isEmpty && closes then ⟨some .closing, letters.length, open_⟩
  else if !blanks.isEmpty then ⟨none, blanks.length, open_⟩
  else if !float.isEmpty then ⟨some (floatWord float), float.length, open_⟩
  else if !integer.isEmpty then ⟨some (integerWord integer), integer.length, open_⟩
  else if !name.isEmpty then
    if Text.isName name then ⟨some (.name (String.ofList name)), name.length, open_⟩
    else ⟨some (.broken (.malformed "Invalid character in identifier")), name.length, open_⟩
  else
    let quote := letters.headD ' '
    match (if quote = '\'' || quote = '"' then takeQuoted quote [] (letters.drop 1) else none) with
    | some (content, rest) =>
        match literalContent content.length content with
        | .ok found => ⟨some (.text found), letters.length - rest.length, open_⟩
        | .error fault => ⟨some (.broken fault), letters.length - rest.length, open_⟩
    | none =>
        match takeSign? letters with
        | some sign =>
            match matchBracket sign open_ with
            | .ok open_ => ⟨some (.sign sign), sign.length, open_⟩
            | .error fault => ⟨some (.broken fault), sign.length, open_⟩
        | none =>
            ⟨some (.broken (.malformed ("unexpected char " ++ Text.quote (String.singleton quote) ++
              " at " ++ toString offset))), 1, open_⟩

/-- Reads tokens to the end of the text, to the closing mark, or to the first thing that cannot be
read; the first number bounds their count. -/
def readTokens : Nat → Bool → List String → Nat → Nat → List Char → List Token
  | 0, _, _, _, line, _ => [⟨.ending, line⟩]
  | _, _, _, _, line, [] => [⟨.ending, line⟩]
  | fuel + 1, afterPoint, open_, line, offset, letters =>
      let lexeme := readLexeme afterPoint open_ offset letters
      let taken := letters.take lexeme.length
      let rest := readTokens fuel (taken.getLast? == some '.') lexeme.open_
        (line + taken.count '\n') (offset + lexeme.length) (letters.drop lexeme.length)
      match lexeme.word with
      | none => rest
      | some (.broken fault) => [⟨.broken fault, line⟩]
      | some .closing => [⟨.closing, line⟩]
      | some word => ⟨word, line⟩ :: rest

/-- The tokens of an expression. -/
def tokens (expression : List Char) : List Token :=
  let letters := normalizeLines expression
  readTokens (letters.length + 1) false [] 1 0 letters

end Imprint.Expression
