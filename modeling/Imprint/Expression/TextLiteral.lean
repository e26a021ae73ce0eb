import Imprint.Fault
import Imprint.Number.Reading

set_option autoImplicit false

/-!
# The content of text literals

A backslash in a literal starts an escape: a letter for a control character, up to three octal
digits, or a code of two, four or eight hexadecimal digits.  A backslash at a line end joins the
lines, and in front of anything else it stands for itself.  In front of a character outside the
basic Latin alphabet it is followed by the code of that character and not by the character.  A code can be
half of a pair, so the content is given by codes.
-/

namespace Imprint.Expression

/-- The character of an escape of one letter. -/
def letterEscape? : Char → Option Char
  | '\\' => some '\\'
  | '\'' => some '\''
  | '"' => some '"'
  | 'b' => some (Char.ofNat 8)
  | 'f' => some (Char.ofNat 12)
  | 't' => some '\t'
  | 'n' => some '\n'
  | 'r' => some '\r'
  | 'v' => some (Char.ofNat 11)
  | 'a' => some (Char.ofNat 7)
  | _ => none

/-- The number of hexadecimal digits behind an escape mark. -/
def codeWidth? : Char → Option Nat
  | 'x' => some 2
  | 'u' => some 4
  | 'U' => some 8
  | _ => none

/-- The value of a hexadecimal digit. -/
def hexValue? (letter : Char) : Option Nat :=
  if letter.toNat < 128 then (Number.digitValue? letter).filter (· < 16) else none

/-- The value of some hexadecimal digits; none if one of them is not. -/
def readCode? (digits : List Char) : Option Nat :=
  digits.foldlM (fun value letter => (hexValue? letter).map (16 * value + ·)) 0

/-- An octal digit. -/
def isOctal (letter : Char) : Bool :=
  '0' ≤ letter && letter ≤ '7'

/-- The text without the part up to and with the first closing brace, if there is one behind at
least one character. -/
def skipName? : List Char → Option (List Char)
  | [] => none
  | '\x7d' :: _ => none
  | _ :: rest =>
      match rest.dropWhile (· != '\x7d') with
      | [] => none
      | _ :: more => some more

/-- The codes that an escape of digits or a name stands for, and what follows; `letters` is what
stands behind the mark. -/
def readEscape (mark : Char) (letters : List Char) : Except Fault (List Nat × List Char) :=
  match codeWidth? mark with
  | some width =>
      let digits := letters.take width
      match readCode? digits with
      | some code =>
          if digits.length < width then
            .error (.malformed (String.ofList
              ("truncated \\".toList ++ mark :: List.replicate width 'X' ++ " escape".toList)))
          else if code > 0x10ffff then .error (.malformed "illegal Unicode character")
          else .ok ([code], letters.drop width)
      | none =>
          .error (.malformed (String.ofList
            ("truncated \\".toList ++ mark :: List.replicate width 'X' ++ " escape".toList)))
  | none =>
      if isOctal mark then
        let digits := mark :: (letters.take 2).takeWhile isOctal
        let code := digits.foldl (fun value letter => 8 * value + (letter.toNat - 48)) 0
        .ok ([code], letters.drop (digits.length - 1))
      else if mark = 'N' then
        match letters with
        | '\x7b' :: name =>
            match skipName? name with
            | some _ => .error (.malformed "unknown Unicode character name")
            | none => .error (.malformed "malformed \\N character escape")
        | _ => .error (.malformed "malformed \\N character escape")
      else .ok (['\\', mark].map Char.toNat, letters)

/-- The codes of the content of a literal; the number bounds its length. -/
def literalContent : Nat → List Char → Except Fault (List Nat)
  | 0, letters => .ok (letters.map Char.toNat)
  | _, [] => .ok []
  | _, ['\\'] => .error (.malformed "\\ at end of string")
  | fuel + 1, '\\' :: mark :: rest =>
      if mark = '\n' then literalContent fuel rest
      else if mark.toNat ≥ 128 then
        (literalContent fuel rest).map ((Text.codeEscape mark).map Char.toNat ++ ·)
      else
        match letterEscape? mark with
        | some letter => (literalContent fuel rest).map (letter.toNat :: ·)
        | none => do
            let (found, rest) ← readEscape mark rest
            return found ++ (← literalContent fuel rest)
  | fuel + 1, letter :: rest => (literalContent fuel rest).map (letter.toNat :: ·)

end Imprint.Expression
