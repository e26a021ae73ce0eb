import Imprint.Fault
import Imprint.Text.Search

set_option autoImplicit false

/-!
# Finding expressions in text

Expressions stand between delimiters.  A token is an expression with its delimiters, just as it is
written, because that is what is replaced in the text.  If the opening delimiter ends with an opening
bracket and the closing one is the bracket that matches it, then brackets of that kind and quoted
texts inside a token do not close it.
-/

namespace Imprint.Expression

/-- The delimiters of expressions. -/
structure Scanner where
  opening : List Char
  closing : List Char
deriving DecidableEq, Repr, Inhabited

/-- The bracket that closes an opening one. -/
def matchingBracket? : Char → Option Char
  | '\x7b' => some '\x7d'
  | '(' => some ')'
  | '[' => some ']'
  | _ => none

namespace Scanner

/-- Delimiters, which must not be empty. -/
def make (opening closing : String) : Except Fault Scanner :=
  if opening.isEmpty || closing.isEmpty then
    .error (.valueError "Expression delimiters must not be empty")
  else .ok ⟨opening.toList, closing.toList⟩

/-- The delimiters of values. -/
def values : Scanner := ⟨['$', '\x7b'], ['\x7d']⟩

/-- The delimiters of directives inside of text. -/
def directives : Scanner := ⟨['#', '\x7b'], ['\x7d']⟩

/-- The brackets that are matched inside tokens, if the delimiters are brackets. -/
def brackets? (scanner : Scanner) : Option (Char × Char) := do
  let left ← scanner.opening.getLast?
  let right ← matchingBracket? left
  if scanner.closing = [right] then some (left, right) else none

/-- The number of characters up to the end of the bracket that closes a token.  `depth` counts the
brackets that are open inside of it. -/
def closeBracket (left right : Char) : Nat → List Char → Option Nat
  | depth, letters => outside depth letters
where
  /-- Outside of quotes. -/
  outside : Nat → List Char → Option Nat
    | _, [] => none
    | depth, letter :: rest =>
        if letter = '"' || letter = '\'' then (inside letter depth rest).map (· + 1)
        else if letter = left then (outside (depth + 1) rest).map (· + 1)
        else if letter = right then
          match depth with
          | 0 => some 1
          | depth + 1 => (outside depth rest).map (· + 1)
        else (outside depth rest).map (· + 1)
  /-- Inside of quotes, where a backslash hides the character behind it. -/
  inside (quote : Char) : Nat → List Char → Option Nat
    | _, [] => none
    | _, ['\\'] => none
    | depth, '\\' :: _ :: rest => (inside quote depth rest).map (· + 2)
    | depth, letter :: rest =>
        if letter = quote then (outside depth rest).map (· + 1)
        else (inside quote depth rest).map (· + 1)

/-- The number of characters of a token behind its opening delimiter. -/
def tokenEnd (scanner : Scanner) (letters : List Char) : Option Nat :=
  match scanner.brackets? with
  | some (left, right) => closeBracket left right 0 letters
  | none => (Text.find? scanner.closing letters).map (· + scanner.closing.length)

/-- The tokens in a text, from left to right; the number bounds how many there are.  An opening
delimiter that is never closed is skipped. -/
def tokensWithin (scanner : Scanner) : Nat → List Char → List (List Char)
  | 0, _ => []
  | fuel + 1, letters =>
      match Text.find? scanner.opening letters with
      | none => []
      | some offset =>
          let start := letters.drop offset
          let body := start.drop scanner.opening.length
          match scanner.tokenEnd body with
          | none => scanner.tokensWithin fuel body
          | some size =>
              start.take (scanner.opening.length + size) ::
                scanner.tokensWithin fuel (body.drop size)

/-- The tokens in a text, from left to right. -/
def tokens (scanner : Scanner) (letters : List Char) : List (List Char) :=
  scanner.tokensWithin (letters.length + 1) letters

/-- The expression of a token, without delimiters and the blanks around it. -/
def strip (scanner : Scanner) (token : List Char) : List Char :=
  if scanner.opening.isPrefixOf token && scanner.closing.isSuffixOf token then
    Text.trim (Text.slice token scanner.opening.length (token.length - scanner.closing.length))
  else Text.trim token

end Scanner

end Imprint.Expression
