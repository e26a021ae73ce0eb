import Imprint.Expression.Scanner
import Imprint.Value.Compare

set_option autoImplicit false

/-!
# Configured delimiters

Delimiters come out of a configuration, where anything can stand in their place.  What cannot be used
as a delimiter is refused when the delimiters are made, or else when a text is searched.
-/

namespace Imprint

/-- The delimiters as they are configured. -/
structure Delimiters where
  opening : Value
  closing : Value
deriving Inhabited

namespace Delimiters

/-- Delimiters that are texts. -/
def ofScanner (scanner : Expression.Scanner) : Delimiters :=
  ⟨Value.ofText scanner.opening, Value.ofText scanner.closing⟩

/-- The last part of an opening delimiter. -/
def lastPart (opening : Value) : Heap Value := do
  match opening with
  | .text content => return Value.ofText (content.toList.drop (content.length - 1))
  | .unpaired codes => return Value.ofCodes (codes.drop (codes.length - 1))
  | .list cell => return ((← Heap.items cell).getLast?).getD .null
  | .tuple parts => return parts.getLast?.getD .null
  | .dict _ => throw (.error .key "-1")
  | other => throw (.typeError ("'" ++ other.typeName ++ "' object is not subscriptable"))

/-- Makes delimiters, if they are neither empty nor without a last part. -/
def make (opening closing : Value) : Heap Delimiters := do
  if !(← opening.truth) then
    throw (.valueError "Expression delimiters must not be empty")
  if !(← closing.truth) then
    throw (.valueError "Expression delimiters must not be empty")
  Value.requireKey (← lastPart opening)
  return ⟨opening, closing⟩

/-- A delimiter that is not a text. -/
def notText (value : Value) : Fault :=
  .typeError ("must be str, not " ++ value.typeName)

/-- The tokens in a text.  Delimiters with halves of pairs do not occur in it. -/
def tokens (delimiters : Delimiters) (letters : List Char) : Heap (List (List Char)) := do
  if letters.isEmpty then return []
  match delimiters.opening, delimiters.closing with
  | .text opening, .text closing =>
      return Expression.Scanner.tokens ⟨opening.toList, closing.toList⟩ letters
  | .unpaired _, _ | .text _, .unpaired _ => return []
  | .text opening, other =>
      if Text.occursIn opening.toList letters then throw (notText other) else return []
  | other, _ => throw (notText other)

/-- The expression of a token. -/
def strip (delimiters : Delimiters) (token : List Char) : List Char :=
  match delimiters.opening, delimiters.closing with
  | .text opening, .text closing =>
      Expression.Scanner.strip ⟨opening.toList, closing.toList⟩ token
  | _, _ => Text.trim token

end Delimiters

end Imprint
