import Imprint.Fault

set_option autoImplicit false

/-!
# Tokens

The words of the expression language: names, literals and signs.  What cannot be read as a token
stands at the end of the tokens as the fault it causes, because it counts only when it is reached.
-/

namespace Imprint.Expression

/-- What a token is. -/
inductive Word where
  | name (name : String)
  /-- A text, by its codes. -/
  | text (codes : List Nat)
  | integer (number : Nat)
  | float (number : Float)
  /-- An operator, a bracket or a separator. -/
  | sign (written : String)
  /-- The mark that closes a printed expression. -/
  | closing
  /-- The end of the expression. -/
  | ending
  /-- What cannot be read. -/
  | broken (fault : Fault)
deriving Repr, Inhabited

/-- A token, with the line it starts on. -/
structure Token where
  word : Word
  line : Nat
deriving Repr, Inhabited

namespace Word

/-- How a token is called in messages. -/
def description : Word → String
  | name letters => letters
  | text _ => "string"
  | integer _ => "integer"
  | float _ => "float"
  | sign written => written
  | closing => "end of print statement"
  | ending => "end of template"
  | broken fault => fault.message

/-- Whether a token is a given sign. -/
def isSign (word : Word) (written : String) : Bool :=
  match word with
  | sign other => other == written
  | _ => false

/-- Whether a token is a given name. -/
def isNamed (word : Word) (expected : String) : Bool :=
  match word with
  | name other => other == expected
  | _ => false

/-- Whether a token ends the expression. -/
def isEnding : Word → Bool
  | ending => true
  | _ => false

end Word

end Imprint.Expression
