import Imprint.Text.Search

set_option autoImplicit false

/-!
# Cleaning and shortening texts

`sanitize` removes the control characters that XML does not allow and that data may hold.
`isWritable` is the check made when a text is put into the document; it refuses two more code
points.  `preview` is the one-line form of a text in reports.
-/

namespace Imprint.Text

/-- Control characters other than tab, line feed and carriage return. -/
def isStrayControl (letter : Char) : Bool :=
  letter.toNat < 0x20 && letter != '\t' && letter != '\n' && letter != '\r'

/-- The text without stray control characters. -/
def sanitize (text : List Char) : List Char :=
  text.filter fun letter => !isStrayControl letter

/-- Characters that a document accepts. -/
def isWritableChar (letter : Char) : Bool :=
  !isStrayControl letter && letter.toNat != 0xfffe && letter.toNat != 0xffff

/-- Texts that a document accepts. -/
def isWritable (text : List Char) : Bool :=
  text.all isWritableChar

/-- Runs of spaces become one space. -/
def collapseSpaces : List Char → List Char
  | ' ' :: ' ' :: rest => collapseSpaces (' ' :: rest)
  | letter :: rest => letter :: collapseSpaces rest
  | [] => []

/-- The text on one line: line feeds and tabs become spaces, carriage returns go, runs of spaces
become one, and the ends are trimmed. -/
def singleLine (text : List Char) : List Char :=
  trim (collapseSpaces (text.flatMap fun letter =>
    if letter = '\n' || letter = '\t' then [' '] else if letter = '\r' then [] else [letter]))

/-- The single-line form, cut to a length and marked by three dots if it is longer.  A negative
length counts from the end. -/
def preview (text : List Char) (length : Int) : List Char :=
  let clean := singleLine text
  if Int.ofNat clean.length > length then
    let kept := if length < 0 then clean.length - length.natAbs else length.toNat
    clean.take kept ++ ['.', '.', '.']
  else clean

/-- Length of previews where none is given. -/
def previewLength : Int := 30

end Imprint.Text
