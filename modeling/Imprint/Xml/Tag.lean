set_option autoImplicit false

/-!
# Names of elements and attributes

A name belongs to the word processing vocabulary, to the vocabulary of XML itself, to another one
given by its address, or to none.  The short form abbreviates the first two; the long form shows the
address in braces.
-/

namespace Imprint.Xml

/-- The vocabulary a name belongs to. -/
inductive Space where
  | word
  | xml
  | none
  | other (address : String)
deriving DecidableEq, Repr, Inhabited

/-- Address of the word processing vocabulary. -/
def wordAddress : String := "http://schemas.openxmlformats.org/wordprocessingml/2006/main"

/-- Address of the XML vocabulary. -/
def xmlAddress : String := "http://www.w3.org/XML/1998/namespace"

/-- The vocabulary with an address. -/
def Space.ofAddress (address : String) : Space :=
  if address = wordAddress then .word
  else if address = xmlAddress then .xml
  else .other address

/-- A name with its vocabulary. -/
structure Tag where
  space : Space
  name : String
deriving DecidableEq, Repr, Inhabited

/-- A name of the word processing vocabulary. -/
def Tag.word (name : String) : Tag := ⟨.word, name⟩

/-- Encloses an address in braces. -/
def bracedAddress (address : String) : String :=
  "\x7b" ++ address ++ "\x7d"

/-- The long form of a name. -/
def Tag.fullText (tag : Tag) : String :=
  match tag.space with
  | .word => bracedAddress wordAddress ++ tag.name
  | .xml => bracedAddress xmlAddress ++ tag.name
  | .none => tag.name
  | .other address => bracedAddress address ++ tag.name

/-- The short form of a name. -/
def Tag.text (tag : Tag) : String :=
  match tag.space with
  | .word => "w:" ++ tag.name
  | .xml => "xml:" ++ tag.name
  | .none => tag.name
  | .other address => bracedAddress address ++ tag.name

/-- Reads the short form of a name. -/
def Tag.ofText (text : String) : Tag :=
  match text.toList with
  | 'w' :: ':' :: rest => ⟨.word, String.ofList rest⟩
  | 'x' :: 'm' :: 'l' :: ':' :: rest => ⟨.xml, String.ofList rest⟩
  | '\x7b' :: rest =>
      let address := rest.takeWhile (· != '\x7d')
      ⟨Space.ofAddress (String.ofList address), String.ofList (rest.drop (address.length + 1))⟩
  | _ => ⟨.none, text⟩

namespace Tag

def paragraph : Tag := word "p"
def run : Tag := word "r"
def text_ : Tag := word "t"
def tabulator : Tag := word "tab"
def lineBreak : Tag := word "br"
def carriageReturn : Tag := word "cr"
def runProperties : Tag := word "rPr"
def paragraphProperties : Tag := word "pPr"
def cell : Tag := word "tc"
def row : Tag := word "tr"
def table : Tag := word "tbl"
def body : Tag := word "body"
def comment : Tag := word "comment"
def comments : Tag := word "comments"
def rangeStart : Tag := word "commentRangeStart"
def rangeEnd : Tag := word "commentRangeEnd"
def reference : Tag := word "commentReference"

/-- The attribute that identifies a comment and its markers. -/
def identifier : Tag := word "id"

/-- The attribute that keeps blanks. -/
def space_ : Tag := ⟨.xml, "space"⟩

end Tag

end Imprint.Xml
