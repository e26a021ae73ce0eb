import Imprint.Fault
import Imprint.Text.Preview
import Imprint.Xml.Node

set_option autoImplicit false

/-!
# Runs

A run is a stretch of a paragraph with one formatting.  Its text is read off its children: text
elements count with their text, tabs as a tab character, line breaks and carriage returns as a line
feed.  Whatever else a run holds, like pictures, has no text and stays in place when the text is set.
-/

namespace Imprint.Document

open Xml

/-- The text that a child of a run stands for; none for children without text. -/
def childText? (child : Node) : Option (List Char) :=
  match child.tag? with
  | some tag =>
      if tag = Tag.text_ then some child.lead.toList
      else if tag = Tag.tabulator then some ['\t']
      else if tag = Tag.lineBreak || tag = Tag.carriageReturn then some ['\n']
      else none
  | none => none

/-- The text of a run. -/
def runText (run : Node) : List Char :=
  run.children.flatMap fun child => (childText? child).getD []

/-- Whether a child of a run stands for text. -/
def isTextual (child : Node) : Bool :=
  (childText? child).isSome

/-- A text element, without control characters. -/
def textElement (letters : List Char) : Node :=
  .mk 0 (.element Tag.text_ [(Tag.space_, "preserve")]) (String.ofList (Text.sanitize letters)) [] ""

/-- The collected letters as an element, if there are any; they are collected backwards. -/
def flushText (collected : List Char) : List Node :=
  if collected.isEmpty then [] else [textElement collected.reverse]

/-- The elements that stand for a text; carriage returns are left out.  `collected` holds the letters
since the last tab or line feed, backwards. -/
def textElementsFrom : List Char → List Char → List Node
  | collected, [] => flushText collected
  | collected, letter :: rest =>
      if letter = '\t' then
        flushText collected ++ Node.ofTag Tag.tabulator [] :: textElementsFrom [] rest
      else if letter = '\n' then
        flushText collected ++ Node.ofTag Tag.lineBreak [] :: textElementsFrom [] rest
      else if letter = '\r' then textElementsFrom collected rest
      else textElementsFrom (letter :: collected) rest

/-- The elements that stand for a text. -/
def textElements (letters : List Char) : List Node :=
  textElementsFrom [] letters

/-- The run without the children that stand for text. -/
def withoutText (run : Node) : Node :=
  run.withChildren (run.children.filter fun child => !isTextual child)

/-- Where the text of a run starts among its other children: at the first child that stands for text,
or else behind the properties. -/
def textPosition (run : Node) : Nat :=
  match run.children.findIdx? isTextual with
  | some position => position
  | none => if (run.child? Tag.runProperties).isSome then 1 else 0

/-- The run with another text. -/
def setRunText (run : Node) (letters : List Char) : Node :=
  let others := run.children.filter fun child => !isTextual child
  let position := textPosition run
  run.withChildren (others.take position ++ textElements letters ++ others.drop position)

/-- Whether a text can be written into a document; control characters do not matter, since they are
left out. -/
def canWrite (letters : List Char) : Bool :=
  Text.isWritable (Text.sanitize letters)

/-- A text that no document accepts. -/
def unwritable : Fault :=
  .valueError
    "All strings must be XML compatible: Unicode or ASCII, no NULL bytes or control characters"

/-- Fails for a text that no document accepts. -/
def requireWritable (letters : List Char) : Except Fault Unit :=
  if canWrite letters then .ok () else .error unwritable

/-- A new run with a text and a copy of run properties. -/
def createRun (letters : List Char) (properties : Option Node) : Node :=
  Node.ofTag Tag.run (properties.toList.map Node.copied ++ textElements letters)

/-- A new run that holds a line break. -/
def createBreakRun (properties : Option Node) : Node :=
  Node.ofTag Tag.run (properties.toList.map Node.copied ++ [Node.ofTag Tag.lineBreak []])

/-- A new paragraph with a run for each text. -/
def createParagraph (texts : List (List Char)) : Node :=
  Node.ofTag Tag.paragraph (texts.map fun letters => createRun letters none)

/-- The run properties of a run. -/
def runProperties (run : Node) : Option Node :=
  run.child? Tag.runProperties

/-- A list without the first element that satisfies a test. -/
def withoutFirst (test : Node → Bool) : List Node → List Node
  | [] => []
  | node :: rest => if test node then rest else node :: withoutFirst test rest

/-- The run with a copy of the given properties in place of its own, or with none. -/
def applyRunProperties (run : Node) (properties : Option Node) : Node :=
  let others := withoutFirst (Node.hasTag Tag.runProperties) run.children
  run.withChildren (properties.toList.map Node.copied ++ others)

end Imprint.Document
