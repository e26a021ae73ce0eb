import Imprint.Calendar.Pattern
import Imprint.Document.Run
import Imprint.Value.Format
import Imprint.Value.Member

set_option autoImplicit false

/-!
# Rendering values

A renderer turns a value into content: a text, a node, or nothing.  Which renderer is taken depends
on the type of the value; a renderer for a type also serves the types that specialise it.  Content
becomes a run that can be put into a paragraph.
-/

namespace Imprint

open Xml

/-- Types of values that renderers are registered for. -/
inductive ValueType where
  | int
  | text
  | float
  | bool
  | list
  | dict
  | tuple
  | null
  | date
  | moment
  | money
  | euro
  | element
  | anything
deriving DecidableEq, Repr, Inhabited

/-- The types of a value, the most special one first. -/
def Value.types : Value → List ValueType
  | .null => [.null, .anything]
  | .bool _ => [.bool, .int, .anything]
  | .int _ => [.int, .anything]
  | .float _ => [.float, .anything]
  | .text _ | .unpaired _ => [.text, .anything]
  | .list _ => [.list, .anything]
  | .dict _ => [.dict, .anything]
  | .tuple _ => [.tuple, .anything]
  | .date _ => [.date, .anything]
  | .moment _ => [.moment, .date, .anything]
  | .money _ .general _ => [.money, .anything]
  | .money _ .euro _ => [.euro, .money, .anything]
  | .element _ => [.element, .anything]
  | _ => [.anything]

/-- What turns a value into content. -/
inductive Renderer where
  /-- Days and moments by a pattern. -/
  | date (pattern : Value)
  /-- The plain text. -/
  | text
  /-- The value as it is, for nodes. -/
  | node
  /-- Amounts of money with two decimal places. -/
  | money
  /-- The plain text between two others. -/
  | wrap (before after : String)
  /-- Always the same value. -/
  | constant (value : Value)
  /-- The value as it is. -/
  | unchanged
deriving Inhabited

namespace Renderer

/-- The class name of a renderer. -/
def label : Renderer → String
  | date _ => "DateResolver"
  | text => "StringResolver"
  | node => "RunResolver"
  | _ => "CustomResolver"

/-- An attribute that a value does not have. -/
def missingAttribute (value : Value) (name : String) : Fault :=
  .error .attribute ("'" ++ value.typeName ++ "' object has no attribute " ++ Text.quote name)

/-- The amount that a value has. -/
def centsOf (value : Value) : Heap Int := do
  match ← value.attribute? "cents" with
  | some found =>
      match found.asInt? with
      | some cents => return cents
      | none => throw (Value.unsupported .divide found (.int 100))
  | none => throw (missingAttribute value "cents")

/-- The text of a day, a moment or a time of day by a pattern. -/
def formatByPattern (value pattern : Value) : Heap Value := do
  let text (format : String → String) : Heap Value := do
    match pattern with
    | .text pattern => return .text (format pattern)
    | other => throw (.typeError
        ("strftime() argument 1 must be str, not " ++ other.argumentTypeName))
  match value with
  | .date day => text day.format
  | .moment moment => text moment.format
  | .clock clock => text (Calendar.Moment.format ⟨⟨1900, 1, 1⟩, clock⟩)
  | other => throw (missingAttribute other "strftime")

/-- The content that a value becomes. -/
def render (renderer : Renderer) (value : Value) : Heap Value := do
  match renderer with
  | date pattern => formatByPattern value pattern
  | text =>
      match value with
      | .null => return .null
      | .text content => return .text content
      | .unpaired codes => return .unpaired codes
      | other => return Value.ofText (← other.plain)
  | node => return value
  | money => return Value.ofText (Value.centsText (← centsOf value))
  | wrap before after =>
      return Value.ofText (before.toList ++ (← value.plain) ++ after.toList)
  | constant content => return content
  | unchanged => return value

end Renderer

/-- Renderers by type, and the one for all other types. -/
structure Renderers where
  default : Renderer
  byType : List (ValueType × Renderer)
deriving Inhabited

namespace Renderers

/-- Registers a renderer for a type, in place of an earlier one. -/
def register (renderers : Renderers) (type : ValueType) (renderer : Renderer) : Renderers :=
  { renderers with
    byType := (type, renderer) :: renderers.byType.filter fun entry => entry.1 != type }

/-- The renderer for the types of a value. -/
def ofTypes (renderers : Renderers) (types : List ValueType) : Renderer :=
  (types.findSome? fun type => renderers.byType.lookup type).getD renderers.default

/-- The renderer for a value. -/
def ofValue (renderers : Renderers) (value : Value) : Renderer :=
  renderers.ofTypes value.types

/-- Renderers without any type. -/
def empty (default : Renderer) : Renderers := ⟨default, []⟩

/-- The renderers for days and moments by a pattern, for nodes, and for texts. -/
def standard (pattern : Value) : Renderers :=
  ⟨.text, [(.date, .date pattern), (.moment, .date pattern), (.element, .node)]⟩

end Renderers

/-- The pattern for days where none is given. -/
def standardPattern : String := "%d.%m.%Y"

/-- Whether content is a run. -/
def isRunContent : Value → Bool
  | .element node => node.hasTag Tag.run
  | _ => false

/-- A new run with a text that has to be writable. -/
def runOfText (letters : List Char) (properties : Option Node) : Heap Node := do
  match Document.requireWritable letters with
  | .ok _ => return Document.createRun letters properties
  | .error fault => throw fault

/-! ## Values in the place of texts -/

/-- Joins pieces that have to be texts; the number counts those in front of them. -/
def joinPieces : Nat → List Value → Heap (List Char)
  | _, [] => return []
  | index, .text content :: rest => do
      return content.toList ++ (← joinPieces (index + 1) rest)
  | _, .unpaired codes :: _ => throw (.unpaired codes)
  | index, other :: _ => throw (.typeError ("sequence item " ++ toString index ++
      ": expected str instance, " ++ other.shortTypeName ++ " found"))

/-- The text element of some pieces, if there are any. -/
def flushPieces (pieces : List Value) : Heap (List Node) := do
  if pieces.isEmpty then return []
  let letters ← joinPieces 0 pieces
  match Document.requireWritable letters with
  | .ok _ => return [Document.textElement letters]
  | .error fault => throw fault

/-- The elements that pieces stand for; a piece that is a tab or a line feed has an element of its
own. -/
def pieceElements : List Value → List Value → Heap (List Node)
  | collected, [] => flushPieces collected
  | collected, .text "\t" :: rest => do
      let before ← flushPieces collected
      return before ++ Node.ofTag Tag.tabulator [] :: (← pieceElements [] rest)
  | collected, .text "\n" :: rest => do
      let before ← flushPieces collected
      return before ++ Node.ofTag Tag.lineBreak [] :: (← pieceElements [] rest)
  | collected, .text "\r" :: rest => pieceElements collected rest
  | collected, piece :: rest => pieceElements (collected ++ [piece]) rest

/-- A new run with a value in the place of its text.  Whatever counts as false stands for no text, and
what is no text is taken apart into pieces. -/
def runOfPieces (value : Value) (properties : Option Node) : Heap Node := do
  match value with
  | .text letters => runOfText letters.toList properties
  | .unpaired codes => throw (.unpaired codes)
  | other => do
      if !(← other.truth) then return Document.createRun [] properties
      let elements ← pieceElements [] (← other.items)
      let run := Document.createRun [] properties
      return run.withChildren (run.children ++ elements)

/-! ## Content -/

/-- The run that content becomes.  Runs are copied, other nodes are copied into a new run, and every
other content stands for its plain text. -/
def toRun (content : Value) (properties : Option Node) : Heap (Option Node) := do
  match content with
  | .null => return none
  | .text letters => return some (← runOfText letters.toList properties)
  | .element node =>
      if node.hasTag Tag.run then return some node.copied
      else
        let run := Document.createRun [] properties
        return some (run.withChildren (run.children ++ [node.copied]))
  | other => return some (← runOfText (← other.plain) properties)

end Imprint
