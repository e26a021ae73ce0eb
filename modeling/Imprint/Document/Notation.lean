import Imprint.Document.Package
import Imprint.Json.Printer

set_option autoImplicit false

/-!
# Documents in JSON notation

An element is written as an array of its name, its attributes and its content.  The content is an array
of nodes and texts; comments and processing instructions are objects.  A document is an object with the
content of its body and of its comments, and with its headers and footers.
-/

namespace Imprint

open Xml Document

/-! ## Reading -/

namespace Json

/-- The text of data that are a text. -/
def asText : Json → String
  | text content => content
  | _ => ""

/-- The items of data that are an array. -/
def asItems : Json → List Json
  | array items => items
  | _ => []

/-- The entries of data that are an object. -/
def asEntries : Json → List (String × Json)
  | object entries => entries
  | _ => []

/-- Adds text behind content that has been read, whose nodes are kept backwards. -/
def addText (lead : String) (nodes : List Node) (content : String) : String × List Node :=
  match nodes with
  | [] => (lead ++ content, [])
  | last :: others => (lead, last.withTail (last.tail ++ content) :: others)

/-- The attributes that data describe. -/
def toAttributes (data : Json) : List (Tag × String) :=
  data.asEntries.map fun (name, value) => (Tag.ofText name, value.asText)

mutual

/-- The node that data describe. -/
def toNode : Json → Node
  | array [name, attributes, array content] =>
      let (lead, children) := toContent content "" []
      .mk 0 (.element (Tag.ofText name.asText) attributes.toAttributes) lead children ""
  | object [("pi", array [target, content])] =>
      .mk 0 (.instruction target.asText content.asText) "" [] ""
  | object [("comment", content)] => .mk 0 (.comment content.asText) "" [] ""
  | _ => .mk 0 (.comment "") "" [] ""

/-- The text in front of the first node of some content, and the nodes. -/
def toContent : List Json → String → List Node → String × List Node
  | [], lead, nodes => (lead, nodes.reverse)
  | text content :: rest, lead, nodes =>
      let (lead, nodes) := addText lead nodes content
      toContent rest lead nodes
  | item :: rest, lead, nodes => toContent rest lead (toNode item :: nodes)

end

/-- The root of a part with some content. -/
def toRoot (tag : Tag) (data : Json) : Node :=
  let (lead, children) := toContent data.asItems "" []
  .mk 0 (.element tag []) lead children ""

/-- The header or footer that data describe. -/
def toPart : Json → Part
  | array items => .tree (toNode (array items))
  | object (("external", _) :: _) => .external
  | object (("same_as", array [text kind, int position]) :: _) =>
      .shared (kind == "header") position.toNat
  | _ => .raw

/-- The document that data describe. -/
def toPackage (data : Json) : Package where
  body := ((data.entry? "body").getD null).toRoot Tag.body
  headers := ((data.entry? "headers").getD null).asItems.map toPart
  footers := ((data.entry? "footers").getD null).asItems.map toPart
  comments := (data.entry? "comments").map (toRoot Tag.comments)
  commentsApart := ((data.entry? "comments_part").getD null).asText == "raw"

end Json

/-! ## Writing -/

/-- A text among the content of an element, unless it is empty. -/
def textJson (content : String) : List Json :=
  if content.isEmpty then [] else [.text content]

mutual

/-- The data that describe a node. -/
def Xml.Node.toJson : Node → Json
  | .mk _ (.element tag attributes) lead children _ =>
      .array [.text tag.text,
        .object (attributes.map fun (name, value) => (name.text, .text value)),
        .array (textJson lead ++ contentJson children)]
  | .mk _ (.comment content) _ _ _ => .object [("comment", .text content)]
  | .mk _ (.instruction target content) _ _ _ =>
      .object [("pi", .array [.text target, .text content])]

/-- The data that describe nodes with the texts behind them. -/
def contentJson : List Node → List Json
  | [] => []
  | node :: rest => node.toJson :: (textJson node.tail ++ contentJson rest)

end

/-- The data that describe the content of a root. -/
def rootJson (root : Node) : Json :=
  .array (textJson root.lead ++ contentJson root.children)

/-- The data that describe a header or footer of the document. -/
def Document.Part.toJson? : Part → Option Json
  | tree root => some root.toJson
  | external => none
  | _ => some .null

/-- An entry with headers or footers, if there are any. -/
def partsEntry (name : String) (parts : List Part) : List (String × Json) :=
  let items := parts.filterMap Part.toJson?
  if items.isEmpty then [] else [(name, .array items)]

/-- The data that describe a document. -/
def Document.Package.toJson (package : Package) : Json :=
  .object ([("body", rootJson package.body)] ++ partsEntry "headers" package.headers ++
    partsEntry "footers" package.footers ++
    package.comments.toList.map fun root => ("comments", rootJson root))

end Imprint
