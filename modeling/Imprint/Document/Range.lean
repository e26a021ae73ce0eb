import Imprint.Document.Comment

set_option autoImplicit false

/-!
# Ranges of comments

Markers tell where the range of a comment starts and ends.  A comment that wraps exactly one run
belongs to that run; any other one belongs to the paragraph it starts in, and its range may go on
over the siblings of the paragraph.
-/

namespace Imprint.Document

open Xml

/-- The identifier that two neighbours share as the start and the end of a range. -/
def wrappedBy (previous following : Option Node) : Option String :=
  match previous, following with
  | some start, some stop =>
      if start.hasTag Tag.rangeStart && stop.hasTag Tag.rangeEnd then
        match identifier? start with
        | some id => if identifier? stop = some id then some id else none
        | none => none
      else none
  | _, _ => none

/-- The comment that wraps exactly the node with a key among some siblings. -/
def commentAround (siblings : List Node) (run : Nat) : Option String :=
  wrappedBy (Node.before? run siblings) (Node.after? run siblings)

/-- Whether a start marker, with what stands behind it, wraps exactly one run. -/
def startsAtRun (marker : Node) (behind : List Node) : Bool :=
  match behind with
  | [] => false
  | run :: rest =>
      run.hasTag Tag.run && wrappedBy (some marker) rest.head? == identifier? marker

/-- The comment of the first start marker among some children that does not wrap exactly one run. -/
def anchoredComment : List Node → Option String
  | [] => none
  | child :: rest =>
      if child.hasTag Tag.rangeStart && !startsAtRun child rest then identifier? child
      else anchoredComment rest

/-- The comment that belongs to a paragraph as a whole. -/
def commentOfParagraph (paragraph : Node) : Option String :=
  anchoredComment paragraph.children

/-- Whether the range of a comment ends among the children of a node. -/
def hasEndOf (id : String) (node : Node) : Bool :=
  node.children.any fun child => child.hasTag Tag.rangeEnd && identifier? child == some id

/-- The comment whose start marker is the last one in a paragraph. -/
def lastStarted (paragraph : Node) : Option String :=
  match (paragraph.children.filter (Node.hasTag Tag.rangeStart)).getLast? with
  | some marker => identifier? marker
  | none => none

/-- The elements in the range of a comment.  An unbounded range goes to the end of the container. -/
structure CommentRange where
  id : Option String
  bounded : Bool
  elements : List Node
deriving Repr, Inhabited

/-- The elements of a range among the siblings behind its first paragraph, and whether it ends among
them.  A sibling that holds the end belongs to the range. -/
def scanRange (id : String) : List Node → List Node × Bool
  | [] => ([], false)
  | sibling :: rest =>
      if sibling.hasTag Tag.rangeEnd && identifier? sibling == some id then ([], true)
      else if sibling.isElement then
        if hasEndOf id sibling then ([sibling], true)
        else
          let (found, bounded) := scanRange id rest
          (sibling :: found, bounded)
      else scanRange id rest

/-- The range of a comment that starts in a paragraph.  `siblings` are the nodes behind the paragraph,
if it has a parent.  Without an identifier the last comment that starts in the paragraph counts. -/
def rangeFrom (paragraph : Node) (siblings : Option (List Node)) (id : Option String) :
    CommentRange :=
  let id := match id with
    | some id => some id
    | none => lastStarted paragraph
  match id with
  | none => ⟨none, true, [paragraph]⟩
  | some id =>
      if hasEndOf id paragraph then ⟨some id, true, [paragraph]⟩
      else
        match siblings with
        | none => ⟨some id, false, [paragraph]⟩
        | some siblings =>
            let (found, bounded) := scanRange id siblings
            ⟨some id, bounded, paragraph :: found⟩

/-- The paragraphs of a range. -/
def CommentRange.paragraphs (range : CommentRange) : List Node :=
  range.elements.filter (Node.hasTag Tag.paragraph)

/-! ## Ranges in a forest -/

/-- The comment that wraps exactly a run. -/
def commentAroundRun (forest : Forest) (run : Nat) : Option String :=
  (forest.parent? run).bind fun parent => commentAround parent.children run

/-- The comment that belongs to a paragraph as a whole. -/
def commentForParagraph (forest : Forest) (paragraph : Nat) : Option String :=
  (forest.find? paragraph).bind commentOfParagraph

/-- The range of a comment that starts in a paragraph. -/
def commentRange (forest : Forest) (paragraph : Nat) (id : Option String) : CommentRange :=
  match forest.find? paragraph with
  | none => ⟨id, true, []⟩
  | some node =>
      let siblings := (forest.parent? paragraph).map fun parent =>
        Node.following paragraph parent.children
      rangeFrom node siblings id

end Imprint.Document
