import Imprint.Document.Template

set_option autoImplicit false

/-!
# Documents at rest

A package holds the parts of a document as plain trees.  Opening it puts the trees into a forest, where
they can be edited; closing takes them out again.
-/

namespace Imprint.Document

open Xml

/-- A header or footer of a package.  It has a tree of its own, or that of another header or footer: a section
that is at the same time the body of the document, or its part with the comments, cannot be expressed. -/
inductive Part where
  | tree (root : Node)
  /-- A part that is no tree. -/
  | raw
  /-- A part outside of the document. -/
  | external
  /-- The same part as the header, or else the footer, at a position. -/
  | shared (inHeaders : Bool) (position : Nat)
deriving Repr, Inhabited

/-- The parts of a document.  The comments can be a tree like the others, or kept on their own. -/
structure Package where
  body : Node
  headers : List Part
  footers : List Part
  comments : Option Node
  commentsApart : Bool
deriving Repr, Inhabited

namespace Package

/-- Puts parts into a forest.  Parts that are shared with earlier ones are looked up in `headers`, or
among the footers opened so far. -/
def openParts (headers : List Section) : List Section → List Part → Forest →
    List Section × Forest
  | opened, [], forest => (opened, forest)
  | opened, part :: rest, forest =>
      match part with
      | .tree root =>
          let (key, forest) := forest.plant root
          openParts headers (opened ++ [.tree key]) rest forest
      | .raw => openParts headers (opened ++ [.raw]) rest forest
      | .external => openParts headers (opened ++ [.external]) rest forest
      | .shared inHeaders position =>
          let known := if inHeaders && !headers.isEmpty then headers else opened
          openParts headers (opened ++ [known[position]?.getD .raw]) rest forest

/-- Puts a package into a forest. -/
def openIn (package : Package) (forest : Forest) : Template × Forest :=
  let (body, forest) := forest.plant package.body
  let (headers, forest) := openParts [] [] package.headers forest
  let (footers, forest) := openParts headers [] package.footers forest
  match package.comments with
  | none => (⟨body, headers, footers, .none⟩, forest)
  | some comments =>
      if package.commentsApart then (⟨body, headers, footers, .stored comments⟩, forest)
      else
        let (root, forest) := forest.plant comments
        (⟨body, headers, footers, .live root⟩, forest)

/-- A tree of a forest without keys. -/
def treeOf (forest : Forest) (root : Nat) : Node :=
  ((forest.find? root).getD (Node.ofTag Tag.body [])).copied

/-- The part that a section is. -/
def partOf (forest : Forest) : Section → Part
  | .tree root => .tree (treeOf forest root)
  | .raw => .raw
  | .external => .external

/-- The tree of comments. -/
def commentsOf (forest : Forest) : CommentsPart → Option Node
  | .none => none
  | .live root => some (treeOf forest root)
  | .stored tree => some tree.copied

/-- Takes the parts of a template out of a forest. -/
def ofTemplate (template : Template) (forest : Forest) : Package where
  body := treeOf forest template.body
  headers := template.headers.map (partOf forest)
  footers := template.footers.map (partOf forest)
  comments := commentsOf forest template.comments
  commentsApart :=
    match template.comments with
    | .stored _ => true
    | _ => false

end Package

end Imprint.Document
