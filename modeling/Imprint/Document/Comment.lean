import Imprint.Document.Template

set_option autoImplicit false

/-!
# Comments

Comments carry directives.  A store holds the comments of a template that are still pending.  Once a
directive has been carried out its comment is removed from the store, and deleted from the document
at the end: its range markers and references in all sections, and the comment itself.
-/

namespace Imprint.Document

open Xml

/-- A comment: its identifier, its text, and the element that holds it. -/
structure Comment where
  id : String
  text : String
  element : Option Nat
deriving DecidableEq, Repr, Inhabited

/-- The identifier of a comment or of one of its markers. -/
def identifier? (node : Node) : Option String :=
  node.attribute? Tag.identifier

/-- The pending comments of a template.  `root` is the tree the comments were read from, and `dirty`
tells that it has changed since it was last saved. -/
structure CommentStore where
  pending : List Comment
  root : Option Nat
  dirty : Bool
deriving DecidableEq, Repr, Inhabited

namespace CommentStore

/-- The text of a comment: its paragraphs on a line each, without blanks around them. -/
def commentText (element : Node) : String :=
  let lines := (element.withTag Tag.paragraph).map paragraphText
  String.ofList (Text.trim (Text.joinWith ['\n'] lines))

/-- Adds a comment; a later one with the same identifier takes the place of an earlier one. -/
def insert (comment : Comment) : List Comment → List Comment
  | [] => [comment]
  | first :: rest => if first.id = comment.id then comment :: rest else first :: insert comment rest

/-- The comments in a tree. -/
def read (tree : Node) : List Comment :=
  (tree.withTag Tag.comment).foldl (fun found element =>
    match identifier? element with
    | some id => insert ⟨id, commentText element, some element.key⟩ found
    | none => found) []

/-- Reads the comments of a template.  A part that is kept on its own is read from a copy of it. -/
def load (forest : Forest) (template : Template) : CommentStore × Forest :=
  let ofRoot (root : Nat) (forest : Forest) : CommentStore × Forest :=
    match forest.find? root with
    | some tree => (⟨read tree, some root, false⟩, forest)
    | none => (⟨[], none, false⟩, forest)
  match template.comments with
  | .none => (⟨[], none, false⟩, forest)
  | .live root => ofRoot root forest
  | .stored tree =>
      let (root, forest) := forest.plant tree
      ofRoot root forest

/-- The pending comment with an identifier. -/
def lookup (store : CommentStore) (id : String) : Option Comment :=
  store.pending.find? fun comment => comment.id == id

/-- Takes a comment out of the pending ones. -/
def remove (store : CommentStore) (id : String) : CommentStore :=
  { store with pending := store.pending.filter fun comment => comment.id != id }

/-- The identifiers of the pending comments. -/
def pendingIds (store : CommentStore) : List String :=
  store.pending.map (·.id)

end CommentStore

/-! ## Deleting the traces of a comment -/

/-- Whether a node is a marker or a reference of a kind that belongs to a comment. -/
def isTraceOf (id : String) (tag : Tag) (node : Node) : Bool :=
  node.hasTag tag && identifier? node == some id

/-- The keys of the traces of a comment of a kind in a section, in document order. -/
def tracesOf (forest : Forest) (root : Nat) (id : String) (tag : Tag) : List Nat :=
  match forest.find? root with
  | none => []
  | some tree => (tree.selfAndBelow.filter (isTraceOf id tag)).map Node.key

/-- Whether a run holds nothing but run properties and references to comments. -/
def holdsOnlyReferences (run : Node) : Bool :=
  run.hasTag Tag.run && run.children.all fun child =>
    child.hasTag Tag.runProperties || child.hasTag Tag.reference

/-- Takes a reference out of the document, with its run if that is only there for references. -/
def eraseReference (forest : Forest) (reference : Nat) : Forest :=
  match forest.parent? reference with
  | none => forest
  | some run => forest.detach (if holdsOnlyReferences run then run.key else reference)

/-- Takes the markers and references of a comment out of a section. -/
def eraseTraces (id : String) (forest : Forest) (root : Nat) : Forest :=
  let forest := (tracesOf forest root id Tag.rangeStart).foldl Forest.detach forest
  let forest := (tracesOf forest root id Tag.rangeEnd).foldl Forest.detach forest
  (tracesOf forest root id Tag.reference).foldl eraseReference forest

/-- Deletes a comment from the sections and from the tree of comments. -/
def CommentStore.delete (store : CommentStore) (forest : Forest) (template : Template)
    (comment : Comment) : CommentStore × Forest :=
  let store := store.remove comment.id
  let forest := template.roots.foldl (eraseTraces comment.id) forest
  match comment.element with
  | none => (store, forest)
  | some element =>
      match forest.parent? element with
      | none => (store, forest)
      | some _ => ({ store with dirty := true }, forest.detach element)

/-- Puts a changed copy of the comments back into the template. -/
def CommentStore.save (store : CommentStore) (forest : Forest) (template : Template) :
    CommentStore × Template :=
  match store.root with
  | none => (store, template)
  | some root =>
      if store.dirty then
        match template.comments, forest.find? root with
        | .stored _, some tree =>
            ({ store with dirty := false }, { template with comments := .stored tree })
        | _, _ => ({ store with dirty := false }, template)
      else (store, template)

end Imprint.Document
