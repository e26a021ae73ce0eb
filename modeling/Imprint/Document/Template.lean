import Imprint.Document.Paragraph
import Imprint.Xml.Forest

set_option autoImplicit false

/-!
# Templates

A template has a body, headers and footers, and perhaps a part with comments.  The body and every
header and footer are trees of a forest.  Several headers or footers may share one tree; it counts
once.  Paragraphs are gone through in the order headers, body, footers.
-/

namespace Imprint.Document

open Xml

/-- A header or footer. -/
inductive Section where
  | tree (root : Nat)
  /-- A part that is no tree. -/
  | raw
  /-- A part outside of the document. -/
  | external
deriving DecidableEq, Repr, Inhabited

/-- The root of a header or footer that is a tree. -/
def Section.root? : Section → Option Nat
  | tree root => some root
  | _ => none

/-- The comments of a template. -/
inductive CommentsPart where
  | none
  /-- A tree of the forest, whose changes show at once. -/
  | live (root : Nat)
  /-- A tree that is kept on its own and only replaced as a whole. -/
  | stored (tree : Node)
deriving Repr, Inhabited

/-- The parts of a template. -/
structure Template where
  body : Nat
  headers : List Section
  footers : List Section
  comments : CommentsPart
deriving Repr, Inhabited

/-- The roots of all sections: headers, body, footers, each once. -/
def Template.roots (template : Template) : List Nat :=
  (template.headers.filterMap Section.root? ++ template.body ::
    template.footers.filterMap Section.root?).eraseDups

/-- The paragraphs at or below some nodes, in document order. -/
def paragraphsBelow (forest : Forest) (roots : List Nat) : List Nat :=
  roots.flatMap fun root =>
    match forest.find? root with
    | some tree => (tree.withTag Tag.paragraph).map Node.key
    | none => []

/-- The direct runs of a paragraph. -/
def runsOf (forest : Forest) (paragraph : Nat) : List Nat :=
  match forest.find? paragraph with
  | some node => (runs node).map Node.key
  | none => []

/-- Visits every run of some paragraphs, and each paragraph after its runs.  The runs are those that a
paragraph has when its visit begins, so a visitor may change the runs of the paragraph. -/
def visitParagraphs {m : Type → Type} [Monad m] (forest : m Forest) (onParagraph : Nat → m Unit)
    (onRun : Nat → Nat → m Unit) : List Nat → m Unit
  | [] => return ()
  | paragraph :: rest => do
      let runs := runsOf (← forest) paragraph
      runs.forM fun run => onRun run paragraph
      onParagraph paragraph
      visitParagraphs forest onParagraph onRun rest

/-- Visits every paragraph at or below some nodes, and its runs before it. -/
def visit {m : Type → Type} [Monad m] (forest : m Forest) (onParagraph : Nat → m Unit)
    (onRun : Nat → Nat → m Unit) (roots : List Nat) : m Unit := do
  visitParagraphs forest onParagraph onRun (paragraphsBelow (← forest) roots)

end Imprint.Document
