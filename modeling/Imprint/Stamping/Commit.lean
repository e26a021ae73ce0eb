import Imprint.Stamping.Replacement

set_option autoImplicit false

/-!
# Committing

What directives asked for is carried out when the whole document has been gone through: repeated
paragraphs are resolved against their items and put in front of their anchor, and the paragraphs,
rows and tables whose condition was false are removed.  An edit of something that an earlier edit
already took out of its tree is refused.
-/

namespace Imprint

open Xml Document

/-- What repetitions are carried out with: the replacer, the capabilities that the items get in front
of them, and what stands for a missing collection. -/
structure RepeatSettings where
  replacer : Replacer
  functions : ProxyBuilder
  replaceNull : Bool
  nullDefault : Value
deriving Inhabited

namespace RepeatSettings

/-- Repetitions without any capability or default. -/
def ofReplacer (replacer : Replacer) : RepeatSettings :=
  ⟨replacer, .ofRoot .null, false, .null⟩

/-- The paragraphs that stand for a missing collection at an anchor. -/
def paragraphsForNull (settings : RepeatSettings) (anchor : Node) : Heap (List Node) := do
  match settings.replaceNull, settings.nullDefault with
  | false, _ => return []
  | true, .null => return []
  | true, content =>
      return [Node.ofTag Tag.paragraph [← runOfPieces content (markProperties anchor)]]

end RepeatSettings

/-- Whether a paragraph is the last one in its cell, which must not be without any. -/
def isOnlyParagraphOfCell (parent : Node) : Bool :=
  parent.hasTag Tag.cell && (parent.children.filter (Node.hasTag Tag.paragraph)).length == 1

/-- A paragraph without anything but its properties. -/
def emptied (paragraph : Node) : Node :=
  paragraph.withChildren (paragraph.children.filter (Node.hasTag Tag.paragraphProperties))

mutual

/-- A node with the text elements at and below it in upper case. -/
def withUpperCase : Node → Node
  | .mk key label lead children tail =>
      let isText := (Node.mk key label lead [] tail).hasTag Tag.text_
      .mk key label (if isText then String.ofList (Text.upper lead.toList) else lead)
        (withUpperCaseAll children) tail

/-- Nodes with the text elements at and below them in upper case. -/
def withUpperCaseAll : List Node → List Node
  | [] => []
  | node :: rest => withUpperCase node :: withUpperCaseAll rest

end

namespace Engine

/-- Runs a computation in the session, or in one that is forgotten, for what takes part in none. -/
def inSessionOf {α : Type} (handler : Handler) (verbose : Bool) (body : Engine α) : Engine α :=
  if handler.inSession then body else inThrowawaySession verbose body

/-- Whether a handler tells what it does. -/
def isVerbose (handler : Handler) : Engine Bool :=
  return handler.inSession && (← world).session.verbose

/-- A copy of a tree, as a root in the forest. -/
def plantTree (tree : Node) : Engine Nat := do
  let (key, forest) := (← forest).plant tree
  changeForest fun _ => forest
  return key

/-- A copy of a node in the forest. -/
def plantCopy (source : Nat) : Engine Nat := do
  plantTree (← node source)

/-! ## Repetitions -/

/-- A copy of a template that is resolved against an item. -/
def copyForItem (settings : RepeatSettings) (handler : Handler) (context : Context)
    (template : Nat) : Engine Nat := do
  let copy ← plantCopy template
  inSessionOf handler settings.replacer.verbose
    (resolveParagraph settings.replacer (fun _ => return context) copy)
  return copy

/-- The copies of some templates for an item. -/
def copiesForItem (settings : RepeatSettings) (handler : Handler) (templates : List Nat)
    (item : Value) : Engine (List Nat) := do
  let context ← (settings.functions.copy item).build
  templates.mapM (copyForItem settings handler (.proxy context))

/-- What takes the place of the templates of a repetition. -/
def repetitionOf (settings : RepeatSettings) (handler : Handler) (pending : PendingRepeat) :
    Engine (List Nat) := do
  match pending.items with
  | none =>
      let paragraphs ← settings.paragraphsForNull (← node pending.anchor)
      paragraphs.mapM plantTree
  | some items =>
      return (← items.mapM (copiesForItem settings handler pending.templates)).flatten

/-- An anchor that was taken out of its tree. -/
def anchorRemoved : Fault :=
  .detached ("repeat_paragraph anchor was removed before its commit " ++
    "(nested inside another repeated range?)")

/-- Carries out a repetition. -/
def commitRepeat (settings : RepeatSettings) (handler : Handler) (pending : PendingRepeat) :
    Engine Unit := do
  if ((← forest).parent? pending.anchor).isNone then throw anchorRemoved
  let new ← repetitionOf settings handler pending
  note (.repeated pending new)
  new.forM fun paragraph =>
    changeForest fun forest => forest.moveBefore paragraph pending.anchor
  pending.templates.forM fun template =>
    changeForest fun forest => forest.detach template
  if ← isVerbose handler then
    let count := match pending.items with
      | none => "None"
      | some items => toString items.length
    say ("  [Repeat] " ++ toString pending.templates.length ++ " paragraph(s) x " ++ count ++
      " item(s)").toList

/-- What the handler of an interface has been asked to repeat so far. -/
def pendingRepeats (interface : Interface) : Engine (List PendingRepeat) := do
  match (← world).handlers.find? fun handler => handler.interface.name == interface.name with
  | some { duty := .repeatParagraphs pending, .. } => return pending
  | _ => return []

/-- A repetition was asked for while others were carried out. -/
def pendingChanged : Fault :=
  .error .runtime "dictionary changed size during iteration"

/-- Carries out the repetition at a position, unless there are more or fewer by now than there were. -/
def commitPosition (settings : RepeatSettings) (handler : Handler) (size position : Nat) :
    Engine Unit := do
  let pending ← pendingRepeats handler.interface
  if pending.length ≠ size then throw pendingChanged
  match pending[position]? with
  | some pending => commitRepeat settings handler pending
  | none => return ()

/-- Carries out all repetitions, in order.  That there are more or fewer is noticed at the end as well. -/
def commitRepeats (settings : RepeatSettings) (handler : Handler) (size : Nat) : Engine Unit :=
  (List.range (size + 1)).forM (commitPosition settings handler size)

/-! ## Conditions -/

/-- Removes a paragraph.  The only paragraph of a cell stays, but loses what it holds. -/
def removeParagraph (paragraph : Nat) : Engine Unit := do
  match (← forest).parent? paragraph with
  | none => throw (.detached "display_paragraph_if target is no longer in the document")
  | some parent =>
      changeForest fun forest =>
        if isOnlyParagraphOfCell parent then forest.edit paragraph emptied
        else forest.detach paragraph

/-- Removes a row or a table. -/
def removeElement (element : Nat) : Engine Unit := do
  match (← forest).parent? element with
  | none =>
      let name := match (← node element).tag? with
        | some tag => tag.fullText
        | none => ""
      throw (.detached ("display_if target " ++ name ++ " is no longer in the document"))
  | some _ => changeForest fun forest => forest.detach element

/-- Removes what conditions asked for. -/
def commitDisplay (handler : Handler) (paragraphs rows tables : List Nat) : Engine Unit := do
  paragraphs.forM removeParagraph
  (rows ++ tables).forM removeElement
  if ← isVerbose handler then
    say ("  [DisplayIf] removed " ++ toString paragraphs.length ++ " paragraph(s), " ++
      toString rows.length ++ " row(s), " ++ toString tables.length ++ " table(s)").toList

/-! ## Handlers -/

/-- Carries out what a handler was asked for. -/
def commitHandler (settings : RepeatSettings) (handler : Handler) : Engine Unit := do
  match handler.duty with
  | .repeatParagraphs pending => commitRepeats settings handler pending.length
  | .display paragraphs rows tables => commitDisplay handler paragraphs rows tables
  | .replaceWord => return ()
  | .record recorder => do
      tell (.committed recorder.name handler.inSession)
      if recorder.upper then
        recorder.targets.forM fun target =>
          changeForest fun forest => forest.update target withUpperCase

/-- A handler that has forgotten everything it was asked for. -/
def forgetful (handler : Handler) : Handler :=
  let duty := match handler.duty with
    | .repeatParagraphs _ => .repeatParagraphs []
    | .display .. => .display [] [] []
    | .replaceWord => .replaceWord
    | .record recorder => .record { recorder with targets := [] }
  { handler with anchor := .nowhere, inSession := false, duty }

/-- Makes a handler forget everything. -/
def resetHandler (index : Nat) : Engine Unit := do
  match (← world).handlers[index]? with
  | none => return ()
  | some handler =>
      match handler.duty with
      | .record recorder => tell (.reset recorder.name)
      | _ => pure ()
      changeHandler index forgetful

/-- Makes all handlers forget everything. -/
def resetHandlers : Engine Unit := do
  (List.range (← world).handlers.length).forM resetHandler

end Engine

end Imprint
