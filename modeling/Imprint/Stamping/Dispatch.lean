import Imprint.Stamping.Commit

set_option autoImplicit false

/-!
# Dispatching directives

A dispatcher goes through the document once and evaluates the directives in it: those of comments
that belong to a run, those of comments that belong to a paragraph, and those inside of a paragraph's
text.  Then it lets every handler carry out what it was asked for, and deletes the comments whose
directive was evaluated.
-/

namespace Imprint

open Xml Document

/-- How directives are found and evaluated.  The replacer removes directives from the text. -/
structure Dispatcher where
  delimiters : Delimiters
  replacer : Replacer
  /-- Whether the first directive that cannot be evaluated ends the run. -/
  failing : Bool
  verbose : Bool
  settings : RepeatSettings
deriving Inhabited

namespace Engine

/-- Binds all handlers to what a directive is evaluated for. -/
def bindHandlers (anchor : Anchor) : Engine Unit :=
  change fun world => { world with
    handlers := world.handlers.map fun handler => { handler with anchor } }

/-- Lets all handlers that keep a session take part in the current one. -/
def joinSession : Engine Unit :=
  change fun world => { world with
    handlers := world.handlers.map fun handler =>
      if handler.isPlain then handler else { handler with inSession := true } }

/-- A builder with the methods of all handlers. -/
def withHandlers (builder : ProxyBuilder) : Engine ProxyBuilder := do
  (← world).handlers.zipIdx.foldlM (fun (builder : ProxyBuilder) (handler, index) =>
    builder.withInterface (.interface handler.interface) (handler.implementation index)) builder

/-- Evaluates a directive, and tells whether that was possible. -/
def evaluateDirective (dispatcher : Dispatcher) (builder : ProxyBuilder) (expression : String)
    (anchor : Anchor) : Engine Bool := do
  bindHandlers anchor
  let context ← (← withHandlers builder).build
  let event := Event.directive anchor expression (← data)
  match ← attempt dispatcher.failing (.proxy context) expression event with
  | .resolved _ =>
      if dispatcher.verbose then
        say ("  [Processed] ".toList ++ Text.preview expression.toList 60)
      return true
  | .unresolved expression reason =>
      recordError expression reason "directive"
      return false

/-- The pending comment with an identifier. -/
def pendingComment (id : Option String) : Engine (Option Comment) := do
  match id, (← world).session.comments with
  | some id, some store => return store.lookup id
  | _, _ => return none

/-- Evaluates the directive of a comment, if the comment is pending.  After that it is not pending any
more. -/
def runComment (dispatcher : Dispatcher) (builder : ProxyBuilder) (paragraph : Nat)
    (run : Option Nat) (id : Option String) : Engine Unit := do
  match ← pendingComment id with
  | none => return ()
  | some comment =>
      if ← evaluateDirective dispatcher builder comment.text ⟨some paragraph, run, some comment⟩ then
        changeSession fun session =>
          { session with
            comments := session.comments.map (·.remove comment.id)
            consumed := session.consumed ++ [comment] }

/-- Evaluates a directive inside of a paragraph's text, and removes it from the text after that. -/
def runToken (dispatcher : Dispatcher) (builder : ProxyBuilder) (paragraph : Nat)
    (token : List Char) : Engine Unit := do
  let expression := String.ofList (dispatcher.delimiters.strip token)
  if ← evaluateDirective dispatcher builder expression ⟨some paragraph, none, none⟩ then
    replace dispatcher.replacer paragraph token .null

/-- Evaluates the directives inside of a paragraph's text. -/
def runInline (dispatcher : Dispatcher) (builder : ProxyBuilder) (paragraph : Nat) :
    Engine Unit := do
  let tokens ← dispatcher.delimiters.tokens (paragraphText (← node paragraph))
  tokens.forM (runToken dispatcher builder paragraph)

/-- Evaluates the directive of a run. -/
def visitRun (dispatcher : Dispatcher) (builder : ProxyBuilder) (run paragraph : Nat) :
    Engine Unit := do
  runComment dispatcher builder paragraph (some run) (commentAroundRun (← forest) run)

/-- Evaluates the directives of a paragraph. -/
def visitParagraph (dispatcher : Dispatcher) (builder : ProxyBuilder) (paragraph : Nat) :
    Engine Unit := do
  runComment dispatcher builder paragraph none (commentForParagraph (← forest) paragraph)
  runInline dispatcher builder paragraph

/-- Evaluates the directives of the document. -/
def evaluateDirectives (dispatcher : Dispatcher) (builder : ProxyBuilder) : Engine Unit := do
  let roots := (← world).template.roots
  visit forest (visitParagraph dispatcher builder) (visitRun dispatcher builder) roots

/-- Lets a handler carry out what it was asked for. -/
def commitAt (dispatcher : Dispatcher) (index : Nat) : Engine Unit := do
  match (← world).handlers[index]? with
  | none => return ()
  | some handler =>
      if dispatcher.verbose then say ("  [Commit] " ++ handler.interface.name).toList
      note (.committed index)
      commitHandler dispatcher.settings handler

/-- Lets all handlers carry out what they were asked for, in order. -/
def commitHandlers (dispatcher : Dispatcher) : Engine Unit := do
  (List.range (← world).handlers.length).forM (commitAt dispatcher)

/-- Reads the comments of the document, unless the session has them already. -/
def loadComments : Engine Unit := do
  if (← world).session.comments.isNone then
    let (store, forest) := CommentStore.load (← forest) (← world).template
    changeForest fun _ => forest
    changeSession fun session => { session with comments := some store }

/-- Deletes a comment from the document. -/
def deleteComment (comment : Comment) : Engine Unit := do
  note (.deleted comment.id)
  match (← world).session.comments with
  | none => return ()
  | some store =>
      let (store, forest) := store.delete (← forest) (← world).template comment
      changeForest fun _ => forest
      changeSession fun session => { session with comments := some store }

/-- Puts changed comments back into the document. -/
def saveComments : Engine Unit := do
  match (← world).session.comments with
  | none => return ()
  | some store =>
      let (store, template) := store.save (← forest) (← world).template
      change fun world => { world with template }
      changeSession fun session => { session with comments := some store }

/-- Evaluates all directives, lets the handlers carry out what they were asked for, and deletes the
comments that were used up. -/
def runDirectives (dispatcher : Dispatcher) (builder : ProxyBuilder) : Engine Unit := do
  loadComments
  joinSession
  evaluateDirectives dispatcher builder
  commitHandlers dispatcher
  (← world).session.consumed.forM deleteComment
  saveComments

end Engine

end Imprint
