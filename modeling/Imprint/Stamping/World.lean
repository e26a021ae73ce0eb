import Imprint.Capability
import Imprint.Document.Range
import Imprint.Expression.Evaluate

set_option autoImplicit false

/-!
# The state of a stamping run

Expressions are evaluated while the document is edited, and directives that expressions call record
what is to be done.  All of this works on one state: the document as a forest, the session with the
errors recorded so far, the handlers of directives, and what was written to the diagnostics.
-/

namespace Imprint

open Xml Document

/-- What belongs to one stamping run: recorded errors, paragraphs whose values have been resolved, the
comments of the document once they have been read, and those whose directive has been evaluated. -/
structure Session where
  errors : List (String × String)
  verbose : Bool
  resolved : List Nat
  comments : Option CommentStore
  consumed : List Comment
deriving Inhabited

/-- A session in which nothing has happened yet. -/
def Session.start (verbose : Bool) : Session := ⟨[], verbose, [], none, []⟩

/-- What a directive is evaluated for: a paragraph, perhaps a run of it, perhaps a comment. -/
structure Anchor where
  paragraph : Option Nat
  run : Option Nat
  comment : Option Comment
deriving Repr, Inhabited

/-- No paragraph, run or comment. -/
def Anchor.nowhere : Anchor := ⟨none, none, none⟩

/-- A repetition that has been asked for: the paragraph it starts at, the items, none if there is no
collection, and the paragraphs that are repeated for each of them. -/
structure PendingRepeat where
  anchor : Nat
  items : Option (List Value)
  templates : List Nat
deriving Inhabited

/-- A handler that records its calls: its name, the methods it has, whether it keeps no session and no
anchor of its own, whether it changes letters to upper case when it commits, and the paragraphs it was
called for. -/
structure Recorder where
  name : String
  methods : List String
  plain : Bool
  upper : Bool
  targets : List Nat
deriving Repr, Inhabited

/-- What a handler of directives does, with what it has been asked for so far. -/
inductive Duty where
  | repeatParagraphs (pending : List PendingRepeat)
  | display (paragraphs rows tables : List Nat)
  | replaceWord
  | record (recorder : Recorder)
deriving Inhabited

/-- A handler of directives: the interface it is registered under, what it is bound to, and whether it
takes part in a session. -/
structure Handler where
  interface : Interface
  anchor : Anchor
  inSession : Bool
  duty : Duty
deriving Inhabited

/-- What recording handlers tell. -/
inductive JournalEntry where
  | called (name method : String) (arguments : List Value) (paragraph : String)
      (run : Option String) (comment : Option (String × String))
  | committed (name : String) (inSession : Bool)
  | reset (name : String)
deriving Inhabited

/-- What happened in a stamping run: a directive was evaluated for an anchor on some values, a value was
evaluated for a paragraph, a directive of a handler was called, a handler was let carry out what it was
asked for, a repetition was carried out with some new paragraphs, or a comment was deleted. -/
inductive Event where
  | directive (anchor : Anchor) (expression : String) (data : Store) (succeeded : Bool)
  | value (paragraph : Nat) (expression : String) (succeeded : Bool)
  | called (handler : Nat) (method : String)
  | committed (handler : Nat)
  | repeated (pending : PendingRepeat) (new : List Nat)
  | deleted (id : String)
deriving Inhabited

/-- The state of a stamping run apart from values. -/
structure World where
  forest : Forest
  template : Template
  session : Session
  handlers : List Handler
  /-- Names that are set up for every expression besides the builtins. -/
  additional : Expression.Scope
  /-- Whether expressions have been set up. -/
  configured : Bool
  /-- Lines written to the diagnostics, last one first. -/
  diagnostics : List String
  /-- What recording handlers told, last entry first. -/
  journal : List JournalEntry
  /-- What happened, last event first. -/
  events : List Event := []
  /-- The programs that are kept of expressions, last one first. -/
  compiled : List Expression.Compiled := []
deriving Inhabited

/-- The names that every expression can use at this moment besides the builtins. -/
def World.globals (world : World) : Expression.Scope :=
  if world.configured then world.additional else []

/-- Computations of a stamping run.  A fault keeps what has been done so far. -/
abbrev Engine (α : Type) : Type := Action World α

namespace Engine

/-- The state apart from values. -/
def world : Engine World := return (← getThe (Machine World)).outer

/-- Changes the state apart from values. -/
def change (update : World → World) : Engine Unit :=
  modifyThe (Machine World) fun machine => { machine with outer := update machine.outer }

/-- The forest. -/
def forest : Engine Forest := return (← world).forest

/-- Changes the forest. -/
def changeForest (update : Forest → Forest) : Engine Unit :=
  change fun world => { world with forest := update world.forest }

/-- Changes the session. -/
def changeSession (update : Session → Session) : Engine Unit :=
  change fun world => { world with session := update world.session }

/-- Writes text to the diagnostics. -/
def say (message : List Char) : Engine Unit :=
  change fun world => { world with
    diagnostics := ((Text.lines false [] (message ++ ['\n'])).map String.ofList).reverse ++
      world.diagnostics }

/-- Records an error that does not end the run. -/
def recordError (expression reason action : String) : Engine Unit := do
  changeSession fun session => { session with errors := session.errors ++ [(expression, reason)] }
  if (← world).session.verbose then
    say ("  [Skip] " ++ action ++ " '" ++ expression ++ "': " ++ reason).toList

/-- Runs a computation in a session of its own that is forgotten afterwards. -/
def inThrowawaySession {α : Type} (verbose : Bool) (body : Engine α) : Engine α := do
  let kept := (← world).session
  changeSession fun _ => Session.start verbose
  try
    let result ← body
    changeSession fun _ => kept
    pure result
  catch fault =>
    changeSession fun _ => kept
    throw fault

/-- The node with a key; it is empty if there is none. -/
def node (key : Nat) : Engine Node := do
  return ((← forest).find? key).getD (.mk key (.comment "") "" [] "")

/-- The text of a paragraph. -/
def textOf (paragraph : Nat) : Engine String := do
  return String.ofList (paragraphText (← node paragraph))

/-- Changes the handler with a place among the handlers. -/
def changeHandler (index : Nat) (update : Handler → Handler) : Engine Unit :=
  change fun world => { world with handlers := world.handlers.modify index update }

/-- Adds to what recording handlers tell. -/
def tell (entry : JournalEntry) : Engine Unit :=
  change fun world => { world with journal := entry :: world.journal }

/-- Notes what happened. -/
def note (event : Event) : Engine Unit :=
  change fun world => { world with events := event :: world.events }

/-- The values at this moment. -/
def data : Engine Store :=
  return (← getThe (Machine World)).store

/-- Sets the text of a run.  If the text cannot be written, the run is left without any. -/
def writeRun (run : Nat) (letters : List Char) : Engine Unit := do
  match requireWritable letters with
  | .ok _ => changeForest fun forest => forest.edit run fun node => setRunText node letters
  | .error fault =>
      changeForest fun forest => forest.edit run withoutText
      throw fault

end Engine

end Imprint
