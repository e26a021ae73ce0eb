import Imprint.Stamping.World

set_option autoImplicit false

/-!
# Directives

Directives are methods that expressions can call.  A call only records what is to be done when the
whole document has been gone through; replacing the text of a run is the one thing done at once.
-/

namespace Imprint

open Xml Document

namespace Handler

/-- The interface of repetitions. -/
def repeatInterface : Interface := ⟨"IParagraphRepeatProcessor", ["repeat_paragraph"]⟩

/-- The interface of conditions. -/
def displayInterface : Interface :=
  ⟨"IDisplayIfProcessor", ["display_paragraph_if", "display_table_row_if", "display_table_if"]⟩

/-- The interface of replaced words. -/
def replaceInterface : Interface := ⟨"IReplaceWithProcessor", ["replace_word_with"]⟩

/-- A handler that has not been asked for anything. -/
def fresh (interface : Interface) (duty : Duty) : Handler :=
  ⟨interface, .nowhere, false, duty⟩

/-- The handler of repetitions. -/
def repetition : Handler := fresh repeatInterface (.repeatParagraphs [])

/-- The handler of conditions. -/
def condition : Handler := fresh displayInterface (.display [] [] [])

/-- The handler of replaced words. -/
def replacement : Handler := fresh replaceInterface .replaceWord

/-- The handlers of every stamper. -/
def standard : List Handler := [repetition, condition, replacement]

/-- The class name of a handler. -/
def className (handler : Handler) : String :=
  match handler.duty with
  | .repeatParagraphs _ => "ParagraphRepeatProcessor"
  | .display .. => "DisplayIfProcessor"
  | .replaceWord => "ReplaceWithProcessor"
  | .record recorder => if recorder.plain then "PlainRecorder" else "Recorder"

/-- Whether a handler keeps no session. -/
def isPlain (handler : Handler) : Bool :=
  match handler.duty with
  | .record recorder => recorder.plain
  | _ => false

/-- The methods that a handler has. -/
def methods (handler : Handler) : List String :=
  match handler.duty with
  | .record recorder => recorder.methods
  | _ => handler.interface.methods

/-- A handler as the implementation of its interface. -/
def implementation (handler : Handler) (index : Nat) : Implementation :=
  ⟨.handler index, handler.className,
    handler.methods.map fun method => (method, .function (.directive index method))⟩

end Handler

/-- Puts a handler in the place of one with the same interface, or at the end. -/
def registerHandler (handler : Handler) : List Handler → List Handler
  | [] => [handler]
  | other :: rest =>
      if other.interface.name = handler.interface.name then handler :: rest
      else other :: registerHandler handler rest

/-- The nearest element of a name around a node. -/
def enclosing (forest : Forest) (tag : Tag) (key : Nat) : Option Nat :=
  ((forest.ancestors key).find? (Node.hasTag tag)).map Node.key

/-- Adds a key at the end unless it is there. -/
def addOnce (key : Nat) (keys : List Nat) : List Nat :=
  if keys.contains key then keys else keys ++ [key]

/-- Puts a repetition in the place of an earlier one at the same paragraph, or at the end. -/
def setPending (new : PendingRepeat) : List PendingRepeat → List PendingRepeat
  | [] => [new]
  | pending :: rest =>
      if pending.anchor = new.anchor then new :: rest else pending :: setPending new rest

namespace Engine

/-- The only argument of a directive. -/
def soleArgument (label parameter : String) (arguments : Arguments) : Engine Value := do
  let signature := Signature.fixed label ["self", parameter] []
  let binding ← signature.bind { arguments with positional := .null :: arguments.positional }
  return ((binding.values.drop 1).head?.getD none).getD .null

/-- Asks for the paragraphs of the comment's range to be repeated. -/
def askRepeat (index : Nat) (anchor : Anchor) (items : Value) : Engine Unit := do
  match anchor.paragraph with
  | none => return ()
  | some paragraph =>
      let items ← match items with
        | .null => pure none
        | other => do pure (some (← other.items))
      let range := commentRange (← forest) paragraph (anchor.comment.map (·.id))
      let new : PendingRepeat := ⟨paragraph, items, range.paragraphs.map Node.key⟩
      changeHandler index fun handler =>
        match handler.duty with
        | .repeatParagraphs pending =>
            { handler with duty := .repeatParagraphs (setPending new pending) }
        | _ => handler

/-- Asks for a paragraph, or the row or table around it, to be removed, if the condition is false. -/
def askDisplay (index : Nat) (anchor : Anchor) (method : String) (condition : Value) :
    Engine Unit := do
  if ← condition.truth then return ()
  match anchor.paragraph with
  | none => return ()
  | some paragraph =>
      let forest ← forest
      changeHandler index fun handler =>
        match handler.duty with
        | .display paragraphs rows tables =>
            let duty := match method with
              | "display_paragraph_if" => .display (addOnce paragraph paragraphs) rows tables
              | "display_table_row_if" =>
                  match enclosing forest Tag.row paragraph with
                  | some row => .display paragraphs (addOnce row rows) tables
                  | none => handler.duty
              | _ =>
                  match enclosing forest Tag.table paragraph with
                  | some table => .display paragraphs rows (addOnce table tables)
                  | none => handler.duty
            { handler with duty }
        | _ => handler

/-- Replaces the text of the run. -/
def replaceWord (anchor : Anchor) (value : Value) : Engine Unit := do
  match value, anchor.run with
  | .null, _ => return ()
  | _, none => return ()
  | other, some run => do writeRun run (← other.plain)

/-- Records a call. -/
def recordCall (index : Nat) (anchor : Anchor) (recorder : Recorder) (method : String)
    (values : List Value) : Engine Unit := do
  match anchor.paragraph with
  | some paragraph =>
      changeHandler index fun handler =>
        { handler with
          duty := .record { recorder with targets := addOnce paragraph recorder.targets } }
  | none => pure ()
  let paragraph ← match anchor.paragraph with
    | some paragraph => textOf paragraph
    | none => pure ""
  let run ← match anchor.run with
    | some run => do pure (some (String.ofList (runText (← node run))))
    | none => pure none
  tell (.called recorder.name method values paragraph run
    (anchor.comment.map fun comment => (comment.id, comment.text)))

/-- Lets a handler do what one of its directives asks for. -/
def performDirective (handler : Handler) (index : Nat) (method : String) (arguments : Arguments) :
    Engine Unit := do
  let label := handler.className ++ "." ++ method
  match handler.duty with
  | .repeatParagraphs _ => askRepeat index handler.anchor (← soleArgument label "items" arguments)
  | .display .. =>
      askDisplay index handler.anchor method (← soleArgument label "condition" arguments)
  | .replaceWord => replaceWord handler.anchor (← soleArgument label "value" arguments)
  | .record recorder =>
      let binding ← (⟨"record", [], true, false⟩ : Signature).bind arguments
      recordCall index handler.anchor recorder method binding.rest

/-- Calls a directive of a handler. -/
def callDirective (index : Nat) (method : String) (arguments : Arguments) : Engine Value := do
  note (.called index method)
  match (← world).handlers[index]? with
  | none => return .null
  | some handler =>
      performDirective handler index method arguments
      return .null

/-- The program of an expression: the one of an earlier time, or a new one, which is kept. -/
def compile (letters : List Char) : Engine Expression.Program := do
  match (← world).compiled.find? (·.letters == letters) with
  | some entry => return entry.program
  | none =>
      let program ← Expression.compile letters
      change fun world => { world with compiled := ⟨letters, program⟩ :: world.compiled }
      return program

/-- The value of an expression in a context.  Expressions are set up before the first of them is compiled. -/
def resolve (context : Context) (expression : String) : Engine Value := do
  if !Expression.isBlankExpression expression then
    change fun world => { world with configured := true }
  let globals := (← world).globals
  Expression.resolveBy compile ⟨context, globals, callDirective⟩ expression

end Engine

end Imprint
