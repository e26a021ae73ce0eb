import Imprint.Document.Package
import Imprint.Stamping.Configuration
import Imprint.Stamping.Dispatch

set_option autoImplicit false

/-!
# Stamping

A stamper fills templates with data.  One stamping run evaluates the directives of the template, carries
out what they asked for, and replaces the values that are left.  Afterwards all handlers forget what
they were asked for, whether the run succeeded or not, so that nothing is carried over to the next.
-/

namespace Imprint

open Xml Document

/-- What stamps templates. -/
structure Stamper where
  replacer : Replacer
  dispatcher : Dispatcher
  /-- The capabilities that every expression can use, directives aside. -/
  functions : ProxyBuilder
  verbose : Bool
deriving Inhabited

/-- Registers capabilities one after the other. -/
def ProxyBuilder.withInterfaces (builder : ProxyBuilder) :
    List (InterfaceRef × Implementation) → Heap ProxyBuilder
  | [] => return builder
  | (interface, implementation) :: rest => do
      let builder ← builder.withInterface interface implementation
      builder.withInterfaces rest

/-- Registers renderers one after the other. -/
def Renderers.withAll (renderers : Renderers) (new : List (ValueType × Renderer)) : Renderers :=
  new.foldl (fun renderers (type, renderer) => renderers.register type renderer) renderers

namespace Stamper

/-- Makes a stamper, if its configuration allows it. -/
def make (configuration : Configuration) (renderers : List (ValueType × Renderer))
    (functions : List (InterfaceRef × Implementation)) : Heap Stamper := do
  configuration.validate
  let renderers := (Renderers.standard configuration.datePattern).withAll renderers
  let delimiters ← Delimiters.make configuration.variable_.opening configuration.variable_.closing
  let replacer ← Replacer.make renderers delimiters configuration.replacement
  let functions ← (ProxyBuilder.ofRoot .null).withInterfaces functions
  let directives ← Delimiters.make configuration.processor.opening configuration.processor.closing
  let settings : RepeatSettings :=
    ⟨replacer, functions, replacer.replaceNull, replacer.nullDefault⟩
  let dispatcher : Dispatcher :=
    ⟨directives, replacer, replacer.failing, replacer.verbose, settings⟩
  return ⟨replacer, dispatcher, functions, replacer.verbose⟩

end Stamper

/-- The state before a stamping run on a package. -/
def World.ofPackage (package : Package) (handlers : List Handler) (additional : Expression.Scope) :
    World :=
  let (template, forest) := package.openIn .empty
  { forest, template, handlers, additional
    session := .start false
    configured := false
    diagnostics := []
    journal := [] }

namespace Engine

/-- The capabilities of expressions in front of the data. -/
def dataContext (stamper : Stamper) (data : Value) : Engine Context := do
  return .proxy (← (stamper.functions.copy data).build)

/-- Evaluates the directives and replaces the values of a template. -/
def fill (stamper : Stamper) (data : Value) : Engine Unit := do
  runDirectives stamper.dispatcher (stamper.functions.copy data)
  resolveDocument stamper.replacer fun _ => dataContext stamper data

/-- Stamps data into the template in a new session. -/
def stamp (stamper : Stamper) (data : Value) : Engine Unit := do
  changeSession fun _ => Session.start stamper.verbose
  loadComments
  if stamper.verbose then
    let count := (((← world).session.comments.map CommentStore.pendingIds).getD []).length
    say ("[Stamp] " ++ toString count ++ " comment(s) in template").toList
  try fill stamper data
  catch fault =>
    resetHandlers
    throw fault
  resetHandlers

end Engine

end Imprint
