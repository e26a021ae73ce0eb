import Imprint.Command.Console
import Imprint.Command.Source
import Imprint.Stamping.Stamper

set_option autoImplicit false

/-!
# The command

The command stamps data from a file into a template and tells what it did.  Everything it reads comes
from a directory, and everything it tells and writes is its report.  The stamped document is written before
its errors are told, so that a console which refuses to show them makes the command fail with the document
in its place.
-/

namespace Imprint.Command

open Document

/-- What a run tells and writes. -/
structure Report where
  exit : Nat
  output : List String
  diagnostics : List String
  written : Option (Path × Package)
deriving Inhabited

/-- How a run ends. -/
inductive Outcome where
  /-- Help was asked for. -/
  | help
  | refused (refusal : Refusal)
  | done (report : Report)
deriving Inhabited

/-- The lines of a printed message. -/
def printed (message : String) : List String :=
  (Text.lines false [] (message.toList ++ ['\n'])).map String.ofList

/-- The message about a refused command line. -/
def refusalMessage (refusal : Refusal) : String :=
  "stamp_docx.py: error: " ++ refusal.message

/-- A line across. -/
def ruler : String := String.ofList (List.replicate 50 '-')

/-- The path of the stamped document. -/
def Request.outputPath (request : Request) : Except Fault Path :=
  let template := Path.ofText request.template
  let standard := template.withName (template.stem ++ "_stamped.docx")
  match request.output with
  | some name => if name = "" then named template standard else .ok (Path.ofText name)
  | none => named template standard
where
  /-- Only a template with a name has a standard output. -/
  named (template standard : Path) : Except Fault Path :=
    if template.name = "" then
      .error (.valueError ("PosixPath(" ++ Text.quote template.text ++ ") has an empty name"))
    else .ok standard

/-- The messages in front of a run. -/
def announcement (request : Request) (template output : Path) : List String :=
  ["Template: " ++ template.text, "Output to: " ++ output.text] ++
    if request.verbose then [ruler] else []

/-- Length to which expressions are shown. -/
def shownLength : Int := 60

/-- The message about an expression that was not resolved. -/
def errorMessage (expression reason : String) : String :=
  "  - " ++ String.ofList (Text.preview expression.toList shownLength) ++ ": " ++ reason

/-- The messages after a run. -/
def summary (errors : List (String × String)) : List String :=
  (if errors.isEmpty then []
    else "\nUnresolved expressions:" ::
      errors.map fun (expression, reason) => errorMessage expression reason) ++
  [ruler, "Completed: " ++ toString errors.length ++ " unresolved expression(s)"]

/-- The report of a run that failed after it had shown some messages and perhaps written a document. -/
def Report.failed (shown diagnostics : List String) (fault : Fault) (written : Option (Path × Package)) :
    Report :=
  ⟨1, shown.flatMap printed, diagnostics ++ printed ("Error: " ++ fault.message), written⟩

/-- Reads what a run needs besides the template. -/
def prepare (directory : Directory) (request : Request) : Heap (Configuration × Value) := do
  let configuration ← request.readConfiguration directory
  let data ← request.readData directory
  return (configuration, data)

/-- Makes the stamper and opens the template. -/
def openTemplate (directory : Directory) (template : Path) (configuration : Configuration) :
    Heap (Stamper × Package) := do
  let stamper ← Stamper.make configuration [] []
  let package ← directory.readDocument template
  return (stamper, package)

/-- Stamps and closes a document. -/
def stampDocument (stamper : Stamper) (data : Value) (directory : Directory) (output : Path) :
    Engine Package := do
  Engine.stamp stamper data
  directory.requireWritable output
  return Package.ofTemplate (← Engine.world).template (← Engine.forest)

/-- Carries out a request and tells about it on a console. -/
def carryOut (console : Console) (directory : Directory) (request : Request) (output : Path) : Report :=
  let template := Path.ofText request.template
  let (prepared, store) := (ExceptT.run (prepare directory request)).run .empty
  match prepared with
  | .error fault => .failed [] [] fault none
  | .ok (configuration, data) =>
    match console.tell [] (announcement request template output) with
    | (shown, some fault) => .failed shown [] fault none
    | (shown, none) =>
      let (opened, store) := (ExceptT.run (openTemplate directory template configuration)).run store
      match opened with
      | .error fault => .failed shown [] fault none
      | .ok (stamper, package) =>
          let start : Machine World := ⟨store, .ofPackage package Handler.standard []⟩
          let (stamped, machine) :=
            (ExceptT.run (stampDocument stamper data directory output)).run start
          let diagnostics := machine.outer.diagnostics.reverse
          match stamped with
          | .error fault => .failed shown diagnostics fault none
          | .ok package =>
              let written := some (output, package)
              match console.tell shown (summary machine.outer.session.errors) with
              | (shown, some fault) => .failed shown diagnostics fault written
              | (shown, none) => ⟨0, shown.flatMap printed, diagnostics, written⟩

/-- Runs the command in a directory, with a console to tell about it. -/
def runWith (console : Console) (directory : Directory) (words : List String) : Except Fault Outcome :=
  match Request.ofWords words with
  | .error .help => .ok .help
  | .error (.refused refusal) => .ok (.refused refusal)
  | .ok request => do
      let output ← request.outputPath
      return .done (carryOut console directory request output)

/-- Runs the command in a directory, with a console that shows everything. -/
def run (directory : Directory) (words : List String) : Except Fault Outcome :=
  runWith .unlimited directory words

end Imprint.Command
