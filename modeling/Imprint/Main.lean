import Imprint.Command.Help
import Imprint.Command.Program
import Imprint.Document.Notation

set_option autoImplicit false

/-!
# The command on a computer

Files are read before the command runs and written afterwards.  Documents are kept in JSON notation.
-/

namespace Imprint.Command

/-- The content of a file that can be read. -/
def readFile? (path : Path) : IO (Option String) := do
  try return some (← IO.FS.readFile path.text)
  catch _ => return none

/-- Whether there is a folder. -/
def isExistingFolder (path : Path) : IO Bool := do
  try
    let place ← IO.FS.realPath path.text
    place.isDir
  catch _ => return false

/-- The file with some content; documents are objects. -/
def File.ofContent (content : String) : File :=
  match Json.readWhole content.toList with
  | .ok (.object entries) =>
      if (entries.lookup "body").isSome then .document (Json.object entries).toPackage
      else .text content
  | _ => .text content

/-- The names of the texts that a request is about. -/
def Request.sources (request : Request) : List String :=
  request.data.toList ++ request.configuration.toList

/-- The files and folders that a request is about. -/
def Request.directory (request : Request) : IO Directory := do
  let mut files := []
  let template := Path.ofText request.template
  if let some content ← readFile? template then
    files := (template, File.ofContent content) :: files
  for name in request.sources do
    let path := Path.ofText name
    if let some content ← readFile? path then
      files := files ++ [(path, File.text content)]
  let output := (request.output.map Path.ofText).getD template
  let mut folders := []
  for path in [template, output, output.parent] ++ request.sources.map Path.ofText do
    if ← isExistingFolder path then
      folders := path :: folders
  return ⟨files, folders⟩

/-- The directory that a command line is about. -/
def directoryOf (words : List String) : IO Directory := do
  match Request.ofWords words with
  | .ok request => request.directory
  | .error _ => return ⟨[], []⟩

/-- Tells and writes what a run has to. -/
def Report.deliver (report : Report) : IO UInt32 := do
  report.output.forM IO.println
  report.diagnostics.forM IO.eprintln
  match report.written with
  | some (path, package) => IO.FS.writeFile path.text package.toJson.render
  | none => pure ()
  return UInt32.ofNat report.exit

end Imprint.Command

open Imprint Command

/-- Stamps data into a template. -/
def main (words : List String) : IO UInt32 := do
  match run (← directoryOf words) words with
  | .ok .help =>
      help.forM IO.println
      return 0
  | .ok (.refused refusal) =>
      usage.forM IO.eprintln
      IO.eprintln (refusalMessage refusal)
      return 2
  | .ok (.done report) => report.deliver
  | .error fault =>
      IO.eprintln (fault.label ++ ": " ++ fault.message)
      return 1
