import Imprint.Command.Directory
import Imprint.Command.Request
import Imprint.Json.Reader
import Imprint.Stamping.Configuration

set_option autoImplicit false

/-!
# Configuration and data from files

Both are read as JSON.  Line ends of any kind count as line feeds, so that trouble is reported at the
line where an editor shows it.
-/

namespace Imprint.Command

/-- The text with line feeds for all line ends. -/
def withLineFeeds : List Char → List Char
  | '\r' :: '\n' :: rest => '\n' :: withLineFeeds rest
  | '\r' :: rest => '\n' :: withLineFeeds rest
  | letter :: rest => letter :: withLineFeeds rest
  | [] => []

/-- The fault for trouble with a text.  Where a text is malformed, `introduction` is put in front of the
message. -/
def faultOf (introduction : String) (letters : List Char) (trouble : Json.Trouble) : Fault :=
  match trouble with
  | .malformed .. => .valueError (introduction ++ trouble.message letters)
  | .tooManyDigits _ => .valueError (trouble.message letters)

namespace Directory

/-- The value of a JSON file. -/
def readValue (directory : Directory) (introduction shown : String) : Heap Value := do
  let content ← (directory.readText shown : Except Fault String)
  let letters := withLineFeeds content.toList
  let json ← (Json.readWhole letters).mapError (faultOf introduction letters)
  json.toValue

/-- The configuration that a file describes. -/
def readConfiguration (directory : Directory) (shown : String) : Heap Configuration := do
  let data ← directory.readValue ("Invalid JSON in " ++ shown ++ ": ") shown
  Configuration.ofValue data

end Directory

namespace Request

/-- The configuration with the switches of a request. -/
def configure (request : Request) (configuration : Configuration) : Configuration :=
  let set (present : Bool) (options : List (String × Value)) (configuration : Configuration) :=
    if present then options.foldl (fun configuration (name, value) => configuration.set name value)
      configuration
    else configuration
  let text (value : Option String) : Value := .text (value.getD "")
  configuration
    |> set request.lenient [("fail_on_unresolved_expression", .bool false)]
    |> set request.leaveEmpty [("leave_empty_on_expression_error", .bool true),
      ("replace_unresolved_expressions", .bool false)]
    |> set request.unresolvedDefault.isSome [("replace_unresolved_expressions", .bool true),
      ("leave_empty_on_expression_error", .bool false),
      ("unresolved_expressions_default", text request.unresolvedDefault)]
    |> set request.nullDefault.isSome [("replace_null_values", .bool true),
      ("null_values_default", text request.nullDefault)]
    |> set request.lineBreak.isSome [("line_break_placeholder", text request.lineBreak)]
    |> set request.verbose [("verbose", .bool true)]

/-- The configuration that a request asks for. -/
def readConfiguration (request : Request) (directory : Directory) : Heap Configuration := do
  let configuration ← match request.configuration with
    | some name => if name = "" then pure .standard else directory.readConfiguration name
    | none => pure .standard
  let configuration := request.configure configuration
  configuration.validate
  return configuration

/-- The data that a request asks for. -/
def readData (request : Request) (directory : Directory) : Heap Value := do
  match request.data with
  | some name => directory.readValue "" name
  | none => throw (.typeError "expected str, bytes or os.PathLike object, not list")

end Request

end Imprint.Command
