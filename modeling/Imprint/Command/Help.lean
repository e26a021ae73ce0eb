import Imprint.Command.Switch

set_option autoImplicit false

/-!
# Help texts

The usage text shows how a command line is put together; the help text also says what its parts are
for.
-/

namespace Imprint.Command

/-- How a command line is put together. -/
def usage : List String :=
  ["usage: stamp_docx.py [-h] [-o OUTPUT] [--config CONFIG]",
    "                     [--no-fail-on-unresolved]",
    "                     [--leave-empty | --unresolved-default TEXT]",
    "                     [--null-default TEXT] [--line-break PLACEHOLDER] [-v]",
    "                     template context_json"]

/-- What the plain words are for. -/
def placeHelp : List String :=
  ["positional arguments:",
    "  template              Template file (.docx)",
    "  context_json          Data context (JSON file)"]

/-- What the switches are for. -/
def switchHelp : List String :=
  ["options:",
    "  -h, --help            show this help message and exit",
    "  -o OUTPUT, --output OUTPUT",
    "                        Output file path (default: <template>_stamped.docx)",
    "  --config CONFIG       JSON file with stamper options",
    "  --no-fail-on-unresolved",
    "                        Record unresolved expressions instead of aborting",
    "  --leave-empty         Remove unresolved value expressions",
    "  --unresolved-default TEXT",
    "                        Replace unresolved value expressions with TEXT",
    "  --null-default TEXT   Render None values (and None collections) as TEXT",
    "  --line-break PLACEHOLDER",
    "                        Replace PLACEHOLDER with a line break",
    "  -v, --verbose         Verbose output"]

/-- The help text. -/
def help : List String :=
  usage ++ ["", "Stamp a JSON data context into a Word template", ""] ++ placeHelp ++ [""] ++
    switchHelp

end Imprint.Command
