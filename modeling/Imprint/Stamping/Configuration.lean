import Imprint.Stamping.Replacement

set_option autoImplicit false

/-!
# Configuration

A configuration is a set of options, each with a name.  Options come from outside, so any value can
stand in the place of one; what does not fit together is refused when the configuration is made.
-/

namespace Imprint

/-- The options of a stamper. -/
structure Configuration where
  replacement : Replacer.Options
  /-- The delimiters of values. -/
  variable_ : Delimiters
  /-- The delimiters of directives inside of text. -/
  processor : Delimiters
  datePattern : Value
deriving Inhabited

/-- An option: its name, how it is read, and how it is set. -/
structure ConfigurationOption where
  name : String
  value : Configuration → Value
  set : Value → Configuration → Configuration

namespace ConfigurationOption

/-- An option of the replacer. -/
def ofReplacement (name : String) (value : Replacer.Options → Value)
    (set : Value → Replacer.Options → Replacer.Options) : ConfigurationOption where
  name
  value configuration := value configuration.replacement
  set new configuration := { configuration with replacement := set new configuration.replacement }

end ConfigurationOption

namespace Configuration

/-- The configuration without any option set. -/
def standard : Configuration where
  replacement := .standard
  variable_ := .ofScanner .values
  processor := .ofScanner .directives
  datePattern := .text standardPattern

/-- All options. -/
def options : List ConfigurationOption :=
  [.ofReplacement "fail_on_unresolved_expression" (·.failing)
      fun new options => { options with failing := new },
    .ofReplacement "leave_empty_on_expression_error" (·.leaveEmpty)
      fun new options => { options with leaveEmpty := new },
    .ofReplacement "replace_unresolved_expressions" (·.replaceUnresolved)
      fun new options => { options with replaceUnresolved := new },
    .ofReplacement "unresolved_expressions_default" (·.unresolvedDefault)
      fun new options => { options with unresolvedDefault := new },
    .ofReplacement "replace_null_values" (·.replaceNull)
      fun new options => { options with replaceNull := new },
    .ofReplacement "null_values_default" (·.nullDefault)
      fun new options => { options with nullDefault := new },
    .ofReplacement "line_break_placeholder" (·.lineBreak)
      fun new options => { options with lineBreak := new },
    .ofReplacement "replacement_style" (·.style)
      fun new options => { options with style := new },
    ⟨"variable_prefix", (·.variable_.opening), fun new configuration =>
      { configuration with variable_ := { configuration.variable_ with opening := new } }⟩,
    ⟨"variable_suffix", (·.variable_.closing), fun new configuration =>
      { configuration with variable_ := { configuration.variable_ with closing := new } }⟩,
    ⟨"processor_prefix", (·.processor.opening), fun new configuration =>
      { configuration with processor := { configuration.processor with opening := new } }⟩,
    ⟨"processor_suffix", (·.processor.closing), fun new configuration =>
      { configuration with processor := { configuration.processor with closing := new } }⟩,
    ⟨"date_format", (·.datePattern), fun new configuration =>
      { configuration with datePattern := new }⟩,
    .ofReplacement "verbose" (·.verbose) fun new options => { options with verbose := new }]

/-- The option with a name. -/
def option? (name : String) : Option ConfigurationOption :=
  options.find? fun option => option.name == name

/-- The configuration with another value of an option. -/
def set (configuration : Configuration) (name : String) (value : Value) : Configuration :=
  match option? name with
  | some option => option.set value configuration
  | none => configuration

/-- The delimiters by the names of their options. -/
def delimiters (configuration : Configuration) : List (String × Value) :=
  [("variable_prefix", configuration.variable_.opening),
    ("variable_suffix", configuration.variable_.closing),
    ("processor_prefix", configuration.processor.opening),
    ("processor_suffix", configuration.processor.closing)]

/-- Refuses options that exclude each other, an unknown style, and delimiters that are empty or cannot
be told apart. -/
def validate (configuration : Configuration) : Heap Unit := do
  let replacement := configuration.replacement
  if ← replacement.leaveEmpty.truth then
    if ← replacement.replaceUnresolved.truth then
      throw (.valueError ("leave_empty_on_expression_error and replace_unresolved_expressions " ++
        "cannot both be enabled"))
  if (ReplacementStyle.ofValue? replacement.style).isNone then
    throw (.valueError (String.ofList ("replacement_style must be one of paragraph, token, got ".toList ++
      (← replacement.style.shown))))
  configuration.delimiters.forM fun (name, value) => do
    if !(← value.truth) then throw (.valueError (name ++ " must not be empty"))
  if ← configuration.variable_.opening.isEqual configuration.processor.opening then
    throw (.valueError "variable_prefix and processor_prefix must differ")

/-- The names among some that are no options; all of them have to be texts. -/
def unknownOptions : List Value → Heap (List String)
  | [] => return []
  | .text name :: rest => do
      let others ← unknownOptions rest
      return if (option? name).isSome then others else name :: others
  | .unpaired codes :: rest => do
      return String.ofList (codes.flatMap Text.shownCode) :: (← unknownOptions rest)
  | other :: _ => throw (.typeError
      ("sequence item 0: expected str instance, " ++ other.shortTypeName ++ " found"))

/-- Refuses names that are no options. -/
def requireOptions (names : List Value) : Heap Unit := do
  let unknown ← unknownOptions names
  if !unknown.isEmpty then throw (.valueError ("Unknown configuration option(s): " ++
    String.intercalate ", " (Proxy.sortNames unknown)))

/-- The configuration that a dictionary of options describes. -/
def ofValue (data : Value) : Heap Configuration := do
  match data with
  | .dict cell =>
      let entries ← Heap.entries cell
      requireOptions (entries.map (·.1))
      let configuration := entries.foldl (fun (configuration : Configuration) (name, value) =>
        match name with
        | .text name => configuration.set name value
        | _ => configuration) standard
      configuration.validate
      return configuration
  | other => throw (.valueError
      ("Configuration must be a JSON object, got " ++ other.shortTypeName))

end Configuration

end Imprint
