import Imprint.Text.Quoted

set_option autoImplicit false

/-!
# Faults

A fault says why an evaluation, an edit or a configuration failed.  Its `message` is the text that is
shown and its `label` the class it is reported under.  `isTemplate` and `isEvaluation` tell which
faults mean that an expression cannot be resolved; all others are trouble of another kind and are
passed on as they are.
-/

namespace Imprint

/-- Classes of trouble with values. -/
inductive ErrorKind where
  | type
  | value
  | lookup
  | index
  | key
  | arithmetic
  | zeroDivision
  | overflow
  | attribute
  | unicodeDecode
  | unicodeEncode
  | name
  | runtime
  | recursion
  | invalidCode
  | missingFile
  | other (label : String)
deriving DecidableEq, Repr, Inhabited

/-- The class name of a kind of trouble. -/
def ErrorKind.label : ErrorKind → String
  | .type => "TypeError"
  | .value => "ValueError"
  | .lookup => "LookupError"
  | .index => "IndexError"
  | .key => "KeyError"
  | .arithmetic => "ArithmeticError"
  | .zeroDivision => "ZeroDivisionError"
  | .overflow => "OverflowError"
  | .attribute => "AttributeError"
  | .unicodeDecode => "UnicodeDecodeError"
  | .unicodeEncode => "UnicodeEncodeError"
  | .name => "NameError"
  | .runtime => "RuntimeError"
  | .recursion => "RecursionError"
  | .invalidCode => "SyntaxError"
  | .missingFile => "FileNotFoundError"
  | .other label => label

/-- The kind of trouble with a class name. -/
def ErrorKind.ofLabel (label : String) : ErrorKind :=
  let known : List ErrorKind := [.type, .value, .lookup, .index, .key, .arithmetic, .zeroDivision,
    .overflow, .attribute, .unicodeDecode, .unicodeEncode, .name, .runtime, .recursion,
    .invalidCode, .missingFile]
  (known.find? fun kind => kind.label == label).getD (.other label)

/-- Kinds that make an expression unresolved when they arise while it is evaluated. -/
def ErrorKind.isEvaluation : ErrorKind → Bool
  | .type | .value | .lookup | .index | .key | .arithmetic | .zeroDivision | .overflow | .attribute
  | .unicodeDecode | .unicodeEncode => true
  | .other label =>
      label == "UnicodeError" || label == "FloatingPointError" || label == "UnicodeTranslateError"
  | _ => false

/-- Kinds whose text is a key, shown quoted. -/
def ErrorKind.isKey (kind : ErrorKind) : Bool :=
  kind == .key

/-- Why something is undefined. -/
inductive Missing where
  | name (name : String)
  | attribute (owner name : String)
  | element (owner key : String)
  | noElse (line : Nat)
  | hint (text : String)
  | forbidden (owner name : String)
deriving DecidableEq, Repr, Inhabited

/-- The text shown when something undefined is used. -/
def Missing.message : Missing → String
  | .name missing => Text.quote missing ++ " is undefined"
  | .attribute owner missing => Text.quote owner ++ " has no attribute " ++ Text.quote missing
  | .element owner key => owner ++ " has no element " ++ key
  | .noElse line =>
      "the inline if-expression on line " ++ toString line ++
        " evaluated to false and no else section was defined."
  | .hint text => text
  | .forbidden owner missing =>
      "access to attribute " ++ Text.quote missing ++ " of " ++ Text.quote owner ++
        " object is unsafe."

/-- Why something failed. -/
inductive Fault where
  /-- Trouble with values, of a class and with a text. -/
  | error (kind : ErrorKind) (text : String)
  /-- Something undefined was used. -/
  | undefined (missing : Missing)
  /-- The expression is not well formed, or names an unknown filter or test. -/
  | malformed (text : String)
  /-- A filter or a test was used in a way it does not allow. -/
  | misuse (text : String)
  /-- An expression could not be resolved. -/
  | unresolved (expression reason : String)
  /-- Capabilities could not be composed. -/
  | composition (text : String)
  /-- An edit was to be made at an element that is not in the document any more. -/
  | detached (text : String)
  /-- A text was to be written with letters that its encoding does not have. -/
  | unencodable (text : String)
  /-- The work goes on without end.  No run comes to this fault; it stands for one that comes to nothing. -/
  | endless
deriving DecidableEq, Repr, Inhabited

namespace Fault

/-- The text of an unresolved expression. -/
def unresolvedText (expression reason : String) : String :=
  let start := "Expression '" ++ expression ++ "' could not be resolved"
  if reason = "" then start else start ++ ": " ++ reason

/-- The text that is shown. -/
def message : Fault → String
  | error _ text => text
  | undefined missing => missing.message
  | malformed text => text
  | misuse text => text
  | unresolved expression reason => unresolvedText expression reason
  | composition text => text
  | detached text => text
  | unencodable text => text
  | endless => "work without end"

/-- The class a fault is reported under. -/
def label : Fault → String
  | error kind _ => kind.label
  | undefined (.forbidden ..) => "SecurityError"
  | undefined _ => "UndefinedError"
  | malformed _ => "TemplateSyntaxError"
  | misuse _ => "FilterArgumentError"
  | unresolved .. => "UnresolvedExpressionError"
  | composition _ => "ProxyConstructionError"
  | detached _ => "StructuralMutationError"
  | unencodable _ => "UnicodeEncodeError"
  | endless => "Endless"

/-- Faults of the expression language itself. -/
def isTemplate : Fault → Bool
  | undefined _ | malformed _ | misuse _ => true
  | _ => false

/-- Faults that data cause while an expression is evaluated. -/
def isEvaluation : Fault → Bool
  | error kind _ => kind.isEvaluation
  | _ => false

/-- What becomes of a fault that ends the evaluation of an expression. -/
def resolving (expression : String) (fault : Fault) : Fault :=
  if fault.isTemplate then unresolved expression fault.message
  else if fault.isEvaluation then
    unresolved expression (fault.label ++ ": " ++ fault.message)
  else
    match fault with
    | error (.other "StopIteration") _ => error .runtime "generator raised StopIteration"
    | other => other

/-- Trouble that data bring along: the text of a key is shown quoted. -/
def raised (kind : ErrorKind) (text : String) : Fault :=
  if kind.isKey then error kind (Text.quote text) else error kind text

def typeError (text : String) : Fault := error .type text
def valueError (text : String) : Fault := error .value text
def indexError (text : String) : Fault := error .index text

/-- A text that holds a half of a pair alone was to be written. -/
def unpaired (codes : List Nat) : Fault :=
  unencodable ((Text.encodingTrouble? "utf-8" "surrogates not allowed" Text.isHalf codes).getD "")

/-- Values are nested too deeply. -/
def tooDeep : Fault := error .recursion "maximum recursion depth exceeded"

end Fault

end Imprint
