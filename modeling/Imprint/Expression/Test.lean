import Imprint.Text.CaseMapping
import Imprint.Value.Arguments
import Imprint.Value.Percent

set_option autoImplicit false

/-!
# Tests

A test answers a question about a value.  Some tests take a further value to compare with; the signs
of the comparisons are also names of tests.
-/

namespace Imprint.Expression

/-- The tests. -/
inductive Test where
  | odd
  | even
  | divisible
  | defined
  | undefined
  | isFilter
  | isTest
  | isNull
  | boolean
  | isFalse
  | isTrue
  | integer
  | float
  | lower
  | upper
  | text
  | mapping
  | number
  | sequence
  | iterable
  | callable
  | same
  | escaped
  | within
  | equal
  | different
  | ordered (test : Value.OrderTest)
deriving DecidableEq, Repr, Inhabited

namespace Test

/-- All tests by name. -/
def named : List (String × Test) :=
  [("odd", odd), ("even", even), ("divisibleby", divisible), ("defined", defined),
    ("undefined", undefined), ("filter", isFilter), ("test", isTest), ("none", isNull),
    ("boolean", boolean), ("false", isFalse), ("true", isTrue), ("integer", integer),
    ("float", float), ("lower", lower), ("upper", upper), ("string", text), ("mapping", mapping),
    ("number", number), ("sequence", sequence), ("iterable", iterable), ("callable", callable),
    ("sameas", same), ("escaped", escaped), ("in", within), ("==", equal), ("eq", equal),
    ("equalto", equal), ("!=", different), ("ne", different), (">", ordered .greater),
    ("gt", ordered .greater), ("greaterthan", ordered .greater), ("ge", ordered .greaterEqual),
    (">=", ordered .greaterEqual), ("<", ordered .less), ("lt", ordered .less),
    ("lessthan", ordered .less), ("<=", ordered .lessEqual), ("le", ordered .lessEqual)]

/-- The test with a name. -/
def ofName? (name : String) : Option Test :=
  named.lookup name

/-- The names of all filters that there are, also of those that only make sense in templates. -/
def filterNames : List String :=
  ["abs", "attr", "batch", "capitalize", "center", "count", "d", "default", "dictsort", "e",
    "escape", "filesizeformat", "first", "float", "forceescape", "format", "groupby", "indent",
    "int", "items", "join", "last", "length", "list", "lower", "map", "max", "min", "pprint",
    "random", "reject", "rejectattr", "replace", "reverse", "round", "safe", "select", "selectattr",
    "slice", "sort", "string", "striptags", "sum", "title", "tojson", "trim", "truncate", "unique",
    "upper", "urlencode", "urlize", "wordcount", "wordwrap", "xmlattr"]

/-- How a test takes its arguments, the tested value among them. -/
inductive Shape where
  | named (signature : Signature)
  /-- Two positional ones, under a name used in messages. -/
  | pair (label : String)
  /-- Exactly one positional one. -/
  | single (label : String)

/-- The arguments of a test. -/
def shape : Test → Shape
  | odd => .named (.fixed "test_odd" ["value"] [])
  | even => .named (.fixed "test_even" ["value"] [])
  | divisible => .named (.fixed "test_divisibleby" ["value", "num"] [])
  | defined => .named (.fixed "test_defined" ["value"] [])
  | undefined => .named (.fixed "test_undefined" ["value"] [])
  | isFilter => .named (.fixed "test_filter" ["env", "value"] [])
  | isTest => .named (.fixed "test_test" ["env", "value"] [])
  | isNull => .named (.fixed "test_none" ["value"] [])
  | boolean => .named (.fixed "test_boolean" ["value"] [])
  | isFalse => .named (.fixed "test_false" ["value"] [])
  | isTrue => .named (.fixed "test_true" ["value"] [])
  | integer => .named (.fixed "test_integer" ["value"] [])
  | float => .named (.fixed "test_float" ["value"] [])
  | lower => .named (.fixed "test_lower" ["value"] [])
  | upper => .named (.fixed "test_upper" ["value"] [])
  | text => .named (.fixed "test_string" ["value"] [])
  | mapping => .named (.fixed "test_mapping" ["value"] [])
  | number => .named (.fixed "test_number" ["value"] [])
  | sequence => .named (.fixed "test_sequence" ["value"] [])
  | iterable => .named (.fixed "test_iterable" ["value"] [])
  | callable => .single "callable"
  | same => .named (.fixed "test_sameas" ["value", "other"] [])
  | escaped => .named (.fixed "test_escaped" ["value"] [])
  | within => .named (.fixed "test_in" ["value", "seq"] [])
  | equal => .pair "eq"
  | different => .pair "ne"
  | ordered .less => .pair "lt"
  | ordered .lessEqual => .pair "le"
  | ordered .greater => .pair "gt"
  | ordered .greaterEqual => .pair "ge"

/-- Whether a test is given the environment in front of the value. -/
def takesEnvironment : Test → Bool
  | isFilter | isTest => true
  | _ => false

/-- The tested value and the one to compare with. -/
def operands (test : Test) (value : Value) (arguments : Arguments) : Heap (Value × Value) := do
  match test.shape with
  | .named signature =>
      let lead := if test.takesEnvironment then [Value.null, value] else [value]
      let binding ← signature.bind { arguments with positional := lead ++ arguments.positional }
      let found := (binding.values.drop (lead.length - 1)).map (·.getD .null)
      return (found.headD .null, (found.drop 1).headD .null)
  | .pair label =>
      if !arguments.named.isEmpty then
        throw (.typeError ("_operator." ++ label ++ "() takes no keyword arguments"))
      match arguments.positional with
      | [other] => return (value, other)
      | others => throw (.typeError (label ++ " expected 2 arguments, got " ++
          toString (others.length + 1)))
  | .single label =>
      if !arguments.named.isEmpty then
        throw (.typeError (label ++ "() takes no keyword arguments"))
      match arguments.positional with
      | [] => return (value, .null)
      | others => throw (.typeError (label ++ "() takes exactly one argument (" ++
          toString (others.length + 1) ++ " given)"))

/-- Whether the remainder of a division is a given number. -/
def leaves (value divisor : Value) (remainder : Int) : Heap Bool := do
  Value.isEqual (← Value.operate .remainder value divisor) (.int remainder)

/-- Whether a name is among some names. -/
def isAmong (names : List String) (value : Value) : Heap Bool := do
  Value.requireKey value
  match value with
  | .text name => return names.contains name
  | _ => return false

/-- Whether a value has a length and items at positions or keys. -/
def isSequence : Value → Bool
  | .text _ | .unpaired _ | .bytes _ | .list _ | .dict _ | .tuple _ | .range .. | .element _ => true
  | .undefined lenient _ => lenient
  | _ => false

/-- The answer of a test. -/
def answer (test : Test) (value other : Value) : Heap Bool := do
  match test with
  | odd => leaves value (.int 2) 1
  | even => leaves value (.int 2) 0
  | divisible => leaves value other 0
  | defined => return !value.isUndefined
  | undefined => return value.isUndefined
  | isFilter => isAmong filterNames value
  | isTest => isAmong (named.map (·.1)) value
  | isNull => match value with
      | .null => return true
      | _ => return false
  | boolean => match value with
      | .bool _ => return true
      | _ => return false
  | isFalse => match value with
      | .bool truth => return !truth
      | _ => return false
  | isTrue => match value with
      | .bool truth => return truth
      | _ => return false
  | integer => match value with
      | .int _ => return true
      | _ => return false
  | float => match value with
      | .float _ => return true
      | _ => return false
  | lower => return Text.isLowerText (← value.plain)
  | upper => return Text.isUpperText (← value.plain)
  | text => match value with
      | .text _ | .unpaired _ => return true
      | _ => return false
  | mapping => match value with
      | .dict _ => return true
      | _ => return false
  | number => match value with
      | .foreign typeName _ => return typeName == "complex"
      | other => return other.isNumber
  | sequence => return isSequence value
  | iterable => match value with
      | .undefined false missing => throw (.undefined missing)
      | other => return other.isIterable
  | callable => return value.isCallable || value.isUndefined
  | same => return Value.same value other
  | escaped => return false
  | within => other.contains value
  | equal => value.isEqual other
  | different => return !(← value.isEqual other)
  | ordered test => Value.isOrdered test value other

/-- Applies a test to a value and the arguments it is given. -/
def apply (test : Test) (value : Value) (arguments : Arguments) : Heap Bool := do
  let (value, other) ← test.operands value arguments
  test.answer value other

end Test

end Imprint.Expression
