import Imprint.Expression.Filter
import Imprint.Expression.Term

set_option autoImplicit false

/-!
# Operations on operands

What each kind of term does once its operands have values.  Evaluation and folding of constants both
go through these functions.
-/

namespace Imprint.Expression

/-- Whether a relation holds between two values. -/
def Relation.holds (relation : Relation) (left right : Value) : Heap Bool :=
  match relation with
  | equal => left.isEqual right
  | different => do return !(← left.isEqual right)
  | ordered test => Value.isOrdered test left right
  | within => right.contains left
  | outside => do return !(← right.contains left)

/-- The plain texts of values, one behind the other. -/
def joinTexts (values : List Value) : Heap Value := do
  let parts ← values.mapM Value.plainCodes
  return .ofCodes parts.flatten

/-- A dictionary with entries in the order in which they are written. -/
def buildDict (entries : List (Value × Value)) : Heap Value := do
  Heap.newDict (← Value.insertAll entries [])

/-- A literal raised to a power.  The power binds stronger than a minus in front of the literal. -/
def powerOf (base exponent : Value) : Heap Value := do
  let isNegative : Bool := match base with
    | .int number => decide (number < 0)
    | .float number => decide (number < 0) || (number == 0 && number.toBits != 0)
    | _ => false
  if isNegative then
    Value.negate (← Value.operate .power (← Value.negate base) exponent)
  else Value.operate .power base exponent

/-- Arguments while they are put together. -/
structure Gathered where
  positional : List Value
  named : List (String × Value)

namespace Gathered

/-- Adds the items of a spread sequence. -/
def addSpread (gathered : Gathered) (values : Value) : Heap Gathered := do
  match values with
  | .undefined false missing => throw (.undefined missing)
  | other =>
      if other.isIterable then
        return { gathered with positional := gathered.positional ++ (← other.items) }
      else throw (.typeError
        ("Value after * must be an iterable, not " ++ other.typeName))

/-- The name that a key is for an argument.  Halves of pairs are shown as escapes in it. -/
def nameOfKey? : Value → Option String
  | .text name => some name
  | .unpaired codes => some (String.ofList (codes.flatMap Text.shownCode))
  | _ => none

/-- Adds the entries of a spread mapping. -/
def addSpreadNamed (gathered : Gathered) (label : String) (values : Value) : Heap Gathered := do
  match values with
  | .dict cell =>
      let entries ← Heap.entries cell
      entries.foldlM (fun (gathered : Gathered) (entry : Value × Value) => do
        match nameOfKey? entry.1 with
        | some name =>
            if (gathered.named.lookup name).isSome then
              throw (.typeError (label ++ " got multiple values for keyword argument " ++
                Text.inQuotes name))
            else return { gathered with named := gathered.named ++ [(name, entry.2)] }
        | none => throw (.typeError "keywords must be strings")) gathered
  | .undefined _ missing => throw (.undefined missing)
  | other => throw (.typeError
      (label ++ " argument after ** must be a mapping, not " ++ other.typeName))

end Gathered

/-- How a call of a value is named in messages about its arguments. -/
def callLabel : String := "docx_stamp.expressions._StrictSandbox.call()"

/-- How the use of a filter or a test is named in messages about its arguments. -/
def shapeLabel (area : String) : Test.Shape → String
  | .named signature => area ++ signature.label ++ "()"
  | .pair label => "_operator." ++ label ++ "()"
  | .single label => label ++ "()"

/-- How a filter is named in messages about its arguments. -/
def filterLabel (name : String) : String :=
  match Filter.ofName? name with
  | some filter => shapeLabel "jinja2.filters." filter.shape
  | none => name ++ "()"

/-- How a test is named in messages about its arguments. -/
def testLabel (name : String) : String :=
  match Test.ofName? name with
  | some test => shapeLabel "jinja2.tests." test.shape
  | none => name ++ "()"

/-- Applies the filter with a name. -/
def applyFilter (name : String) (value : Value) (arguments : Arguments) : Heap Value :=
  match Filter.ofName? name with
  | some filter => filter.apply value arguments
  | none => throw (.misuse ("No filter named " ++ Text.quote name ++ " found."))

/-- Applies the test with a name. -/
def applyTest (name : String) (value : Value) (arguments : Arguments) : Heap Bool :=
  match Test.ofName? name with
  | some test => test.apply value arguments
  | none => throw (.misuse ("No test named " ++ Text.quote name ++ " found."))

end Imprint.Expression
