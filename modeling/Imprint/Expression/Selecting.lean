import Imprint.Expression.Access
import Imprint.Number.Reading
import Imprint.Text.CaseMapping

set_option autoImplicit false

/-!
# Going through items

Filters go through the items of a value and look at one of their attributes.  Some of them hand out
their results one by one: what was handed out before a fault counts, and the fault arises only when
the next result is asked for.
-/

namespace Imprint.Expression

/-- An integer in a path, which may be written in the digits of any script but not raised. -/
def pathIndex (digits : List Char) : Heap Value := do
  match Number.readInt? 10 digits with
  | some number => return .int number
  | none => throw (.valueError
      ("invalid literal for int() with base 10: " ++ String.ofList (Text.quoted digits)))

/-- The steps of a path of attributes separated by points. -/
def pathOf (steps : Value) : Heap (List Value) := do
  match steps with
  | .null => return []
  | .text path =>
      (Text.splitOn ['.'] path.length path.toList).mapM fun part =>
        if !part.isEmpty && part.all Text.isDigit then pathIndex part
        else return Value.ofText part
  | other => return [other]

/-- Follows a path; what is not there is replaced by a default value that is not null. -/
def followPath (path : List Value) (default : Value) (item : Value) : Heap Value :=
  path.foldlM (fun (item part : Value) => do
    let found ← getItem item part
    match default with
    | .null => return found
    | other => return if found.isUndefined then other else found) item

/-- Texts in lower case, other values unchanged. -/
def ignoreCase (value : Value) : Value :=
  match value with
  | .text content => .ofText (Text.lower content.toList)
  | other => other

/-- The value by which an item is compared. -/
def comparisonKey (path : List Value) (sensitive : Bool) (item : Value) : Heap Value := do
  let found ← followPath path .null item
  return if sensitive then found else ignoreCase found

/-- The values by which an item is compared, as a list. -/
def comparisonKeys (paths : List (List Value)) (sensitive : Bool) (item : Value) : Heap Value := do
  Heap.newList (← paths.mapM fun path => comparisonKey path sensitive item)

/-- The result of a computation, or its fault. -/
def attempt {α : Type} (computation : Heap α) : Heap (Except Fault α) :=
  try return .ok (← computation)
  catch fault => return .error fault

/-- Results of a step for each of some items, up to the first fault. -/
def produce (step : Value → Heap (List Value)) :
    List Value → Option Fault → Heap (List Value × Option Fault)
  | [], ending => return ([], ending)
  | item :: rest, ending => do
      match ← attempt (step item) with
      | .error fault => return ([], some fault)
      | .ok found =>
          let (others, ending) ← produce step rest ending
          return (found ++ others, ending)

/-- Results that are handed out one by one. -/
def generator (body : Heap (List Value × Option Fault)) : Heap Value := do
  match ← attempt body with
  | .error fault => return .stream "generator" [] (some fault)
  | .ok (found, ending) => return .stream "generator" found ending

/-- Each item whose key did not occur before. -/
def firstOccurrences (key : Value → Heap Value) :
    List Value → List Value → Option Fault → Heap (List Value × Option Fault)
  | _, [], ending => return ([], ending)
  | seen, item :: rest, ending => do
      let found ← attempt do
        let itemKey ← key item
        Value.requireKey itemKey
        return (itemKey, ← Value.isMember itemKey seen)
      match found with
      | .error fault => return ([], some fault)
      | .ok (_, true) => firstOccurrences key seen rest ending
      | .ok (itemKey, false) =>
          let (others, ending) ← firstOccurrences key (itemKey :: seen) rest ending
          return (item :: others, ending)

/-- The item that no later one beats, with its key. -/
def bestItem (test : Value.OrderTest) (key : Value → Heap Value) :
    Value → Value → List Value → Heap Value
  | best, _, [] => return best
  | best, bestKey, item :: rest => do
      let itemKey ← key item
      if ← Value.isOrdered test itemKey bestKey then bestItem test key item itemKey rest
      else bestItem test key best bestKey rest

/-- The smallest or the largest item. -/
def extreme (test : Value.OrderTest) (value : Value) (sensitive : Bool) (steps : Value) :
    Heap Value := do
  let (found, ending) ← value.iterate
  match found, ending with
  | [], some fault => throw fault
  | [], none => return .undefined false (.hint "No aggregated item, sequence was empty.")
  | first :: rest, ending =>
      let path ← pathOf steps
      let key := comparisonKey path sensitive
      let best ← bestItem test key first (← key first) rest
      match ending with
      | some fault => throw fault
      | none => return best

/-- The items of a value from the last to the first, for values that allow it. -/
def reversedItems (value : Value) : Heap (List Value) := do
  match value with
  | .text _ | .unpaired _ | .bytes _ | .list _ | .dict _ | .tuple _ | .range .. | .view ..
  | .element _ =>
      return (← value.items).reverse
  | .undefined true _ => return []
  | .undefined false missing => throw (.undefined missing)
  | other => throw (.typeError ("'" ++ other.typeName ++ "' object is not reversible"))

/-- The type of what goes through the items of a value backwards. -/
def reversedTypeName : Value → String
  | .list _ => "list_reverseiterator"
  | .dict _ | .view .keys _ => "dict_reversekeyiterator"
  | .view .values _ => "dict_reversevalueiterator"
  | .view .items _ => "dict_reverseitemiterator"
  | .range .. => "range_iterator"
  | .element _ => "lxml.etree.ElementChildIterator"
  | _ => "reversed"

/-- Whether a letter separates the words of a title. -/
def separatesWords (letter : Char) : Bool :=
  letter = '-' || Text.isBlank letter || letter = '(' || letter = '\x7b' || letter = '[' ||
    letter = '<'

/-- Each word with its first letter in upper case and the others in lower case; `word` collects the
letters of the current word backwards. -/
def titleWords : List Char → List Char → List Char
  | word, [] => finish word
  | word, letter :: rest =>
      if separatesWords letter then finish word ++ letter :: titleWords [] rest
      else titleWords (letter :: word) rest
where
  /-- A word written as in a title. -/
  finish (word : List Char) : List Char :=
    match word.reverse with
    | [] => []
    | first :: others => Text.upperChar first ++ Text.lower others

end Imprint.Expression
