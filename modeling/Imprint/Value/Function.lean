import Imprint.Text.CaseMapping
import Imprint.Value.Arguments
import Imprint.Value.Format

set_option autoImplicit false

/-!
# Functions that come with the data

The few things that functions handed in with the data do, and the functions that every expression can
use: making ranges and dictionaries.
-/

namespace Imprint.Value

-- Powers of numbers are those of the core library, whatever else is imported.
attribute [local instance (high)] instPowNat

/-- The parameters of a function that comes with the data. -/
def behaviourSignature : Behaviour → Signature
  | .upper => Signature.fixed "upper" ["text"] []
  | .hello => Signature.fixed "hello" ["who"] []
  | .echo => Signature.fixed "echo" ["value"] []
  | .collect => ⟨"args", [], true, true⟩
  | .count => ⟨"count", [], true, false⟩
  | .nothing => ⟨"none", [], true, false⟩
  | .constant _ | .failing _ => ⟨"function", [], true, true⟩

/-- Calls a function that comes with the data. -/
def behave (behaviour : Behaviour) (arguments : Arguments) : Heap Value := do
  let binding ← (behaviourSignature behaviour).bind arguments
  let first := (binding.values.head?.getD none).getD null
  match behaviour with
  | .upper => return ofText (Text.upper (← first.plain))
  | .hello => return ofText ("Hello ".toList ++ (← formatted first []))
  | .echo => return first
  | .collect =>
      let named ← Heap.newDict (binding.named.map fun entry => (text entry.1, entry.2))
      let positional ← Heap.newList binding.rest
      Heap.newList [positional, named]
  | .count => return int (Int.ofNat binding.rest.length)
  | .nothing => return null
  | .constant result => return result
  | .failing fault => throw fault

/-- Longest range that an expression may make. -/
def rangeLimit : Nat := 100000

/-- A range from one to three integers. -/
def makeRange (arguments : Arguments) : Heap Value := do
  match arguments.named with
  | (name, _) :: _ => throw (.typeError
      ("safe_range() got an unexpected keyword argument " ++ Text.inQuotes name))
  | [] => pure ()
  let (start, stop, step) ← match arguments.positional with
    | [] => throw (.typeError "range expected at least 1 argument, got 0")
    | [stop] => pure (0, ← requireInt stop, 1)
    | [start, stop] =>
        let start ← requireInt start
        pure (start, ← requireInt stop, 1)
    | [start, stop, step] =>
        let start ← requireInt start
        let stop ← requireInt stop
        pure (start, stop, ← requireInt step)
    | others => throw (.typeError
        ("range expected at most 3 arguments, got " ++ toString others.length))
  if step = 0 then throw (.valueError "range() arg 3 must not be zero")
  let size := rangeLength start stop step
  if size ≥ 2 ^ (63 : Nat) then throw (.error .overflow "Python int too large to convert to C ssize_t")
  if rangeLimit < size then throw (.error .overflow
    "Range too big. The sandbox blocks ranges larger than MAX_RANGE (100000).")
  return range start stop step

/-- A key and a value from an item that is a pair. -/
def pairOf (index : Nat) (item : Value) : Heap (Value × Value) := do
  let parts ← if item.isIterable then item.items
    else throw (.typeError ("cannot convert dictionary update sequence element #" ++
      toString index ++ " to a sequence"))
  match parts with
  | [key, value] => return (key, value)
  | other => throw (.valueError ("dictionary update sequence element #" ++ toString index ++
      " has length " ++ toString other.length ++ "; 2 is required"))

/-- The entries that a dictionary or a sequence of pairs brings along. -/
def entriesOf (source : Value) : Heap (List (Value × Value)) := do
  match source with
  | dict cell => Heap.entries cell
  | other =>
      let parts ← other.items
      parts.zipIdx.mapM fun (item, index) => pairOf index item

/-- The entries that arguments add to a dictionary. -/
def updateEntries (name : String) (arguments : Arguments) (entries : List (Value × Value)) :
    Heap (List (Value × Value)) := do
  let entries ← match arguments.positional with
    | [] => pure entries
    | [source] => insertAll (← entriesOf source) entries
    | others => throw (.typeError
        (name ++ " expected at most 1 argument, got " ++ toString others.length))
  insertAll (arguments.named.map fun entry => (text entry.1, entry.2)) entries

/-- A dictionary from another one, pairs, or named arguments. -/
def makeDict (arguments : Arguments) : Heap Value := do
  Heap.newDict (← updateEntries "dict" arguments [])

/-- The parameters of what makes paragraphs of filler text. -/
def fillerSignature : Signature :=
  .fixed "generate_lorem_ipsum" [] ["n", "html", "min", "max"]

/-- Filler text.  Its words are chosen at random, so it stands for the empty text, which it is if no paragraphs
are asked for. -/
def makeFiller (arguments : Arguments) : Heap Value := do
  let binding ← fillerSignature.bind arguments
  let _ ← requireInt ((binding.values.head?.getD none).getD (int 5))
  return text ""

/-- Sorts values by keys computed from them; equal keys keep their order, also in reverse. -/
def sortByKeys (keyed : List (Value × Value)) (reverse : Bool) : Heap (List Value) := do
  let less (left right : Value × Value) : Heap Bool := isOrdered .less left.1 right.1
  let input := if reverse then keyed.reverse else keyed
  let sorted ← sortWith less input
  let values := sorted.map (·.2)
  return if reverse then values.reverse else values

end Imprint.Value
