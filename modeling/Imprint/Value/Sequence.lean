import Imprint.Value.Text

set_option autoImplicit false

/-!
# Items and sizes

What a value consists of when it is gone through item by item, how many items it has, and whether it
counts as true.
-/

namespace Imprint.Value

/-- Number of items of a range. -/
def rangeLength (start stop step : Int) : Nat :=
  if step > 0 then
    if start < stop then ((stop - start - 1) / step + 1).toNat else 0
  else if step < 0 then
    if stop < start then ((start - stop - 1) / (-step) + 1).toNat else 0
  else 0

/-- Items of a range. -/
def rangeItems (start stop step : Int) : List Value :=
  (List.range (rangeLength start stop step)).map fun index => int (start + step * Int.ofNat index)

/-- The items of a value up to the fault that ends them, if any. -/
def iterate (value : Value) : Heap (List Value × Option Fault) := do
  match value with
  | text content =>
      return (content.toList.map fun letter => text (String.singleton letter), none)
  | unpaired codes => return (codes.map fun code => ofCodes [code], none)
  | bytes content => return (content.map fun byte => int (Int.ofNat byte.toNat), none)
  | list cell => return (← Heap.items cell, none)
  | dict cell => return ((← Heap.entries cell).map (·.1), none)
  | tuple content => return (content, none)
  | range start stop step => return (rangeItems start stop step, none)
  | view part cell => return (viewItems part (← Heap.entries cell), none)
  | stream _ content ending => return (content, ending)
  | element node => return (node.children.map element, none)
  | undefined true _ => return ([], none)
  | undefined false missing => throw (.undefined missing)
  | other => throw (.typeError ("'" ++ other.typeName ++ "' object is not iterable"))

/-- All items of a value. -/
def items (value : Value) : Heap (List Value) := do
  match ← iterate value with
  | (found, none) => return found
  | (_, some fault) => throw fault

/-- Whether a value can be gone through. -/
def isIterable : Value → Bool
  | text _ | unpaired _ | bytes _ | list _ | dict _ | tuple _ | range .. | view .. | stream ..
  | element _ | undefined true _ => true
  | _ => false

/-- Number of items. -/
def length (value : Value) : Heap Nat := do
  match value with
  | text content => return content.length
  | unpaired codes => return codes.length
  | bytes content => return content.length
  | list cell => return (← Heap.items cell).length
  | dict cell => return (← Heap.entries cell).length
  | tuple content => return content.length
  | range start stop step => return rangeLength start stop step
  | view _ cell => return (← Heap.entries cell).length
  | element node => return node.children.length
  | undefined true _ => return 0
  | undefined false missing => throw (.undefined missing)
  | other => throw (.typeError ("object of type '" ++ other.typeName ++ "' has no len()"))

/-- Whether a value counts as true: zeros, empty texts and containers do not. -/
def truth (value : Value) : Heap Bool := do
  match value with
  | null => return false
  | bool truth => return truth
  | int number => return number != 0
  | float number => return !(number == 0)
  | duration length => return length.microseconds != 0
  | text _ | bytes _ | list _ | dict _ | tuple _ | range .. | view .. | element _ | undefined .. =>
      return (← value.length) != 0
  | _ => return true

end Imprint.Value
