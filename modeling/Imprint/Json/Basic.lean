import Imprint.Value.Compare

set_option autoImplicit false

/-!
# JSON data

The data of a JSON text.  Numbers are integers or floating point numbers, depending on how they are
written.  As a value, an object becomes a dictionary; of several entries with one key the last one
counts, in the place of the first.

An escape can stand for half of a pair of codes.  Texts and keys with such a half alone are kept by their
codes.
-/

namespace Imprint

/-- Data that a JSON text can hold. -/
inductive Json where
  | null
  | bool (truth : Bool)
  | int (number : Int)
  | float (number : Float)
  | text (content : String)
  | array (items : List Json)
  | object (entries : List (String × Json))
  /-- A text that holds a half of a pair alone. -/
  | unpaired (codes : List Nat)
  /-- An object with such a text among its keys; all keys are given by their codes. -/
  | keyed (entries : List (List Nat × Json))
deriving Inhabited

namespace Json

/-- The text with some codes. -/
def ofCodes (codes : List Nat) : Json :=
  match Text.lettersOf? codes with
  | some letters => .text (String.ofList letters)
  | none => .unpaired codes

/-- The object with some entries, whose keys are given by their codes. -/
def ofEntries (entries : List (List Nat × Json)) : Json :=
  let named := entries.mapM fun (codes, item) =>
    (Text.lettersOf? codes).map fun letters => (String.ofList letters, item)
  match named with
  | some entries => .object entries
  | none => .keyed entries

mutual

/-- The value of data. -/
def toValue : Json → Heap Value
  | null => return .null
  | bool truth => return .bool truth
  | int number => return .int number
  | float number => return .float number
  | text content => return .text content
  | array items => do Heap.newList (← toValues items)
  | object entries => do
      let entries ← toEntries entries
      Heap.newDict (← Value.insertAll entries [])
  | unpaired codes => return .unpaired codes
  | keyed entries => do
      let entries ← toKeyed entries
      Heap.newDict (← Value.insertAll entries [])

/-- The values of some data. -/
def toValues : List Json → Heap (List Value)
  | [] => return []
  | item :: rest => do
      let value ← toValue item
      return value :: (← toValues rest)

/-- The keys and values of the entries of an object. -/
def toEntries : List (String × Json) → Heap (List (Value × Value))
  | [] => return []
  | (key, item) :: rest => do
      let value ← toValue item
      return (.text key, value) :: (← toEntries rest)

/-- The keys and values of entries whose keys are given by their codes. -/
def toKeyed : List (List Nat × Json) → Heap (List (Value × Value))
  | [] => return []
  | (codes, item) :: rest => do
      let value ← toValue item
      return (.ofCodes codes, value) :: (← toKeyed rest)

end

end Json

end Imprint
