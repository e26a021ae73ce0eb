import Imprint.Calendar.Date
import Imprint.Fault
import Imprint.Xml.Node

set_option autoImplicit false

/-!
# Values

Values are what data consist of and what expressions compute.  Lists and dictionaries can be changed
while expressions are evaluated, so they are cells of a store; everything else is immutable.
-/

namespace Imprint

/-- Kinds of amounts of money. -/
inductive Currency where
  | general
  | euro
deriving DecidableEq, Repr, Inhabited

/-- Kinds of records. -/
inductive RecordKind where
  | bare
  | root
deriving DecidableEq, Repr, Inhabited

/-- Functions that every expression can use. -/
inductive Builtin where
  | range
  | dict
  | lipsum
  | cycler
  | joiner
  | bundle
deriving DecidableEq, Repr, Inhabited

/-- Live views of a dictionary. -/
inductive ViewPart where
  | keys
  | values
  | items
deriving DecidableEq, Repr, Inhabited

mutual

/-- A value. -/
inductive Value where
  | null
  | bool (truth : Bool)
  | int (number : Int)
  | float (number : Float)
  | text (content : String)
  /-- A text that holds a half of a pair alone, by its codes. -/
  | unpaired (codes : List Nat)
  | bytes (content : List UInt8)
  | list (cell : Nat)
  | dict (cell : Nat)
  | tuple (items : List Value)
  | range (start stop step : Int)
  | date (day : Calendar.Date)
  | moment (moment : Calendar.Moment)
  | clock (clock : Calendar.Clock)
  | duration (duration : Calendar.Duration)
  | money (identity : Nat) (currency : Currency) (cents : Int)
  /-- Named fields; reading one of the failing names ends in its fault. -/
  | record (identity : Nat) (kind : RecordKind) (fields : List (String × Value))
      (failing : List (String × Fault))
  | element (node : Xml.Node)
  | function (callee : Callee)
  | view (part : ViewPart) (cell : Nat)
  /-- Items that are computed when they are asked for, possibly ending in a fault. -/
  | stream (typeName : String) (items : List Value) (ending : Option Fault)
  /-- A lenient one can be shown and tested, a strict one cannot. -/
  | undefined (lenient : Bool) (missing : Missing)
  /-- The expression's own reference to itself. -/
  | self
  /-- Anything else, of which only the type and the text are known. -/
  | foreign (typeName shown : String)

/-- What can be called. -/
inductive Callee where
  | builtin (builtin : Builtin)
  | given (identity : Nat) (behaviour : Behaviour)
  | method (receiver : Value) (name : String)
  | directive (handler : Nat) (method : String)

/-- What a function that comes with the data does. -/
inductive Behaviour where
  | upper
  | hello
  | echo
  | collect
  | count
  | nothing
  | constant (result : Value)
  | failing (fault : Fault)

end

instance : Inhabited Value := ⟨.null⟩

/-- The content of a mutable value. -/
inductive Cell where
  | list (items : List Value)
  | dict (entries : List (Value × Value))
deriving Inhabited

/-- All lists and dictionaries, by number. -/
structure Store where
  cells : Array Cell
  identities : Nat
deriving Inhabited

namespace Store

def empty : Store := ⟨#[], 0⟩

/-- The content of a list. -/
def items (store : Store) (cell : Nat) : List Value :=
  match store.cells[cell]? with
  | some (.list items) => items
  | _ => []

/-- The content of a dictionary. -/
def entries (store : Store) (cell : Nat) : List (Value × Value) :=
  match store.cells[cell]? with
  | some (.dict entries) => entries
  | _ => []

/-- Adds a cell. -/
def add (store : Store) (content : Cell) : Nat × Store :=
  (store.cells.size, { store with cells := store.cells.push content })

/-- Replaces the content of a cell. -/
def set (store : Store) (cell : Nat) (content : Cell) : Store :=
  { store with cells := store.cells.setIfInBounds cell content }

end Store

/-- Computations on values: they may change the store, and a fault keeps the changes made so far. -/
abbrev Heap (α : Type) : Type := ExceptT Fault (StateM Store) α

namespace Heap

def items (cell : Nat) : Heap (List Value) := return (← get).items cell

def entries (cell : Nat) : Heap (List (Value × Value)) := return (← get).entries cell

def newList (items : List Value) : Heap Value := do
  let (cell, store) := (← get).add (.list items)
  set store
  return .list cell

def newDict (entries : List (Value × Value)) : Heap Value := do
  let (cell, store) := (← get).add (.dict entries)
  set store
  return .dict cell

def setItems (cell : Nat) (items : List Value) : Heap Unit :=
  modify fun store => store.set cell (.list items)

def setEntries (cell : Nat) (entries : List (Value × Value)) : Heap Unit :=
  modify fun store => store.set cell (.dict entries)

/-- A number that no other value has as its identity. -/
def newIdentity : Heap Nat := do
  let store ← get
  set { store with identities := store.identities + 1 }
  return store.identities

end Heap

namespace Value

def ofText (letters : List Char) : Value := .text (String.ofList letters)

/-- The text with some codes. -/
def ofCodes (codes : List Nat) : Value :=
  match Text.lettersOf? codes with
  | some letters => ofText letters
  | none => .unpaired codes

/-- The codes of a text. -/
def codes? : Value → Option (List Nat)
  | .text content => some (content.toList.map Char.toNat)
  | .unpaired codes => some codes
  | _ => none

/-- Class of a kind of money. -/
def currencyName : Currency → String
  | .general => "Money"
  | .euro => "Euro"

/-- Whether a builtin is a class and not a function. -/
def isClass : Builtin → Bool
  | .range | .lipsum => false
  | _ => true

/-- Type of a callable value. -/
def calleeTypeName : Callee → String
  | .builtin builtin => if isClass builtin then "type" else "function"
  | .given .. => "function"
  | .method (.text _) "format" => "function"
  | .method (.text _) "format_map" => "function"
  | .method (.unpaired _) "format" => "function"
  | .method (.unpaired _) "format_map" => "function"
  | .method .. => "builtin_function_or_method"
  | .directive .. => "method"

/-- The full name of a value's type. -/
def typeName : Value → String
  | null => "NoneType"
  | bool _ => "bool"
  | int _ => "int"
  | float _ => "float"
  | text _ | unpaired _ => "str"
  | bytes _ => "bytes"
  | list _ => "list"
  | dict _ => "dict"
  | tuple _ => "tuple"
  | range .. => "range"
  | date _ => "datetime.date"
  | moment _ => "datetime.datetime"
  | clock _ => "datetime.time"
  | duration _ => "datetime.timedelta"
  | money _ currency _ => currencyName currency
  | record _ .bare _ _ => "types.SimpleNamespace"
  | record _ .root _ _ => "Root"
  | element _ => "lxml.etree._Element"
  | function callee => calleeTypeName callee
  | view .keys _ => "dict_keys"
  | view .values _ => "dict_values"
  | view .items _ => "dict_items"
  | stream typeName _ _ => typeName
  | undefined true _ => "Undefined"
  | undefined false _ => "StrictUndefined"
  | self => "TemplateReference"
  | foreign typeName _ => typeName

/-- The name of a value's type without the module it belongs to. -/
def shortTypeName (value : Value) : String :=
  let letters := value.typeName.toList
  String.ofList (letters.reverse.takeWhile (· != '.')).reverse

/-- The name of a value's type in messages about arguments. -/
def argumentTypeName : Value → String
  | null => "None"
  | other => other.typeName

/-- How the owner of a missing attribute is described. -/
def description (value : Value) : String :=
  match value with
  | null => "None"
  | money .. => "__main__." ++ value.typeName ++ " object"
  | record _ .root _ _ => "__main__.Root object"
  | self => "jinja2.runtime.TemplateReference object"
  | _ => value.typeName ++ " object"

/-- Whether a value can be called. -/
def isCallable : Value → Bool
  | function _ => true
  | _ => false

/-- Whether a value is undefined. -/
def isUndefined : Value → Bool
  | undefined .. => true
  | _ => false

/-- The integer that a whole number or truth value stands for. -/
def asInt? : Value → Option Int
  | int number => some number
  | bool truth => some (if truth then 1 else 0)
  | _ => none

end Value

/-- Depth to which nested values are followed. -/
def nestingLimit : Nat := 1000

end Imprint
