import Imprint.Value.Compare

set_option autoImplicit false

/-!
# Arguments of calls

A call brings positional and named arguments.  A signature assigns them to parameters and refuses
calls that do not fit; the methods of the built-in types have simpler forms of their own, each with
its own wording.
-/

namespace Imprint

-- Powers of numbers are those of the core library, whatever else is imported.
attribute [local instance (high)] instPowNat

/-- The arguments of a call. -/
structure Arguments where
  positional : List Value
  named : List (String × Value)
deriving Inhabited

namespace Arguments

/-- No arguments. -/
def empty : Arguments := ⟨[], []⟩

/-- Positional arguments alone. -/
def ofList (values : List Value) : Arguments := ⟨values, []⟩

/-- All arguments, positional ones first. -/
def values (arguments : Arguments) : List Value :=
  arguments.positional ++ arguments.named.map (·.2)

end Arguments

/-- A parameter of a function. -/
structure Parameter where
  name : String
  required : Bool
deriving Repr, Inhabited

/-- The parameters of a function.  `rest` and `keywords` tell whether it takes any further positional
and named arguments. -/
structure Signature where
  label : String
  parameters : List Parameter
  rest : Bool
  keywords : Bool
deriving Repr, Inhabited

/-- The arguments assigned to parameters, with those left over. -/
structure Binding where
  values : List (Option Value)
  rest : List Value
  named : List (String × Value)
deriving Inhabited

namespace Signature

/-- A function with some required parameters and then some optional ones. -/
def fixed (label : String) (required optional : List String) : Signature :=
  ⟨label, required.map (⟨·, true⟩) ++ optional.map (⟨·, false⟩), false, false⟩

/-- Names in quotes, as a list in a sentence. -/
def enumeration : List String → String
  | [] => ""
  | [name] => Text.quote name
  | [first, second] => Text.quote first ++ " and " ++ Text.quote second
  | names =>
      let parts := names.map Text.quote
      String.intercalate ", " (parts.take (parts.length - 1)) ++ ", and " ++ parts.getLastD ""

/-- Too many positional arguments. -/
def tooMany (signature : Signature) (given : Nat) : Fault :=
  let most := signature.parameters.length
  let least := (signature.parameters.filter (·.required)).length
  let counts :=
    if least < most then "from " ++ toString least ++ " to " ++ toString most else toString most
  let plural := if least < most || most != 1 then "s" else ""
  .typeError (signature.label ++ "() takes " ++ counts ++ " positional argument" ++ plural ++
    " but " ++ toString given ++ (if given = 1 then " was given" else " were given"))

/-- Required parameters without an argument. -/
def missing (signature : Signature) (names : List String) : Fault :=
  .typeError (signature.label ++ "() missing " ++ toString names.length ++
    " required positional argument" ++ (if names.length = 1 then "" else "s") ++ ": " ++
    enumeration names)

/-- Assigns a named argument to its parameter. -/
def assign (signature : Signature) (name : String) (value : Value) :
    List (Parameter × Option Value) → Heap (Option (List (Parameter × Option Value)))
  | [] => return none
  | (parameter, old) :: rest => do
      if parameter.name = name then
        if old.isSome then throw (.typeError
          (signature.label ++ "() got multiple values for argument " ++ Text.inQuotes name))
        else return some ((parameter, some value) :: rest)
      else return (← signature.assign name value rest).map ((parameter, old) :: ·)

/-- Assigns the named arguments; the second component collects those without a parameter. -/
def assignNamed (signature : Signature) :
    List (String × Value) → List (Parameter × Option Value) →
      Heap (List (Parameter × Option Value) × List (String × Value))
  | [], slots => return (slots, [])
  | (name, value) :: rest, slots => do
      match ← signature.assign name value slots with
      | some slots => signature.assignNamed rest slots
      | none =>
          if signature.keywords then
            let (slots, others) ← signature.assignNamed rest slots
            return (slots, (name, value) :: others)
          else throw (.typeError (signature.label ++ "() got an unexpected keyword argument " ++
            Text.inQuotes name))

/-- Assigns arguments to parameters. -/
def bind (signature : Signature) (arguments : Arguments) : Heap Binding := do
  let count := signature.parameters.length
  let given := arguments.positional
  let slots := signature.parameters.zip
    ((given.take count).map some ++ List.replicate (count - given.length) none)
  let (slots, others) ← signature.assignNamed arguments.named slots
  if count < given.length && !signature.rest then throw (signature.tooMany given.length)
  let unfilled := slots.filter fun slot => slot.1.required && slot.2.isNone
  if !unfilled.isEmpty then throw (signature.missing (unfilled.map fun slot => slot.1.name))
  return ⟨slots.map (·.2), given.drop count, others⟩

end Signature

/-- The ways in which built-in methods take arguments. -/
inductive Arity where
  /-- None at all. -/
  | none
  /-- Exactly one. -/
  | one
  /-- Positional ones between two counts. -/
  | between (least most : Nat)
  /-- The same, in another wording. -/
  | counted (least most : Nat)
  /-- Optional ones that can be named. -/
  | optional (names : List String)
  /-- The same, but only the first few of them without their names. -/
  | optionalWithin (count : Nat) (names : List String)
  /-- Ones that can be named, the first few of them required. -/
  | mixed (least : Nat) (names : List String)
  /-- Whatever is given. -/
  | any
deriving Repr, Inhabited

namespace Arity

/-- A count of arguments in words. -/
def countText (count : Nat) : String :=
  toString count ++ " argument" ++ (if count = 1 then "" else "s")

/-- Fills named arguments into the places after the positional ones. -/
def fillNamed (name : String) (names : List String) :
    List (String × Value) → List (Option Value) → Heap (List (Option Value))
  | [], slots => return slots
  | (key, value) :: rest, slots => do
      match names.findIdx? (· == key) with
      | Option.none => throw (.typeError
          (Text.inQuotes key ++ " is an invalid keyword argument for " ++ name ++ "()"))
      | some index =>
          if (slots[index]?.getD Option.none).isSome then throw (.typeError
            ("argument for " ++ name ++ "() given by name (" ++ Text.quote key ++
              ") and position (" ++ toString (index + 1) ++ ")"))
          else fillNamed name names rest (slots.set index (some value))

/-- Checks arguments that can all be given by name and left out, and puts them into their places.  Only
so many of them can be given without a name. -/
def checkOptional (name : String) (unnamed : Nat) (names : List String) (arguments : Arguments) :
    Heap (List (Option Value)) := do
  let given := arguments.positional.length
  let most := names.length
  let total := given + arguments.named.length
  if most < total then
    let kind := if given = 0 then "keyword argument" else "argument"
    throw (.typeError (name ++ "() takes at most " ++ toString most ++ " " ++ kind ++
      (if most = 1 then "" else "s") ++ " (" ++ toString total ++ " given)"))
  else if unnamed < given then
    throw (.typeError (name ++ "() takes at most " ++ toString unnamed ++
      " positional arguments (" ++ toString given ++ " given)"))
  else
    fillNamed name names arguments.named
      (arguments.positional.map some ++ List.replicate (most - given) Option.none)

/-- Checks the arguments of a method of a type, and puts them into their places. -/
def check (arity : Arity) (type name : String) (arguments : Arguments) :
    Heap (List (Option Value)) := do
  let given := arguments.positional.length
  let full := type ++ "." ++ name ++ "()"
  let places (count : Nat) : List (Option Value) :=
    arguments.positional.map some ++ List.replicate (count - given) Option.none
  match arity with
  | .any => return arguments.positional.map some
  | .none =>
      if !arguments.named.isEmpty then throw (.typeError (full ++ " takes no keyword arguments"))
      else if given != 0 then
        throw (.typeError (full ++ " takes no arguments (" ++ toString given ++ " given)"))
      else return []
  | .one =>
      if !arguments.named.isEmpty then throw (.typeError (full ++ " takes no keyword arguments"))
      else if given != 1 then
        throw (.typeError (full ++ " takes exactly one argument (" ++ toString given ++ " given)"))
      else return places 1
  | .between least most =>
      if !arguments.named.isEmpty then throw (.typeError (full ++ " takes no keyword arguments"))
      else if given < least || most < given then
        let bound := if least = most then countText most
          else if given < least then "at least " ++ countText least
          else "at most " ++ countText most
        throw (.typeError (name ++ " expected " ++ bound ++ ", got " ++ toString given))
      else return places most
  | .counted least most =>
      if !arguments.named.isEmpty then
        throw (.typeError (name ++ "() takes no keyword arguments"))
      else if given < least || most < given then
        let bound := if given < least then "at least " ++ countText least
          else "at most " ++ countText most
        throw (.typeError
          (name ++ "() takes " ++ bound ++ " (" ++ toString given ++ " given)"))
      else return places most
  | .mixed least names =>
      let most := names.length
      let total := given + arguments.named.length
      if most < total then
        throw (.typeError (name ++ "() takes at most " ++ countText most ++ " (" ++
          toString total ++ " given)"))
      else
        let isNamed (key : String) : Bool := arguments.named.any fun entry => entry.1 == key
        match ((names.take least).zipIdx.find? fun (key, index) => given ≤ index && !isNamed key) with
        | some (key, index) => throw (.typeError (name ++ "() missing required argument " ++
            Text.quote key ++ " (pos " ++ toString (index + 1) ++ ")"))
        | Option.none => fillNamed name names arguments.named (places most)
  | .optional names => checkOptional name names.length names arguments
  | .optionalWithin count names => checkOptional name count names arguments

end Arity

namespace Value

/-- An integer argument. -/
def requireInt (value : Value) : Heap Int := do
  match value.asInt? with
  | some number => return number
  | none => throw (.typeError
      ("'" ++ value.typeName ++ "' object cannot be interpreted as an integer"))

/-- An integer argument that fits into a signed word with a number of bits. -/
def requireWord (bits : Nat) (wordName : String) (value : Value) : Heap Int := do
  let number ← requireInt value
  if -(2 : Int) ^ (bits - 1) ≤ number && number < (2 : Int) ^ (bits - 1) then return number
  else throw (.error .overflow ("Python int too large to convert to C " ++ wordName))

/-- An argument that is a length, a count or a position. -/
def requireSize (value : Value) : Heap Int := requireWord 64 "ssize_t" value

/-- An argument that is a small number. -/
def requireSmall (value : Value) : Heap Int := requireWord 32 "int" value

/-- A text argument. -/
def requireText (value : Value) : Heap (List Char) := do
  match value with
  | text content => return content.toList
  | unpaired codes => throw (.unpaired codes)
  | other => throw (.typeError ("must be str, not " ++ other.typeName))

/-- A position counted from the end if it is negative, but not in front of the start. -/
def placeOf (length : Nat) (position : Int) : Nat :=
  if position < 0 then (position + Int.ofNat length).toNat else position.toNat

/-- A bound of a piece. -/
def readBound (value : Option Value) (length : Nat) (default : Nat) : Heap Nat := do
  match value with
  | none => return default
  | some null => return default
  | some other =>
      match other.asInt? with
      | some number => return placeOf length number
      | none => throw (.typeError
          "slice indices must be integers or None or have an __index__ method")

/-- The start and the end of a piece.  The end is within the length; the start may be behind it. -/
def readBounds (start stop : Option Value) (length : Nat) : Heap (Nat × Nat) := do
  let first ← readBound start length 0
  let last ← readBound stop length length
  return (first, min last length)

/-- A bound that has to be an integer if it is given. -/
def readStrictBound (value : Option Value) (length : Nat) (default : Nat) : Heap Nat := do
  match value with
  | none => return default
  | some other =>
      match other.asInt? with
      | some number => return placeOf length number
      | none => throw (.typeError "slice indices must be integers or have an __index__ method")

/-- The start and the end of a search for an item, either of which may be behind the last one. -/
def readStrictBounds (start stop : Option Value) (length : Nat) : Heap (Nat × Nat) := do
  let first ← readStrictBound start length 0
  let last ← readStrictBound stop length length
  return (first, last)

/-- A slice of a sequence: where it starts and ends, its step, and the number of its items. -/
structure Piece where
  first : Int
  last : Int
  stride : Int
  count : Nat
deriving Repr, Inhabited

/-- What a slice takes from a sequence of a length. -/
def pieceOf (length : Nat) (start stop step : Value) : Heap Piece := do
  let bound (value : Value) : Heap (Option Int) := do
    match value with
    | null => return none
    | other =>
        match other.asInt? with
        | some number => return some number
        | none => throw (.typeError
            "slice indices must be integers or None or have an __index__ method")
  -- the step is looked at first, then the start, then the end
  let stride := (← bound step).getD 1
  if stride = 0 then throw (.valueError "slice step cannot be zero")
  let size := Int.ofNat length
  let low : Int := if stride < 0 then -1 else 0
  let high : Int := if stride < 0 then size - 1 else size
  let place (given : Option Int) (default : Int) : Int :=
    match given with
    | none => default
    | some position =>
        let position := if position < 0 then position + size else position
        if position < low then low else if high < position then high else position
  let first := place (← bound start) (if stride < 0 then high else low)
  let last := place (← bound stop) (if stride < 0 then low else high)
  return ⟨first, last, stride, rangeLength first last stride⟩

/-- The items of a sequence that a slice takes. -/
def Piece.take {α : Type} (piece : Piece) (content : List α) : List α :=
  if piece.stride = 1 then (content.drop piece.first.toNat).take piece.count
  else
    let table := content.toArray
    (List.range piece.count).filterMap fun index =>
      table[(piece.first + piece.stride * Int.ofNat index).toNat]?

end Value

end Imprint
