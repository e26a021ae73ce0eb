import Imprint.Value.Percent

set_option autoImplicit false

/-!
# Looking into values

Expressions reach into values by name and by position or key.  What is not there is undefined, and
names that start with an underscore are refused, so that only the data themselves can be reached.
Filling in braces goes through the same two functions.
-/

namespace Imprint.Expression

/-- The value of a name that may be refused. -/
def allowed (value : Value) (name : String) (found : Value) : Value :=
  if value.isForbidden name then .undefined false (.forbidden value.shortTypeName name) else found

/-- What a name reaches: an attribute, or else the item under that key. -/
def getAttribute (value : Value) (name : String) : Heap Value := do
  match ← value.attribute? name with
  | some found => return allowed value name found
  | none =>
      match ← value.item? (.text name) with
      | some found => return found
      | none => return .undefined false (.attribute value.description name)

/-- What a position or key reaches: an item, or else the attribute of that name. -/
def getItem (value key : Value) : Heap Value := do
  match ← value.item? key with
  | some found => return found
  | none =>
      match key with
      | .text name =>
          match ← value.attribute? name with
          | some found => return allowed value name found
          | none => return .undefined false (.attribute value.description name)
      | .unpaired codes =>
          return .undefined false (.attribute value.description (String.ofList (codes.flatMap Text.shownCode)))
      | _ => return .undefined false (.element value.description (String.ofList (← key.shown)))

/-- Which names fields without a name take. -/
inductive Numbering where
  | unused
  | automatic (next : Nat)
  | manual
deriving Repr, Inhabited

/-- A field in braces, and the text in front of it. -/
structure BraceField where
  literal : List Char
  /-- Name, format and conversion; none if only text is left or a brace was doubled. -/
  field : Option (List Char × List Char × Option Char)
  rest : List Char
deriving Repr, Inhabited

/-- Splits off the name of a field; brackets hide what ends it.  The last component is the letter that
ended it. -/
def splitFieldName : Bool → List Char → List Char → Heap (List Char × Option Char × List Char)
  | _, name, [] => return (name.reverse, none, [])
  | true, name, letter :: rest =>
      splitFieldName (letter != ']') (letter :: name) rest
  | false, name, letter :: rest =>
      match letter with
      | '\x7b' => throw (.valueError "unexpected '\x7b' in field name")
      | '[' => splitFieldName true ('[' :: name) rest
      | '\x7d' => return (name.reverse, some letter, rest)
      | ':' => return (name.reverse, some letter, rest)
      | '!' => return (name.reverse, some letter, rest)
      | _ => splitFieldName false (letter :: name) rest

/-- Splits off the format of a field up to the brace that closes it. -/
def splitFieldFormat : Nat → List Char → List Char → Heap (List Char × List Char)
  | _, _, [] => throw (.valueError "unmatched '\x7b' in format spec")
  | depth, format, letter :: rest =>
      if letter = '\x7b' then splitFieldFormat (depth + 1) (letter :: format) rest
      else if letter = '\x7d' then
        match depth with
        | 0 => return (format.reverse, rest)
        | depth + 1 => splitFieldFormat depth (letter :: format) rest
      else splitFieldFormat depth (letter :: format) rest

/-- Reads a field behind its opening brace. -/
def readField (literal letters : List Char) : Heap BraceField := do
  let (name, ending, rest) ← splitFieldName false [] letters
  match ending with
  | some ':' =>
      let (format, rest) ← splitFieldFormat 0 [] rest
      return ⟨literal, some (name, format, none), rest⟩
  | some '!' =>
      match rest with
      | [] => throw (.valueError "end of string while looking for conversion specifier")
      | [_] => throw (.valueError "unmatched '\x7b' in format spec")
      | conversion :: next :: rest =>
          if next = '\x7d' then return ⟨literal, some (name, [], some conversion), rest⟩
          else if next != ':' then
            throw (.valueError "expected ':' after conversion specifier")
          else
            let (format, rest) ← splitFieldFormat 0 [] rest
            return ⟨literal, some (name, format, some conversion), rest⟩
  | some _ => return ⟨literal, some (name, [], none), rest⟩
  | none => throw (.valueError "expected '\x7d' before end of string")

/-- Reads text up to the next field. -/
def nextField (letters : List Char) : Heap BraceField := do
  let isPlain (letter : Char) : Bool := letter != '\x7b' && letter != '\x7d'
  let literal := letters.takeWhile isPlain
  match letters.dropWhile isPlain with
  | [] => return ⟨literal, none, []⟩
  | ['\x7d'] => throw (.valueError "Single '\x7d' encountered in format string")
  | ['\x7b'] => throw (.valueError "Single '\x7b' encountered in format string")
  | brace :: rest =>
      if rest.head? = some brace then return ⟨literal ++ [brace], none, rest.drop 1⟩
      else if brace = '\x7d' then
        throw (.valueError "Single '\x7d' encountered in format string")
      else readField literal rest

/-- A number made of digits only. -/
def fieldIndex? (name : List Char) : Option Nat :=
  if !name.isEmpty && name.all fun letter => (Text.decimalValue? letter).isSome then
    some (name.foldl (fun value letter => 10 * value + (Text.decimalValue? letter).getD 0) 0)
  else none

/-- Follows the steps behind the first part of a field's name; the number bounds their count. -/
def followField : Nat → Value → List Char → Heap Value
  | 0, value, _ => return value
  | _, value, [] => return value
  | fuel + 1, value, '.' :: rest => do
      let name := rest.takeWhile fun letter => letter != '.' && letter != '['
      if name.isEmpty then throw (.valueError "Empty attribute in format string")
      followField fuel (← getAttribute value (String.ofList name)) (rest.drop name.length)
  | fuel + 1, value, '[' :: rest => do
      let name := rest.takeWhile (· != ']')
      if name.length = rest.length then throw (.valueError "Missing ']' in format string")
      if name.isEmpty then throw (.valueError "Empty attribute in format string")
      let key := match fieldIndex? name with
        | some index => Value.int (Int.ofNat index)
        | none => Value.ofText name
      followField fuel (← getItem value key) (rest.drop (name.length + 1))
  | _ + 1, _, _ => throw (.valueError
      "Only '.' or '[' may follow ']' in format field specifier")

/-- Where the fields of a pattern take their values from. -/
structure FieldValues where
  positional : List Value
  named : Value

/-- The value that the first part of a field's name stands for. -/
def fieldStart (values : FieldValues) (name : List Char) : Heap Value := do
  match fieldIndex? name with
  | some index =>
      match values.positional[index]? with
      | some value => return value
      | none => throw (.indexError "tuple index out of range")
  | none =>
      match values.named with
      | .dict cell =>
          match ← Value.lookup (Value.ofText name) (← Heap.entries cell) with
          | some value => return value
          | none => throw (.error .key (String.ofList (Text.quoted name)))
      | .undefined _ missing => throw (.undefined missing)
      | .list _ => throw (.typeError "list indices must be integers or slices, not str")
      | .tuple _ => throw (.typeError "tuple indices must be integers or slices, not str")
      | .text _ => throw (.typeError "string indices must be integers, not 'str'")
      | other => throw (.typeError ("'" ++ other.typeName ++ "' object is not subscriptable"))

/-- A value after the conversion of a field. -/
def convertField (conversion : Option Char) (value : Value) : Heap Value := do
  match conversion with
  | none => return value
  | some 's' => return .ofText (← value.plain)
  | some 'r' => return .ofText (← value.shown)
  | some 'a' => return .ofText ((← value.shown).flatMap fun letter =>
      if letter.toNat < 128 then [letter] else Text.codeEscape letter)
  | some other => throw (.valueError ("Unknown conversion specifier " ++ String.singleton other))

/-- The name of a field after numbering. -/
def numberField (numbering : Numbering) (name : List Char) : Heap (List Char × Numbering) := do
  if name.isEmpty then
    match numbering with
    | .manual => throw (.valueError
        "cannot switch from manual field specification to automatic field numbering")
    | .unused => return (['0'], .automatic 1)
    | .automatic next => return ((toString next).toList, .automatic (next + 1))
  else if name.all Text.isDigit then
    match numbering with
    | .automatic _ => throw (.valueError
        "cannot switch from manual field specification to automatic field numbering")
    | _ => return (name, .manual)
  else return (name, numbering)

/-- Fills in the fields of a pattern; formats may hold fields themselves, down to a depth. -/
def fillFields (values : FieldValues) :
    Nat → Nat → List Char → Numbering → Heap (List Char × Numbering)
  | 0, _, _, _ => throw (.valueError "Max string recursion exceeded")
  | _, 0, letters, numbering => return (letters, numbering)
  | depth + 1, fuel + 1, letters, numbering => do
      if letters.isEmpty then return ([], numbering)
      let found ← nextField letters
      let (filled, numbering) ← match found.field with
        | none => pure ([], numbering)
        | some (name, format, conversion) => do
            let (name, numbering) ← numberField numbering name
            let first := name.takeWhile fun letter => letter != '.' && letter != '['
            let start ← fieldStart values first
            let value ← followField (name.length + 1) start (name.drop first.length)
            let value ← convertField conversion value
            let (format, numbering) ←
              fillFields values depth (format.length + 1) format numbering
            pure (← value.formatted format, numbering)
      let (others, numbering) ← fillFields values (depth + 1) fuel found.rest numbering
      return (found.literal ++ filled ++ others, numbering)

/-- A pattern with its fields in braces filled in. -/
def fillBraces (pattern : String) (positional : List Value) (named : Value) : Heap Value := do
  let letters := pattern.toList
  let (filled, _) ← fillFields ⟨positional, named⟩ 3 (letters.length + 1) letters .unused
  return .ofText filled

/-- Calls a method of a value. -/
def callMethod (receiver : Value) (name : String) (arguments : Arguments) : Heap Value := do
  match receiver, name with
  | .text pattern, "format" =>
      let named ← Heap.newDict (arguments.named.map fun entry => (.text entry.1, entry.2))
      fillBraces pattern arguments.positional named
  | .text pattern, "format_map" =>
      if !arguments.named.isEmpty then
        throw (.typeError "format_map() takes no keyword arguments")
      match arguments.positional with
      | [named] => fillBraces pattern [] named
      | others => throw (.typeError ("format_map() takes exactly one argument (" ++
          toString others.length ++ " given)"))
  | _, _ => receiver.callMethod name arguments

end Imprint.Expression
