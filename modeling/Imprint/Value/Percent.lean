import Imprint.Value.Member

set_option autoImplicit false

/-!
# Patterns with percent signs

A pattern is text with places for values.  A place is a percent sign, an optional key in parentheses,
flags, a width, a precision and a letter that says how the value is written.  Values come from a
tuple in order, from a mapping by key, or there is just one.
-/

namespace Imprint.Value

-- Powers of numbers are those of the core library, whatever else is imported.
attribute [local instance (high)] instPowNat

/-- A place in a pattern. -/
structure Place where
  left : Bool
  signed : Bool
  blank : Bool
  alternate : Bool
  zeros : Bool
  width : Nat
  precision : Option Nat
deriving Repr, Inhabited

/-- The values that are left for the places of a pattern. -/
structure PlaceValues where
  pending : List Value
  mapping : Option Value
deriving Inhabited

/-- Whether a value can be looked into by key. -/
def isMapping : Value → Bool
  | list _ | dict _ | range .. | element _ | undefined .. | self | bytes _ => true
  | _ => false

/-- Takes the next value. -/
def takePlaceValue (values : PlaceValues) : Heap (Value × PlaceValues) := do
  match values.pending with
  | value :: rest => return (value, { values with pending := rest })
  | [] => throw (.typeError "not enough arguments for format string")

/-- Reads the flags of a place. -/
def readPlaceFlags : Place → List Char → Place × List Char
  | place, '-' :: rest => readPlaceFlags { place with left := true } rest
  | place, '+' :: rest => readPlaceFlags { place with signed := true } rest
  | place, ' ' :: rest => readPlaceFlags { place with blank := true } rest
  | place, '#' :: rest => readPlaceFlags { place with alternate := true } rest
  | place, '0' :: rest => readPlaceFlags { place with zeros := true } rest
  | place, rest => (place, rest)

/-- Reads a count of digits; there may be none. -/
def readPlaceCount (cause : String) (letters : List Char) : Heap (Nat × List Char) := do
  let digits := letters.takeWhile Char.isDigit
  let count : Nat := digits.foldl (fun count letter => 10 * count + (letter.toNat - 48)) 0
  if count ≥ 2 ^ (31 : Nat) - 1 then throw (.valueError (cause ++ " too big"))
  return (count, letters.drop digits.length)

/-- Splits off a key in parentheses; parentheses inside it have to match. -/
def readPlaceKey : Nat → List Char → List Char → Option (List Char × List Char)
  | _, _, [] => none
  | depth, key, ')' :: rest =>
      match depth with
      | 0 => some (key.reverse, rest)
      | depth + 1 => readPlaceKey depth (')' :: key) rest
  | depth, key, '(' :: rest => readPlaceKey (depth + 1) ('(' :: key) rest
  | depth, key, letter :: rest => readPlaceKey depth (letter :: key) rest

/-- Writes a body with its sign and mark into the width of a place. -/
def writePlace (place : Place) (fill : Char) (sign mark body : List Char) : List Char :=
  let missing := place.width - (sign.length + mark.length + body.length)
  if place.left then sign ++ mark ++ body ++ List.replicate missing ' '
  else if fill = ' ' then List.replicate missing ' ' ++ sign ++ mark ++ body
  else sign ++ mark ++ List.replicate missing fill ++ body

/-- The sign that a place shows. -/
def placeSign (place : Place) (negative : Bool) : List Char :=
  if negative then ['-'] else if place.signed then ['+'] else if place.blank then [' '] else []

/-- An integer in a place. -/
def integerPlace (place : Place) (code : Char) (value : Value) : Heap (List Char) := do
  let hexadecimal := code = 'x' || code = 'X'
  let whole := hexadecimal || code = 'o'
  let number ← match value with
    | float number =>
        if whole then throw (.typeError ("%" ++ String.singleton code ++
          " format: an integer is required, not float"))
        else
          match Number.view number, Number.truncate? number with
          | .nan, _ => throw (.valueError "cannot convert float NaN to integer")
          | _, some number => pure number
          | _, none => throw (.error .overflow "cannot convert float infinity to integer")
    | other =>
        match other.asInt? with
        | some number => pure number
        | none => throw (.typeError ("%" ++ String.singleton code ++ " format: " ++
            (if whole then "an integer" else "a real number") ++ " is required, not " ++
            other.typeName))
  let base := if hexadecimal then 16 else if code = 'o' then 8 else 10
  let digits ← if base = 10 then intText (Int.ofNat number.natAbs)
    else pure (Number.digitsIn base number.natAbs)
  let digits := Number.zeroFill (place.precision.getD 0) digits
  let digits := if code = 'X' then digits.map Char.toUpper else digits
  let mark := if place.alternate && whole then ['0', code] else []
  return writePlace place (if place.zeros then '0' else ' ') (placeSign place (number < 0)) mark
    digits

/-- A floating point number in a place. -/
def floatPlace (place : Place) (code : Char) (value : Value) : Heap (List Char) := do
  let number ← match ← toFloat value with
    | some number => pure number
    | none => throw (.typeError ("must be real number, not " ++ value.typeName))
  let raised (letters : List Char) : List Char :=
    if code.isUpper then letters.map Char.toUpper else letters
  let fill := if place.zeros then '0' else ' '
  match Number.view number with
  | .nan => return writePlace place fill (placeSign place false) [] (raised ['n', 'a', 'n'])
  | .infinite negative =>
      return writePlace place fill (placeSign place negative) [] (raised ['i', 'n', 'f'])
  | .finite negative mantissa exponent =>
      let layout : Number.Layout :=
        if code.toLower = 'e' then .exponent else if code.toLower = 'g' then .general else .fixed
      let written :=
        Number.write layout mantissa exponent (place.precision.getD 6) place.alternate
      return writePlace place fill (placeSign place negative) []
        (raised (written.whole ++ written.rest))

/-- A value as a place asks for. -/
def fillPlace (place : Place) (code : Char) (index : Nat) (value : Value) : Heap (List Char) := do
  let cut (letters : List Char) : List Char :=
    match place.precision with
    | some count => letters.take count
    | none => letters
  match code with
  | 's' => return writePlace place ' ' [] [] (cut (← value.plain))
  | 'r' => return writePlace place ' ' [] [] (cut (← value.shown))
  | 'a' =>
      let letters := (← value.shown).flatMap fun letter =>
        if letter.toNat < 128 then [letter] else Text.codeEscape letter
      return writePlace place ' ' [] [] (cut letters)
  | 'c' =>
      match value with
      | text content =>
          if content.length = 1 then return writePlace place ' ' [] [] content.toList
          else throw (.typeError "%c requires int or char")
      | other =>
          match other.asInt? with
          | some number =>
              if number < 0 || 0x10ffff < number then
                throw (.error .overflow "%c arg not in range(0x110000)")
              else return writePlace place ' ' [] [] [Char.ofNat number.toNat]
          | none => throw (.typeError "%c requires int or char")
  | _ =>
      if "diuoxX".toList.contains code then integerPlace place code value
      else if "eEfFgG".toList.contains code then floatPlace place code value
      else
        let visible := if 31 ≤ code.toNat && code.toNat < 126 then code else '?'
        throw (.valueError ("unsupported format character '" ++ String.singleton visible ++
          "' (0x" ++ String.ofList (Number.digitsIn 16 code.toNat) ++ ") at index " ++
          toString index))

/-- A width or precision that is given by a value. -/
def takeCount (require : Value → Heap Int) (values : PlaceValues) : Heap (Int × PlaceValues) := do
  let (value, values) ← takePlaceValue values
  if value.asInt?.isNone then throw (.typeError "* wants int")
  return (← require value, values)

/-- What a place stands for: the text, the values that are left, and the rest of the pattern. -/
def readPlace (size : Nat) (letters : List Char) (values : PlaceValues) :
    Heap (List Char × PlaceValues × List Char) := do
  let (values, letters) ← match letters with
    | '(' :: rest =>
        match values.mapping with
        | none => throw (.typeError "format requires a mapping")
        | some mapping =>
            match readPlaceKey 0 [] rest with
            | none => throw (.valueError "incomplete format key")
            | some (key, rest) =>
                match ← mapping.item? (ofText key) with
                | some found => pure ({ values with pending := [found] }, rest)
                | none =>
                    match mapping with
                    | list _ => throw (.typeError
                        "list indices must be integers or slices, not str")
                    | _ => throw (.error .key (String.ofList (Text.quoted key)))
    | _ => pure (values, letters)
  let (place, letters) := readPlaceFlags ⟨false, false, false, false, false, 0, none⟩ letters
  let (place, values, letters) ← match letters with
    | '*' :: rest => do
        let (width, values) ← takeCount requireSize values
        let place := { place with width := width.natAbs, left := place.left || width < 0 }
        pure (place, values, rest)
    | _ => do
        let (width, rest) ← readPlaceCount "width" letters
        pure ({ place with width := width }, values, rest)
  let (place, values, letters) ← match letters with
    | '.' :: '*' :: rest => do
        let (precision, values) ← takeCount requireSmall values
        pure ({ place with precision := some precision.toNat }, values, rest)
    | '.' :: rest => do
        let (precision, rest) ← readPlaceCount "precision" rest
        pure ({ place with precision := some precision }, values, rest)
    | _ => pure (place, values, letters)
  let letters := match letters with
    | letter :: rest => if letter = 'h' || letter = 'l' || letter = 'L' then rest else letters
    | [] => []
  match letters with
  | [] => throw (.valueError "incomplete format")
  | code :: rest =>
      let (value, values) ← takePlaceValue values
      return (← fillPlace place code (size - letters.length) value, values, rest)

/-- Fills in the places of a pattern. -/
def fillPlaces (size : Nat) : Nat → List Char → PlaceValues → Heap (List Char)
  | 0, letters, _ => return letters
  | _ + 1, [], values => do
      if !values.pending.isEmpty && values.mapping.isNone then
        throw (.typeError "not all arguments converted during string formatting")
      return []
  | fuel + 1, '%' :: '%' :: rest, values => return '%' :: (← fillPlaces size fuel rest values)
  | fuel + 1, '%' :: rest, values => do
      let (filled, values, rest) ← readPlace size rest values
      return filled ++ (← fillPlaces size fuel rest values)
  | fuel + 1, letter :: rest, values => return letter :: (← fillPlaces size fuel rest values)

/-- A pattern with its places filled in by a tuple of values, a mapping, or one value. -/
def fillPattern (pattern : String) (value : Value) : Heap Value := do
  let values : PlaceValues := match value with
    | tuple content => ⟨content, none⟩
    | other => ⟨[other], if other.isMapping then some other else none⟩
  let letters := pattern.toList
  return ofText (← fillPlaces letters.length (letters.length + 1) letters values)

/-- An operation on two values; the remainder of a text is the pattern filled in. -/
def operate (operation : Operation) (left right : Value) : Heap Value :=
  match operation, left with
  | .remainder, text pattern => fillPattern pattern right
  | .remainder, unpaired codes => throw (.unpaired codes)
  | _, _ => arithmetic operation left right

end Imprint.Value
