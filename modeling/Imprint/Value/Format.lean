import Imprint.Calendar.Pattern
import Imprint.Number.Fixed
import Imprint.Value.Arithmetic

set_option autoImplicit false

/-!
# Formatted values

A format says how wide a value is written, how it is aligned and filled, and how numbers are laid
out: `[[fill]align][sign][z][#][0][width][grouping][.precision][type]`.
-/

namespace Imprint.Value

-- Powers of numbers are those of the core library, whatever else is imported.
attribute [local instance (high)] instPowNat

/-- A format. -/
structure Format where
  fill : Char
  align : Option Char
  sign : Option Char
  noNegativeZero : Bool
  alternate : Bool
  width : Option Nat
  grouping : Option Char
  precision : Option Nat
  type : Option Char
deriving Repr, Inhabited

namespace Format

def isAlignment (letter : Char) : Bool :=
  letter = '<' || letter = '>' || letter = '=' || letter = '^'

/-- Splits off decimal digits. -/
def readCount (letters : List Char) : Heap (Option Nat × List Char) := do
  let digits := letters.takeWhile fun letter => (Text.decimalValue? letter).isSome
  let value := digits.foldl
    (fun value letter => 10 * value + (Text.decimalValue? letter).getD 0) 0
  if digits.isEmpty then return (none, letters)
  else if value ≥ 2 ^ (63 : Nat) - 1 then
    throw (.valueError "Too many decimal digits in format string")
  else return (some value, letters.drop digits.length)

/-- A character in the text of a fault. -/
def codeText (code : Char) : String :=
  if 32 < code.toNat && code.toNat < 128 then String.singleton code
  else "\\x" ++ String.ofList (Number.digitsIn 16 code.toNat)

/-- Checks that a separator of groups goes with a type. -/
def requireGrouping (grouping type : Option Char) (usual : Char) : Heap Unit := do
  match grouping with
  | none => return ()
  | some separator =>
      let code := type.getD usual
      if "defgEG%F".toList.contains code || code = '\x00' then return ()
      else if "boxX".toList.contains code && separator = '_' then return ()
      else throw (.valueError ("Cannot specify '" ++ String.singleton separator ++ "' with '" ++
        codeText code ++ "'."))

/-- Reads a format for a value of a type; `usual` is the code that stands for none, and `right`
tells whether such values are usually aligned to the right. -/
def read (text : List Char) (typeName : String) (usual : Char) (right : Bool) : Heap Format := do
  let (fill, align, letters) := match text with
    | first :: second :: rest =>
        if isAlignment second then (some first, some second, rest)
        else if isAlignment first then (none, some first, second :: rest)
        else (none, none, text)
    | [first] => if isAlignment first then (none, some first, []) else (none, none, text)
    | [] => (none, none, text)
  let (sign, letters) := match letters with
    | letter :: rest =>
        if letter = ' ' || letter = '+' || letter = '-' then (some letter, rest) else (none, letters)
    | [] => (none, letters)
  let (noNegativeZero, letters) := match letters with
    | 'z' :: rest => (true, rest)
    | _ => (false, letters)
  let (alternate, letters) := match letters with
    | '#' :: rest => (true, rest)
    | _ => (false, letters)
  let (zeroFilled, letters) := match fill, letters with
    | none, '0' :: rest => (true, rest)
    | _, _ => (false, letters)
  let align := if zeroFilled && align.isNone && right then some '=' else align
  let (width, letters) ← readCount letters
  let (grouping, letters) := match letters with
    | ',' :: rest => (some ',', rest)
    | _ => (none, letters)
  let (grouping, letters) ← match letters with
    | '_' :: rest =>
        if grouping.isSome then throw (.valueError "Cannot specify both ',' and '_'.")
        else pure (some '_', rest)
    | _ => pure (grouping, letters)
  if letters.head? = some ',' && grouping = some '_' then
    throw (.valueError "Cannot specify both ',' and '_'.")
  let (precision, letters) ← match letters with
    | '.' :: rest => do
        let (count, rest) ← readCount rest
        if count.isNone then throw (.valueError "Format specifier missing precision")
        pure (count, rest)
    | _ => pure (none, letters)
  match letters with
  | _ :: _ :: _ => throw (.valueError ("Invalid format specifier '" ++ String.ofList text ++
      "' for object of type '" ++ typeName ++ "'"))
  | _ =>
      let type := letters.head?
      requireGrouping grouping type usual
      return { fill := fill.getD (if zeroFilled then '0' else ' '), align, sign, noNegativeZero,
               alternate, width, grouping, precision, type }

/-- Fills a text up to the width of a format.  `lead` is a sign or mark that stays in front of the
fill if the format asks for that. -/
def fillUp (format : Format) (usual : Char) (lead body : List Char) : List Char :=
  let missing := format.width.getD 0 - (lead.length + body.length)
  let filling (count : Nat) : List Char := List.replicate count format.fill
  match format.align.getD usual with
  | '<' => lead ++ body ++ filling missing
  | '^' => filling (missing / 2) ++ lead ++ body ++ filling (missing - missing / 2)
  | '=' => lead ++ filling missing ++ body
  | _ => filling missing ++ lead ++ body

/-- The sign in front of a number. -/
def signText (format : Format) (negative : Bool) : List Char :=
  if negative then ['-']
  else
    match format.sign with
    | some '+' => ['+']
    | some ' ' => [' ']
    | _ => []

/-- Fills up a number; grouped digits are filled with further groups of zeros. -/
def fillNumber (format : Format) (lead : List Char) (written : Number.Written) (groupSize : Nat) :
    List Char :=
  let whole := match format.grouping with
    | none => written.whole
    | some separator =>
        if written.whole.isEmpty then [] else
        let room :=
          if format.fill = '0' && format.align = some '=' then
            format.width.getD 0 - (lead.length + written.rest.length)
          else 0
        Number.grouped separator groupSize written.whole room
  format.fillUp '>' lead (whole ++ written.rest)

/-- A type that a kind of value does not know. -/
def unknownType (code : Char) (typeName : String) : Fault :=
  .valueError ("Unknown format code '" ++ codeText code ++ "' for object of type '" ++ typeName ++
    "'")

/-- A floating point number in a format. -/
def writeFloat (format : Format) (number : Float) (typeName : String) : Heap (List Char) := do
  let code := format.type.getD '\x00'
  let code := if code = 'n' then 'g' else code
  let percent := code = '%'
  let value := if percent then number * 100 else number
  let capital := code = 'E' || code = 'F' || code = 'G'
  let raised (letters : List Char) : List Char :=
    if capital then letters.map Char.toUpper else letters
  let mark := if percent then ['%'] else []
  if !("\x00eEfFgG%".toList.contains code) then throw (unknownType code typeName)
  match Number.view value with
  | .nan =>
      return format.fillNumber (format.signText false) ⟨[], raised ['n', 'a', 'n'] ++ mark⟩ 3
  | .infinite negative =>
      return format.fillNumber (format.signText negative) ⟨[], raised ['i', 'n', 'f'] ++ mark⟩ 3
  | .finite negative mantissa exponent =>
      let count := format.precision.getD 6
      let written :=
        if code = '\x00' then
          match format.precision with
          | none => Number.writeShortest mantissa exponent format.alternate
          | some count => Number.writeGeneral mantissa exponent count format.alternate true
        else
          let layout : Number.Layout :=
            if code = 'e' || code = 'E' then .exponent
            else if code = 'g' || code = 'G' then .general else .fixed
          Number.write layout mantissa exponent count format.alternate
      let isZero := (written.whole ++ written.rest).all fun letter => !('1' ≤ letter && letter ≤ '9')
      let negative := negative && !(format.noNegativeZero && isZero)
      return format.fillNumber (format.signText negative)
        ⟨written.whole, raised written.rest ++ mark⟩ 3

/-- An integer in a format. -/
def writeInt (format : Format) (number : Int) (typeName : String) : Heap (List Char) := do
  let code := format.type.getD 'd'
  if "eEfFgG%".toList.contains code then
    match Number.ofInt? number with
    | some converted => format.writeFloat converted typeName
    | none => throw (.error .overflow "int too large to convert to float")
  else if !("bcdoxXn".toList.contains code) then throw (unknownType code typeName)
  else if format.precision.isSome then
    throw (.valueError "Precision not allowed in integer format specifier")
  else if format.noNegativeZero then throw (.valueError
    "Negative zero coercion (z) not allowed in integer format specifier")
  else if code = 'c' then
    if format.sign.isSome then
      throw (.valueError "Sign not allowed with integer format specifier 'c'")
    else if format.alternate then throw (.valueError
      "Alternate form (#) not allowed with integer format specifier 'c'")
    else if number < 0 || number > 0x10ffff then
      throw (.error .overflow "%c arg not in range(0x110000)")
    else return format.fillUp '>' [] [Char.ofNat number.toNat]
  else
    let base := if code = 'b' then 2 else if code = 'o' then 8
      else if code = 'x' || code = 'X' then 16 else 10
    let digits ← if base = 10 then intText (Int.ofNat number.natAbs)
      else pure (Number.digitsIn base number.natAbs)
    let digits := if code = 'X' then digits.map Char.toUpper else digits
    let mark := if format.alternate && base != 10 then ['0', code] else []
    return format.fillNumber (format.signText (number < 0) ++ mark) ⟨digits, []⟩
      (if base = 10 then 3 else 4)

/-- A text in a format. -/
def writeText (format : Format) (content : List Char) : Heap (List Char) := do
  let code := format.type.getD 's'
  if code != 's' then throw (unknownType code "str")
  match format.sign with
  | some ' ' => throw (.valueError "Space not allowed in string format specifier")
  | some _ => throw (.valueError "Sign not allowed in string format specifier")
  | none => pure ()
  if format.noNegativeZero then throw (.valueError
    "Negative zero coercion (z) not allowed in string format specifier")
  if format.alternate then throw (.valueError
    "Alternate form (#) not allowed in string format specifier")
  if format.align = some '=' then throw (.valueError
    "'=' alignment not allowed in string format specifier")
  let kept := match format.precision with
    | some count => content.take count
    | none => content
  return format.fillUp '<' [] kept

end Format

/-- A value in a format. -/
def formatted (value : Value) (format : List Char) : Heap (List Char) := do
  match value with
  | text content =>
      (← Format.read format "str" 's' false).writeText content.toList
  | int number =>
      if format.isEmpty then intText number
      else (← Format.read format "int" 'd' true).writeInt number "int"
  | bool truth =>
      if format.isEmpty then value.plain
      else (← Format.read format "bool" 'd' true).writeInt (if truth then 1 else 0) "bool"
  | float number =>
      if format.isEmpty then value.plain
      else (← Format.read format "float" '\x00' true).writeFloat number "float"
  | date day =>
      if format.isEmpty then value.plain
      else return (day.format (String.ofList format)).toList
  | moment at_ =>
      if format.isEmpty then value.plain
      else return (at_.format (String.ofList format)).toList
  | _ =>
      if format.isEmpty then value.plain
      else throw (.typeError
        ("unsupported format string passed to " ++ value.typeName ++ ".__format__"))

/-- An amount in hundredths with two decimal places. -/
def centsText (cents : Int) : List Char :=
  match Number.divideInts? cents 100 with
  | some amount =>
      match Number.view amount with
      | .finite negative mantissa exponent =>
          let written := Number.writeFixed mantissa exponent 2 false
          (if negative then ['-'] else []) ++ written.whole ++ written.rest
      | _ => []
  | none => []

end Imprint.Value
