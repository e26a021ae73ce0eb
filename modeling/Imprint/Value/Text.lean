import Imprint.Number.Shortest
import Imprint.Text.Search
import Imprint.Value.Basic

set_option autoImplicit false

/-!
# Values as text

`shown` is the form that lets a value be recognised: texts are quoted, and containers show what they
hold.  `plain` is the form that is written into documents: it differs from the first one for texts,
days and moments, and for undefined values, which have no plain text unless they are lenient.
-/

namespace Imprint

-- Powers of numbers are those of the core library, whatever else is imported.
attribute [local instance (high)] instPowNat

/-- Most digits that an integer may have to be written. -/
def digitLimit : Nat := 4300

/-- An integer with more digits than can be written. -/
def Fault.tooManyDigits : Fault :=
  .valueError ("Exceeds the limit (4300 digits) for integer string conversion; " ++
    "use sys.set_int_max_str_digits() to increase the limit")

namespace Value

/-- Decimal digits of an integer with its sign. -/
def intText (number : Int) : Heap (List Char) :=
  -- below this many binary digits there cannot be too many decimal ones
  if Number.bitLength number.natAbs ≤ 14000 || number.natAbs < 10 ^ digitLimit then
    return (toString number).toList
  else throw .tooManyDigits

/-- A call as it would be written, with the parts of a moment that are not zero at its end. -/
def callText (name : String) (required : List Nat) (optional : List Nat) : List Char :=
  let kept := (optional.reverse.dropWhile (· == 0)).reverse
  let parts := (required ++ kept).map fun part => (toString part).toList
  name.toList ++ '(' :: Text.joinWith [',', ' '] parts ++ [')']

/-- The day written as a call. -/
def dateText (day : Calendar.Date) : List Char :=
  callText "datetime.date" [day.year, day.month, day.day] []

/-- The moment written as a call. -/
def momentText (moment : Calendar.Moment) : List Char :=
  let day := moment.date
  let clock := moment.clock
  callText "datetime.datetime" [day.year, day.month, day.day, clock.hour, clock.minute]
    [clock.second, clock.microsecond]

/-- The time of day written as a call. -/
def clockText (time : Calendar.Clock) : List Char :=
  callText "datetime.time" [time.hour, time.minute] [time.second, time.microsecond]

/-- The duration written as a call. -/
def durationText (duration : Calendar.Duration) : List Char :=
  let parts := duration.parts.map fun part => (part.1 ++ "=" ++ toString part.2).toList
  let parts := if parts.isEmpty then [['0']] else parts
  "datetime.timedelta(".toList ++ Text.joinWith [',', ' '] parts ++ [')']

/-- Bounds and step of a range. -/
def rangeText (start stop step : Int) : Heap (List Char) := do
  let first ← intText start
  let last ← intText stop
  let parts ← if step = 1 then pure [first, last] else pure [first, last, ← intText step]
  return "range(".toList ++ Text.joinWith [',', ' '] parts ++ [')']

/-- The entries of a dictionary as seen by one of its views. -/
def viewItems (part : ViewPart) (entries : List (Value × Value)) : List Value :=
  match part with
  | .keys => entries.map (·.1)
  | .values => entries.map (·.2)
  | .items => entries.map fun entry => tuple [entry.1, entry.2]

/-- Text of a value of an opaque kind. -/
def opaqueText (label : String) : List Char :=
  '<' :: label.toList ++ ['>']

/-- The recognisable form, followed down to a depth; `inside` lists the cells around the value. -/
def shownIn : Nat → List Nat → Value → Heap (List Char)
  | 0, _, _ => throw (.error .recursion
      "maximum recursion depth exceeded while getting the repr of an object")
  | fuel + 1, inside, value =>
      let pair (inside : List Nat) (entry : Value × Value) : Heap (List Char) := do
        let left ← shownIn fuel inside entry.1
        let right ← shownIn fuel inside entry.2
        return left ++ [':', ' '] ++ right
      let field (entry : String × Value) : Heap (List Char) := do
        return entry.1.toList ++ '=' :: (← shownIn fuel inside entry.2)
      match value with
      | null => return "None".toList
      | bool truth => return (if truth then "True" else "False").toList
      | int number => intText number
      | float number => return Number.floatText number
      | text content => return Text.quoted content.toList
      | unpaired codes => return Text.quotedCodes codes
      | bytes content => return Text.quotedBytes content
      | list cell =>
          if inside.contains cell then return "[...]".toList
          else do
            let parts ← (← Heap.items cell).mapM (shownIn fuel (cell :: inside))
            return '[' :: Text.joinWith [',', ' '] parts ++ [']']
      | dict cell =>
          if inside.contains cell then return "\x7b...\x7d".toList
          else do
            let parts ← (← Heap.entries cell).mapM (pair (cell :: inside))
            return '\x7b' :: Text.joinWith [',', ' '] parts ++ ['\x7d']
      | tuple content => do
          let parts ← content.mapM (shownIn fuel inside)
          let ending := if parts.length = 1 then [',', ')'] else [')']
          return '(' :: Text.joinWith [',', ' '] parts ++ ending
      | range start stop step => rangeText start stop step
      | date day => return dateText day
      | moment at_ => return momentText at_
      | clock time => return clockText time
      | duration length => return durationText length
      | money _ currency cents => do
          return (currencyName currency).toList ++ '(' :: (← intText cents) ++ [')']
      | record _ kind fields _ => do
          let parts ← fields.mapM field
          let name := match kind with
            | .bare => "namespace"
            | .root => "Root"
          return name.toList ++ '(' :: Text.joinWith [',', ' '] parts ++ [')']
      | element node =>
          match node.tag? with
          | some tag => return opaqueText ("Element " ++ tag.fullText)
          | none => return opaqueText "!--"
      | function callee => return opaqueText (calleeTypeName callee)
      | view part cell => do
          let parts ← (viewItems part (← Heap.entries cell)).mapM (shownIn fuel inside)
          let name := match part with
            | .keys => "dict_keys(["
            | .values => "dict_values(["
            | .items => "dict_items(["
          return name.toList ++ Text.joinWith [',', ' '] parts ++ [']', ')']
      | stream typeName _ _ => return opaqueText (typeName ++ " object")
      | undefined .. => return "Undefined".toList
      | self => return opaqueText "TemplateReference None"
      | foreign _ label => return label.toList

/-- The recognisable form of a value. -/
def shown (value : Value) : Heap (List Char) :=
  shownIn nestingLimit [] value

/-- The plain form of a value. -/
def plain (value : Value) : Heap (List Char) :=
  match value with
  | text content => return content.toList
  | unpaired codes => throw (.unpaired codes)
  | date day => return day.text.toList
  | moment at_ => return (at_.text " ").toList
  | clock time => return time.text.toList
  | duration length => return length.text.toList
  | undefined true _ => return []
  | undefined false missing => throw (.undefined missing)
  | _ => value.shown

/-- The codes of the plain form of a value, which can hold halves of pairs. -/
def plainCodes (value : Value) : Heap (List Nat) :=
  match value with
  | unpaired codes => return codes
  | other => do return (← other.plain).map Char.toNat

end Value

end Imprint
