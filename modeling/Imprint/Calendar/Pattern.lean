import Imprint.Calendar.Date

set_option autoImplicit false

/-!
# Patterns for dates

A pattern is text with fields, each a percent sign, optional flags, an optional width and a letter.
The fields are those of the C library in its plain locale.  The flags choose the padding (`_` spaces,
`0` zeros, `-` none) and the case of names (`^` capitals, `#` the other case).  A field that is not known
stands for itself.
-/

namespace Imprint.Calendar

def weekdayNames : List String :=
  ["Monday", "Tuesday", "Wednesday", "Thursday", "Friday", "Saturday", "Sunday"]

def monthNames : List String :=
  ["January", "February", "March", "April", "May", "June", "July", "August", "September",
    "October", "November", "December"]

/-- How a field is filled up to its width. -/
inductive Padding where
  | usual
  | zeros
  | spaces
  | nothing
deriving DecidableEq

/-- Flags and width of a field. -/
structure FieldStyle where
  padding : Padding
  capitals : Bool
  swapped : Bool
  width : Nat

/-- A field as it is in the calendar: a number with its usual width and fill, or a text. -/
inductive FieldValue where
  | number (value : Nat) (width : Nat) (fill : Char)
  | name (text : String)
  | composed (text : String)

/-- Value of the week of the year if weeks start on the given day: zero before the first one. -/
def weekOfYear (date : Date) (daysSinceStart : Nat) : Nat :=
  (date.yearDay - 1 + 7 - daysSinceStart) / 7

/-- Hour on a dial of twelve. -/
def dialHour (hour : Nat) : Nat :=
  if hour % 12 = 0 then 12 else hour % 12

/-- The value of a field letter. -/
def field? (moment : Moment) (letter : Char) : Option FieldValue :=
  let date := moment.date
  let clock := moment.clock
  let weekday := date.weekday
  let name (names : List String) (index : Nat) : String := names.getD index ""
  let short (text : String) : String := String.ofList (text.toList.take 3)
  let half := if clock.hour < 12 then "AM" else "PM"
  let time := padded 2 clock.hour ++ ":" ++ padded 2 clock.minute
  let fullTime := time ++ ":" ++ padded 2 clock.second
  match letter with
  | 'a' => some (.name (short (name weekdayNames weekday)))
  | 'A' => some (.name (name weekdayNames weekday))
  | 'b' => some (.name (short (name monthNames (date.month - 1))))
  | 'h' => some (.name (short (name monthNames (date.month - 1))))
  | 'B' => some (.name (name monthNames (date.month - 1)))
  | 'c' =>
      let day := toString date.day
      some (.composed (short (name weekdayNames weekday) ++ " " ++
        short (name monthNames (date.month - 1)) ++ " " ++
        (if day.length < 2 then " " ++ day else day) ++ " " ++ fullTime ++ " " ++ toString date.year))
  | 'C' => some (.number (date.year / 100) 1 '0')
  | 'd' => some (.number date.day 2 '0')
  | 'D' => some (.composed (padded 2 date.month ++ "/" ++ padded 2 date.day ++ "/" ++
      padded 2 (date.year % 100)))
  | 'e' => some (.number date.day 2 ' ')
  | 'f' => some (.number clock.microsecond 6 '0')
  | 'F' => some (.composed (toString date.year ++ "-" ++ padded 2 date.month ++ "-" ++
      padded 2 date.day))
  | 'g' => some (.number (date.isoWeek.1 % 100) 2 '0')
  | 'G' => some (.number date.isoWeek.1 1 '0')
  | 'H' => some (.number clock.hour 2 '0')
  | 'I' => some (.number (dialHour clock.hour) 2 '0')
  | 'j' => some (.number date.yearDay 3 '0')
  | 'k' => some (.number clock.hour 2 ' ')
  | 'l' => some (.number (dialHour clock.hour) 2 ' ')
  | 'm' => some (.number date.month 2 '0')
  | 'M' => some (.number clock.minute 2 '0')
  | 'n' => some (.composed "\n")
  | 'p' => some (.name half)
  | 'P' => some (.name half.toLower)
  | 'r' => some (.composed (padded 2 (dialHour clock.hour) ++ ":" ++ padded 2 clock.minute ++ ":" ++
      padded 2 clock.second ++ " " ++ half))
  | 'R' => some (.composed time)
  | 's' =>
      let days := Int.ofNat date.ordinal - Int.ofNat (Date.mk 1970 1 1).ordinal
      let seconds := days * 86400 + Int.ofNat (clock.microseconds / 1000000)
      if seconds < 0 then some (.composed (toString seconds))
      else some (.number seconds.toNat 1 '0')
  | 'S' => some (.number clock.second 2 '0')
  | 't' => some (.composed "\t")
  | 'T' => some (.composed fullTime)
  | 'u' => some (.number (weekday + 1) 1 '0')
  | 'U' => some (.number (weekOfYear date ((weekday + 1) % 7)) 2 '0')
  | 'V' => some (.number date.isoWeek.2 2 '0')
  | 'w' => some (.number ((weekday + 1) % 7) 1 '0')
  | 'W' => some (.number (weekOfYear date weekday) 2 '0')
  | 'x' => some (.composed (padded 2 date.month ++ "/" ++ padded 2 date.day ++ "/" ++
      padded 2 (date.year % 100)))
  | 'X' => some (.composed fullTime)
  | 'y' => some (.number (date.year % 100) 2 '0')
  | 'Y' => some (.number date.year 1 '0')
  | 'z' => some (.composed "")
  | 'Z' => some (.composed "")
  | '%' => some (.composed "%")
  | _ => none

/-- Puts fill characters in front of a text. -/
def fillTo (width : Nat) (fill : Char) (text : List Char) : List Char :=
  List.replicate (width - text.length) fill ++ text

/-- Writes a field in a style. -/
def FieldValue.write (value : FieldValue) (style : FieldStyle) (isHalfDay : Bool) : List Char :=
  match value with
  | .number size width fill =>
      let digits := Nat.toDigits 10 size
      match style.padding with
      | .nothing => fillTo style.width '0' digits
      | .usual => fillTo (max width style.width) fill digits
      | .zeros => fillTo (max width style.width) '0' digits
      | .spaces => fillTo (max width style.width) ' ' digits
  | .name text =>
      let letters := text.toList
      let letters :=
        if style.swapped then
          if isHalfDay then letters.map Char.toLower else letters.map Char.toUpper
        else if style.capitals then letters.map Char.toUpper
        else letters
      fillTo style.width (if style.padding = .zeros then '0' else ' ') letters
  | .composed text =>
      fillTo style.width (if style.padding = .zeros then '0' else ' ') text.toList

/-- Reads the flags in front of a field. -/
def readFlags : FieldStyle → List Char → FieldStyle × List Char
  | style, '_' :: rest => readFlags { style with padding := .spaces } rest
  | style, '-' :: rest => readFlags { style with padding := .nothing } rest
  | style, '0' :: rest => readFlags { style with padding := .zeros } rest
  | style, '^' :: rest => readFlags { style with capitals := true } rest
  | style, '#' :: rest => readFlags { style with swapped := true } rest
  | style, rest => (style, rest)

/-- Reads the field behind a percent sign: what it stands for, and what follows it. -/
def readField (moment : Moment) (letters : List Char) : Option (List Char × List Char) :=
  let (style, rest) := readFlags ⟨.usual, false, false, 0⟩ letters
  let digits := rest.takeWhile Char.isDigit
  let rest := rest.drop digits.length
  let style := { style with
    width := digits.foldl (fun value letter => 10 * value + (letter.toNat - 48)) 0 }
  let rest := match rest with
    | 'E' :: more => more
    | 'O' :: more => more
    | more => more
  match rest with
  | [] => none
  | letter :: after =>
      -- microseconds are filled in only by the bare field
      if letter = 'f' && letters.head? != some 'f' then none
      else
        (field? moment letter).map fun value =>
          (value.write style (letter = 'p'), after)

/-- Fills in a pattern. -/
def formatLetters (moment : Moment) : Nat → List Char → List Char
  | 0, letters => letters
  | _ + 1, [] => []
  | fuel + 1, '%' :: rest =>
      match readField moment rest with
      | some (text, after) => text ++ formatLetters moment fuel after
      | none => '%' :: formatLetters moment fuel rest
  | fuel + 1, letter :: rest => letter :: formatLetters moment fuel rest

/-- A moment in the form that a pattern asks for. -/
def Moment.format (moment : Moment) (pattern : String) : String :=
  String.ofList (formatLetters moment pattern.length pattern.toList)

/-- A day in the form that a pattern asks for; the time of day is midnight. -/
def Date.format (date : Date) (pattern : String) : String :=
  (Moment.mk date Clock.midnight).format pattern

end Imprint.Calendar
