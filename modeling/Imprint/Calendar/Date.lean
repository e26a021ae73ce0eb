set_option autoImplicit false

/-!
# Dates, moments and durations

The calendar is the Gregorian one, carried back to the year one and forward to the year 9999.  A date
is counted by the days from the first of January of the year one, which is day one; sums and
differences are computed on that count.  A moment is a date with a time of day to the microsecond, and
a duration a whole number of microseconds.
-/

namespace Imprint.Calendar

/-- A day of the calendar. -/
structure Date where
  year : Nat
  month : Nat
  day : Nat
deriving DecidableEq, Repr, Inhabited

/-- A time of day. -/
structure Clock where
  hour : Nat
  minute : Nat
  second : Nat
  microsecond : Nat
deriving DecidableEq, Repr, Inhabited

/-- A day and a time of day. -/
structure Moment where
  date : Date
  clock : Clock
deriving DecidableEq, Repr, Inhabited

/-- A length of time in microseconds; it may be negative. -/
structure Duration where
  microseconds : Int
deriving DecidableEq, Repr, Inhabited

/-- Years divisible by four, but of the full centuries only every fourth. -/
def isLeapYear (year : Nat) : Bool :=
  year % 4 == 0 && (year % 100 != 0 || year % 400 == 0)

/-- Days of a month. -/
def daysInMonth (year month : Nat) : Nat :=
  if month = 2 then if isLeapYear year then 29 else 28
  else if month = 4 || month = 6 || month = 9 || month = 11 then 30
  else 31

/-- Days of the years before a year. -/
def daysBeforeYear (year : Nat) : Nat :=
  let past := year - 1
  past * 365 + past / 4 - past / 100 + past / 400

/-- Days of the months before a month of a year. -/
def daysBeforeMonth (year month : Nat) : Nat :=
  (List.range (month - 1)).foldl (fun days index => days + daysInMonth year (index + 1)) 0

/-- The count of a day from the beginning of the calendar. -/
def Date.ordinal (date : Date) : Nat :=
  daysBeforeYear date.year + daysBeforeMonth date.year date.month + date.day

/-- Whether a year, month and day name a day of the calendar. -/
def Date.isValid (date : Date) : Bool :=
  1 ≤ date.year && date.year ≤ 9999 && 1 ≤ date.month && date.month ≤ 12 &&
    1 ≤ date.day && date.day ≤ daysInMonth date.year date.month

/-- The month and day of a day counted within its year from zero. -/
def monthAndDay (year : Nat) : Nat → Nat → Nat → Nat × Nat
  | 0, month, rest => (month, rest + 1)
  | fuel + 1, month, rest =>
      if rest < daysInMonth year month then (month, rest + 1)
      else monthAndDay year fuel (month + 1) (rest - daysInMonth year month)

/-- The day with a count, if the calendar has it. -/
def Date.ofOrdinal? (ordinal : Int) : Option Date :=
  if ordinal < 1 || ordinal > 3652059 then none
  else
    let count := ordinal.toNat - 1
    let estimate := count * 400 / 146097 + 1
    -- the estimate is at most one year off
    let year :=
      if daysBeforeYear estimate > count then estimate - 1
      else if daysBeforeYear (estimate + 1) ≤ count then estimate + 1
      else estimate
    let (month, day) := monthAndDay year 11 1 (count - daysBeforeYear year)
    some ⟨year, month, day⟩

/-- Day of the week, Monday being zero. -/
def Date.weekday (date : Date) : Nat :=
  (date.ordinal + 6) % 7

/-- Day of the year, the first being one. -/
def Date.yearDay (date : Date) : Nat :=
  daysBeforeMonth date.year date.month + date.day

/-- Year and number of the week that holds a day.  Weeks start on Monday and belong to the year that
holds their Thursday. -/
def Date.isoWeek (date : Date) : Nat × Nat :=
  let thursday := date.ordinal + 3 - date.weekday
  let year :=
    if thursday ≤ daysBeforeYear date.year then date.year - 1
    else if thursday > daysBeforeYear (date.year + 1) then date.year + 1
    else date.year
  -- a week of the year before the first one exists only in this numbering
  let start := if year = 0 then 0 else daysBeforeYear year
  let offset := if year = 0 then thursday + 366 - 1 else thursday - start - 1
  (year, offset / 7 + 1)

/-- Writes a number with at least `width` digits. -/
def padded (width value : Nat) : String :=
  let digits := String.ofList (Nat.toDigits 10 value)
  String.ofList (List.replicate (width - digits.length) '0') ++ digits

/-- Year, month and day with hyphens. -/
def Date.text (date : Date) : String :=
  padded 4 date.year ++ "-" ++ padded 2 date.month ++ "-" ++ padded 2 date.day

/-- Microseconds behind a point, nothing if there are none. -/
def fractionText (microsecond : Nat) : String :=
  if microsecond = 0 then "" else "." ++ padded 6 microsecond

/-- Hours, minutes and seconds with colons. -/
def Clock.text (clock : Clock) : String :=
  padded 2 clock.hour ++ ":" ++ padded 2 clock.minute ++ ":" ++ padded 2 clock.second ++
    fractionText clock.microsecond

/-- Date and time of day with a separator between them. -/
def Moment.text (moment : Moment) (separator : String) : String :=
  moment.date.text ++ separator ++ moment.clock.text

/-- Midnight. -/
def Clock.midnight : Clock := ⟨0, 0, 0, 0⟩

/-- Microseconds since midnight. -/
def Clock.microseconds (clock : Clock) : Nat :=
  ((clock.hour * 60 + clock.minute) * 60 + clock.second) * 1000000 + clock.microsecond

/-- Microseconds of a day. -/
def dayLength : Nat := 86400000000

/-- Microseconds from the beginning of day zero. -/
def Moment.count (moment : Moment) : Int :=
  Int.ofNat (moment.date.ordinal * dayLength + moment.clock.microseconds)

/-- The time of day so many microseconds after midnight. -/
def Clock.ofMicroseconds (count : Nat) : Clock :=
  let seconds := count / 1000000
  ⟨seconds / 3600 % 24, seconds / 60 % 60, seconds % 60, count % 1000000⟩

/-- The moment with a count, if the calendar has it. -/
def Moment.ofCount? (count : Int) : Option Moment :=
  match Date.ofOrdinal? (Int.fdiv count (Int.ofNat dayLength)) with
  | some date => some ⟨date, Clock.ofMicroseconds (Int.fmod count (Int.ofNat dayLength)).toNat⟩
  | none => none

/-- A moment moved by a duration, if it stays in the calendar. -/
def Moment.add? (moment : Moment) (duration : Duration) : Option Moment :=
  Moment.ofCount? (moment.count + duration.microseconds)

/-- Whole days of a duration, rounded down. -/
def Duration.days (duration : Duration) : Int :=
  Int.fdiv duration.microseconds (Int.ofNat dayLength)

/-- Whole seconds beyond the days. -/
def Duration.seconds (duration : Duration) : Nat :=
  (Int.fmod duration.microseconds (Int.ofNat dayLength)).toNat / 1000000

/-- Microseconds beyond the seconds. -/
def Duration.fraction (duration : Duration) : Nat :=
  (Int.fmod duration.microseconds 1000000).toNat

/-- A date moved by the whole days of a duration, if it stays in the calendar. -/
def Date.add? (date : Date) (duration : Duration) : Option Date :=
  Date.ofOrdinal? (Int.ofNat date.ordinal + duration.days)

/-- The duration between two days. -/
def Date.since (later earlier : Date) : Duration :=
  ⟨(Int.ofNat later.ordinal - Int.ofNat earlier.ordinal) * Int.ofNat dayLength⟩

/-- Days and time of a duration. -/
def Duration.text (duration : Duration) : String :=
  let seconds := duration.seconds
  let time := toString (seconds / 3600) ++ ":" ++ padded 2 (seconds / 60 % 60) ++ ":" ++
    padded 2 (seconds % 60) ++ fractionText duration.fraction
  let days := duration.days
  if days = 0 then time
  else
    let unit := if days.natAbs = 1 then " day, " else " days, "
    toString days ++ unit ++ time

/-- The three parts of a duration that are not zero, by name. -/
def Duration.parts (duration : Duration) : List (String × Int) :=
  [("days", duration.days), ("seconds", Int.ofNat duration.seconds),
    ("microseconds", Int.ofNat duration.fraction)].filter fun part => part.2 != 0

/-- Order of days. -/
def Date.compare (left right : Date) : Ordering :=
  Ord.compare left.ordinal right.ordinal

/-- Order of times of day. -/
def Clock.compare (left right : Clock) : Ordering :=
  Ord.compare left.microseconds right.microseconds

/-- Order of moments. -/
def Moment.compare (left right : Moment) : Ordering :=
  Ord.compare left.count right.count

/-- Reads a fixed number of decimal digits. -/
def readFixed? (width : Nat) (letters : List Char) : Option (Nat × List Char) :=
  let digits := letters.take width
  if digits.length = width && digits.all Char.isDigit then
    some (digits.foldl (fun value letter => 10 * value + (letter.toNat - 48)) 0, letters.drop width)
  else none

/-- Reads year, month and day with hyphens. -/
def readDate? (letters : List Char) : Option (Date × List Char) := do
  let (year, rest) ← readFixed? 4 letters
  let rest ← match rest with
    | '-' :: rest => some rest
    | _ => none
  let (month, rest) ← readFixed? 2 rest
  let rest ← match rest with
    | '-' :: rest => some rest
    | _ => none
  let (day, rest) ← readFixed? 2 rest
  if (Date.mk year month day).isValid then some (⟨year, month, day⟩, rest) else none

/-- Reads a day. -/
def Date.ofText? (text : String) : Option Date :=
  match readDate? text.toList with
  | some (date, []) => some date
  | _ => none

/-- Reads a moment: a day, a separator of one character, and hours, minutes, seconds and microseconds as
far as they are given. -/
def Moment.ofText? (text : String) : Option Moment := do
  let (date, rest) ← readDate? text.toList
  match rest with
  | [] => some ⟨date, Clock.midnight⟩
  | _ :: rest =>
      let (hour, rest) ← readFixed? 2 rest
      let (minute, rest) ← match rest with
        | ':' :: rest => readFixed? 2 rest
        | rest => some (0, rest)
      let (second, rest) ← match rest with
        | ':' :: rest => readFixed? 2 rest
        | rest => some (0, rest)
      let micros ← match rest with
        | [] => some 0
        | '.' :: rest =>
            let digits := (rest ++ List.replicate (6 - rest.length) '0').take 6
            if rest.all Char.isDigit then (readFixed? 6 digits).map (·.1) else none
        | _ => none
      if hour < 24 && minute < 60 && second < 60 then some ⟨date, ⟨hour, minute, second, micros⟩⟩
      else none

end Imprint.Calendar
