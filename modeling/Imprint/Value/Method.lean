import Imprint.Calendar.Pattern
import Imprint.Value.Function
import Imprint.Value.TextMethod

set_option autoImplicit false

/-!
# Methods of containers, numbers, bytes and days

Lists and dictionaries can be changed through their methods; the changes are seen by everything that
holds the same list or dictionary.
-/

namespace Imprint.Value

-- Powers of numbers are those of the core library, whatever else is imported.
attribute [local instance (high)] instPowNat

/-- How a method of lists takes its arguments. -/
def listArity : String → Option Arity
  | "append" | "count" | "extend" | "remove" => some .one
  | "clear" | "copy" | "reverse" => some .none
  | "index" => some (.between 1 3)
  | "insert" => some (.between 2 2)
  | "pop" => some (.between 0 1)
  | "sort" => some .any
  | _ => none

/-- How a method of dictionaries takes its arguments. -/
def dictArity : String → Option Arity
  | "clear" | "copy" | "items" | "keys" | "popitem" | "values" => some .none
  | "fromkeys" | "get" | "pop" | "setdefault" => some (.between 1 2)
  | "update" => some .any
  | _ => none

/-- How a method of other types takes its arguments. -/
def otherArity : Value → String → Option Arity
  | tuple _, "count" => some .one
  | tuple _, "index" => some (.between 1 3)
  | range .., "count" | range .., "index" => some .one
  | int _, "to_bytes" | bool _, "to_bytes" =>
      some (.optionalWithin 2 ["length", "byteorder", "signed"])
  | int _, "as_integer_ratio" | int _, "bit_count" | int _, "bit_length" | int _, "conjugate" =>
      some .none
  | bool _, "as_integer_ratio" | bool _, "bit_count" | bool _, "bit_length"
  | bool _, "conjugate" => some .none
  | float _, "as_integer_ratio" | float _, "conjugate" | float _, "hex" | float _, "is_integer" =>
      some .none
  | bytes _, "decode" => some (.optional ["encoding", "errors"])
  | bytes _, "hex" => some (.optional ["sep", "bytes_per_sep"])
  | date _, "isoformat" => some .none
  | moment _, "isoformat" => some (.optional ["sep", "timespec"])
  | clock _, "isoformat" => some (.optional ["timespec"])
  | date _, "strftime" | moment _, "strftime" | clock _, "strftime" =>
      some (.mixed 1 ["format"])
  | date _, "replace" => some (.optional ["year", "month", "day"])
  | moment _, "replace" => some (.optional
      ["year", "month", "day", "hour", "minute", "second", "microsecond", "tzinfo", "fold"])
  | date _, "ctime" | date _, "isocalendar" | date _, "isoweekday" | date _, "toordinal"
  | date _, "weekday" => some .none
  | moment _, "ctime" | moment _, "date" | moment _, "dst" | moment _, "isocalendar"
  | moment _, "isoweekday" | moment _, "time" | moment _, "timestamp" | moment _, "timetz"
  | moment _, "toordinal" | moment _, "tzname" | moment _, "utcoffset" | moment _, "weekday" =>
      some .none
  | clock _, "dst" | clock _, "tzname" | clock _, "utcoffset" => some .none
  | duration _, "total_seconds" => some .none
  | view .., "isdisjoint" => some .one
  | element _, "get" => some (.mixed 1 ["key", "default"])
  | _, _ => none

/-- Position of a value among others between two positions. -/
def positionOf (value : Value) (start stop : Nat) (content : List Value) : Heap (Option Nat) := do
  let rec go (index : Nat) : List Value → Heap (Option Nat)
    | [] => return none
    | item :: rest => do
        if stop ≤ index then return none
        else if start ≤ index && (← (if same item value then pure true else isEqual item value)) then
          return some index
        else go (index + 1) rest
  go 0 content

/-- Number of values equal to one. -/
def countEqual (value : Value) (content : List Value) : Heap Nat :=
  content.foldlM (fun (count : Nat) item => do
    if ← (if same item value then pure true else isEqual item value) then return count + 1
    else return count) 0

/-- The key function and the direction that a list is to be sorted with. -/
def sortOptions (arguments : Arguments) : Heap (Value × Bool) := do
  let given := arguments.positional.length
  let total := given + arguments.named.length
  if 2 < total then
    let kind := if given = 0 then "keyword arguments" else "arguments"
    throw (.typeError ("sort() takes at most 2 " ++ kind ++ " (" ++ toString total ++ " given)"))
  if given != 0 then throw (.typeError "sort() takes no positional arguments")
  match arguments.named.find? fun entry => entry.1 != "key" && entry.1 != "reverse" with
  | some (name, _) => throw (.typeError
      (Text.inQuotes name ++ " is an invalid keyword argument for sort()"))
  | none => pure ()
  let reverse ← requireSmall ((arguments.named.lookup "reverse").getD (bool false))
  return ((arguments.named.lookup "key").getD null, reverse != 0)

/-- The value by which an item is sorted without a key function. -/
def plainKey (key item : Value) : Heap Value := do
  match key with
  | null => return item
  | other => throw (.typeError ("'" ++ other.typeName ++ "' object is not callable"))

/-- Sorts a list in place.  The list is empty while its items are compared, and has to be empty at the end; a
fault leaves the items in it as they were. -/
def sortList {m : Type → Type} [Monad m] [MonadExcept Fault m] [MonadLiftT Heap m]
    (keyOf : Value → Value → m Value) (cell : Nat) (arguments : Arguments) : m Value := do
  let (key, reverse) ← sortOptions arguments
  let content ← Heap.items cell
  Heap.setItems cell []
  let sorted ← tryCatch (do
      let keyed ← content.mapM fun item => do return (← keyOf key item, item)
      sortByKeys keyed reverse)
    fun fault => do
      Heap.setItems cell content
      throw fault
  let added ← Heap.items cell
  Heap.setItems cell sorted
  if !added.isEmpty then throw (Fault.valueError "list modified during sort")
  return null

/-- Calls a method of a list. -/
def listMethod (cell : Nat) (name : String) (arguments : List (Option Value)) : Heap Value := do
  let content ← Heap.items cell
  let argument (index : Nat) : Option Value := (arguments[index]?).getD none
  let first := (argument 0).getD null
  match name with
  | "append" =>
      Heap.setItems cell (content ++ [first])
      return null
  | "clear" =>
      Heap.setItems cell []
      return null
  | "copy" => Heap.newList content
  | "count" => return int (Int.ofNat (← countEqual first content))
  | "extend" =>
      let (found, ending) ← first.iterate
      Heap.setItems cell (content ++ found)
      match ending with
      | some fault => throw fault
      | none => return null
  | "index" =>
      let (start, stop) ← readStrictBounds (argument 1) (argument 2) content.length
      match ← positionOf first start stop content with
      | some index => return int (Int.ofNat index)
      | none => throw (.valueError (String.ofList (← first.shown) ++ " is not in list"))
  | "insert" =>
      let place := placeOf content.length (← requireSize first)
      Heap.setItems cell (content.take place ++ (argument 1).getD null :: content.drop place)
      return null
  | "pop" =>
      let position ← requireSize ((argument 0).getD (int (-1)))
      if content.isEmpty then throw (.indexError "pop from empty list")
      let index := if position < 0 then position + Int.ofNat content.length else position
      if index < 0 then throw (.indexError "pop index out of range")
      match content[index.toNat]? with
      | some item =>
          Heap.setItems cell (content.eraseIdx index.toNat)
          return item
      | none => throw (.indexError "pop index out of range")
  | "remove" =>
      match ← positionOf first 0 content.length content with
      | some index =>
          Heap.setItems cell (content.eraseIdx index)
          return null
      | none => throw (.valueError "list.remove(x): x not in list")
  | "reverse" =>
      Heap.setItems cell content.reverse
      return null
  | _ => throw (.error .attribute ("'list' object has no attribute '" ++ name ++ "'"))

/-- A key that is not in a dictionary. -/
def missingKey (key : Value) : Heap Fault := do
  return .error .key (String.ofList (← key.shown))

/-- Calls a method of a dictionary. -/
def dictMethod (cell : Nat) (name : String) (arguments : List (Option Value)) : Heap Value := do
  let entries ← Heap.entries cell
  let argument (index : Nat) : Option Value := (arguments[index]?).getD none
  let first := (argument 0).getD null
  match name with
  | "clear" =>
      Heap.setEntries cell []
      return null
  | "copy" => Heap.newDict entries
  | "items" => return view .items cell
  | "keys" => return view .keys cell
  | "values" => return view .values cell
  | "fromkeys" =>
      let keys ← first.items
      Heap.newDict (← insertAll (keys.map fun key => (key, (argument 1).getD null)) [])
  | "get" => return (← lookup first entries).getD ((argument 1).getD null)
  | "pop" =>
      if !entries.isEmpty then requireKey first
      match ← eraseEntry first entries with
      | (some value, rest) =>
          Heap.setEntries cell rest
          return value
      | (none, _) =>
          match argument 1 with
          | some default => return default
          | none => throw (← missingKey first)
  | "popitem" =>
      match entries.getLast? with
      | some (key, value) =>
          Heap.setEntries cell entries.dropLast
          return tuple [key, value]
      | none => throw (.error .key "'popitem(): dictionary is empty'")
  | "setdefault" =>
      match ← lookup first entries with
      | some value => return value
      | none =>
          let value := (argument 1).getD null
          Heap.setEntries cell (entries ++ [(first, value)])
          return value
  | _ => throw (.error .attribute ("'dict' object has no attribute '" ++ name ++ "'"))

/-- How many continuation bytes follow a first byte, and the bounds of the first of them. -/
def leadByte? (byte : Nat) : Option (Nat × Nat × Nat) :=
  if byte < 0x80 then some (0, 0, 0)
  else if 0xc2 ≤ byte && byte ≤ 0xdf then some (1, 0x80, 0xbf)
  else if byte = 0xe0 then some (2, 0xa0, 0xbf)
  else if byte = 0xed then some (2, 0x80, 0x9f)
  else if 0xe1 ≤ byte && byte ≤ 0xef then some (2, 0x80, 0xbf)
  else if byte = 0xf0 then some (3, 0x90, 0xbf)
  else if 0xf1 ≤ byte && byte ≤ 0xf3 then some (3, 0x80, 0xbf)
  else if byte = 0xf4 then some (3, 0x80, 0x8f)
  else none

/-- Number of valid continuation bytes at the start of some bytes. -/
def continuation (count low high : Nat) : List Nat → Nat
  | [] => 0
  | byte :: rest =>
      match count with
      | 0 => 0
      | count + 1 => if low ≤ byte && byte ≤ high then continuation count 0x80 0xbf rest + 1 else 0

/-- Bytes that cannot be decoded. -/
def undecodable (label : String) (byte start stop : Nat) (cause : String) : Fault :=
  let place := if stop = start + 1 then
      "byte 0x" ++ String.ofList (Text.hexDigits 2 byte) ++ " in position " ++ toString start
    else "bytes in position " ++ toString start ++ "-" ++ toString (stop - 1)
  .error .unicodeDecode ("'" ++ label ++ "' codec can't decode " ++ place ++ ": " ++ cause)

/-- What stands for bytes that cannot be decoded, or the fault they cause. -/
def undecoded (errors : String) (faulty : List Nat) (fault : Fault) : Heap (List Char) := do
  match errors with
  | "ignore" => return []
  | "replace" => return [Char.ofNat 0xfffd]
  | "backslashreplace" =>
      return faulty.flatMap fun byte => '\\' :: 'x' :: Text.hexDigits 2 byte
  | "strict" => throw fault
  | _ => throw (.error .lookup ("unknown error handler name '" ++ errors ++ "'"))

/-- Decodes bytes of the variable-length encoding; the first number bounds the steps, the second is
the position. -/
def decodeUtf8 (errors : String) : Nat → Nat → List Nat → Heap (List Char)
  | 0, _, _ => return []
  | _, _, [] => return []
  | fuel + 1, position, byte :: rest => do
      let failed (size : Nat) (cause : String) : Heap (List Char) := do
        let instead ← undecoded errors (byte :: rest.take (size - 1))
          (undecodable "utf-8" byte position (position + size) cause)
        return instead ++ (← decodeUtf8 errors fuel (position + size) (rest.drop (size - 1)))
      match leadByte? byte with
      | none => failed 1 "invalid start byte"
      | some (0, _, _) => return Char.ofNat byte :: (← decodeUtf8 errors fuel (position + 1) rest)
      | some (count, low, high) =>
          let valid := continuation count low high rest
          if valid = count then
            let bits := byte % (if count = 1 then 32 else if count = 2 then 16 else 8)
            let code := (rest.take count).foldl (fun code next => code * 64 + next % 64) bits
            return Char.ofNat code ::
              (← decodeUtf8 errors fuel (position + count + 1) (rest.drop count))
          else if valid = rest.length then failed (valid + 1) "unexpected end of data"
          else failed (valid + 1) "invalid continuation byte"

/-- Decodes bytes that each stand for a character below a limit. -/
def decodeNarrow (errors : String) (limit : Nat) : Nat → List Nat → Heap (List Char)
  | _, [] => return []
  | position, byte :: rest => do
      let letters ← if byte < limit then pure [Char.ofNat byte] else
        undecoded errors [byte]
          (undecodable "ascii" byte position (position + 1) "ordinal not in range(128)")
      return letters ++ (← decodeNarrow errors limit (position + 1) rest)

/-- The text that bytes stand for in an encoding. -/
def decoded (content : List UInt8) (encoding errors : String) : Heap Value := do
  let codes := content.map UInt8.toNat
  match encodingName encoding with
  | "utf8" | "u8" | "utf" => return ofText (← decodeUtf8 errors (codes.length + 1) 0 codes)
  | "ascii" | "usascii" | "646" => return ofText (← decodeNarrow errors 128 0 codes)
  | "latin1" | "iso88591" | "l1" | "latin" | "88591" => return ofText (codes.map Char.ofNat)
  | _ => throw (.error .lookup ("unknown encoding: " ++ encoding))

/-- The character between the digits of bytes. -/
def hexSeparator (separator : Value) : Heap Char := do
  let codes ← match separator with
    | text content => pure (content.toList.map Char.toNat)
    | bytes content => pure (content.map UInt8.toNat)
    | other =>
        if (← other.length) = 1 then throw (.typeError "sep must be str or bytes.")
        else throw (.valueError "sep must be length 1.")
  match codes with
  | [code] =>
      if code < 128 then return Char.ofNat code else throw (.valueError "sep must be ASCII.")
  | _ => throw (.valueError "sep must be length 1.")

/-- The hexadecimal digits of bytes with a separator between groups.  Groups are counted from the end,
and from the start if their size is negative; there is one group only if it is zero. -/
def groupedHex (separator : Char) (group : Int) (content : List UInt8) : List Char :=
  let size := group.natAbs
  let count := content.length
  let isBetween (index : Nat) : Bool :=
    0 < index && size != 0 && (if group < 0 then index % size = 0 else (count - index) % size = 0)
  content.zipIdx.flatMap fun (byte, index) =>
    (if isBetween index then [separator] else []) ++ Text.hexDigits 2 byte.toNat

/-- Calls a method of bytes. -/
def bytesMethod (content : List UInt8) (name : String) (arguments : List (Option Value)) :
    Heap Value := do
  let argument (index : Nat) : Option Value := (arguments[index]?).getD none
  match name with
  | "decode" =>
      let encoding ← namedText "decode" "encoding" (argument 0) "utf-8"
      let errors ← namedText "decode" "errors" (argument 1) "strict"
      decoded content encoding errors
  | "hex" =>
      let group ← match argument 1 with
        | none => pure 1
        | some value => requireSmall value
      match argument 0 with
      | none => return ofText (content.flatMap fun byte => Text.hexDigits 2 byte.toNat)
      | some separator => return ofText (groupedHex (← hexSeparator separator) group content)
  | _ => throw (.error .attribute ("'bytes' object has no attribute '" ++ name ++ "'"))

/-- The binary form of a number with hexadecimal digits. -/
def hexFloat (number : Float) : List Char :=
  match Number.view number with
  | .finite negative mantissa exponent =>
      let sign := if negative then ['-'] else []
      if mantissa = 0 then sign ++ "0x0.0p+0".toList
      else
        let whole := mantissa / 2 ^ (52 : Nat)
        let power := if whole = 0 then -1022 else exponent + 52
        sign ++ '0' :: 'x' :: Number.digitsIn 16 whole ++ '.' ::
          Text.hexDigits 13 (mantissa % 2 ^ (52 : Nat)) ++ 'p' :: (if power < 0 then '-' else '+') ::
          Number.digitsOf power.natAbs
  | _ => Number.floatText number

/-- Number of ones among the binary digits. -/
def bitCount (number : Nat) : Nat :=
  (Number.digitsIn 2 number).count '1'

/-- Bytes of a number, the lowest first. -/
def littleBytes : Nat → Nat → List UInt8
  | 0, _ => []
  | length + 1, number => UInt8.ofNat (number % 256) :: littleBytes length (number / 256)

/-- An integer as bytes. -/
def intBytes (number : Int) (length : Int) (order : String) (signed : Bool) : Heap Value := do
  if order != "big" && order != "little" then
    throw (.valueError "byteorder must be either 'little' or 'big'")
  if length < 0 then throw (.valueError "length argument must be non-negative")
  if number < 0 && !signed then throw (.error .overflow "can't convert negative int to unsigned")
  let size := 2 ^ (8 * length.toNat)
  let bound : Int := if signed then Int.ofNat (size / 2) else Int.ofNat size
  if bound ≤ number || number < -bound then throw (.error .overflow "int too big to convert")
  let code := if number < 0 then (number + Int.ofNat size).toNat else number.toNat
  let content := littleBytes length.toNat code
  return bytes (if order = "big" then content.reverse else content)

/-- Calls a method of an integer. -/
def intMethod (number : Int) (name : String) (arguments : List (Option Value)) : Heap Value := do
  let argument (index : Nat) : Option Value := (arguments[index]?).getD none
  match name with
  | "bit_length" => return int (Int.ofNat (Number.bitLength number.natAbs))
  | "bit_count" => return int (Int.ofNat (bitCount number.natAbs))
  | "as_integer_ratio" => return tuple [int number, int 1]
  | "to_bytes" =>
      let length ← requireSize ((argument 0).getD (int 1))
      let order ← namedText "to_bytes" "byteorder" (argument 1) "big"
      intBytes number length order (← ((argument 2).getD (bool false)).truth)
  | _ => return int number

/-- Calls a method of a floating point number. -/
def floatMethod (number : Float) (name : String) : Heap Value := do
  match name with
  | "is_integer" => return bool (Number.isWhole number)
  | "hex" => return ofText (hexFloat number)
  | "as_integer_ratio" =>
      match Number.view number, signedRatio? (float number) with
      | .nan, _ => throw (.valueError "cannot convert NaN to integer ratio")
      | _, some (numerator, denominator) =>
          let common := Nat.gcd numerator.natAbs denominator
          return tuple [int (numerator / Int.ofNat common), int (Int.ofNat (denominator / common))]
      | _, none => throw (.error .overflow "cannot convert Infinity to integer ratio")
  | _ => return float number

/-- A part of a day or of a time of day. -/
def requirePart (value : Value) : Heap Int := do
  let number ← requireWord 64 "long" value
  if (2 : Int) ^ (31 : Nat) ≤ number then
    throw (.error .overflow "signed integer is greater than maximum")
  if number < -(2 : Int) ^ (31 : Nat) then
    throw (.error .overflow "signed integer is less than minimum")
  return number

/-- A day with some of its parts replaced. -/
def replacedDate (day : Calendar.Date) (arguments : List (Option Value)) :
    Heap Calendar.Date := do
  let part (index : Nat) (old : Nat) : Heap Int := do
    match (arguments[index]?).getD none with
    | none => return Int.ofNat old
    | some value => requirePart value
  let year ← part 0 day.year
  let month ← part 1 day.month
  let dayOfMonth ← part 2 day.day
  if year < 1 || 9999 < year then
    throw (.valueError ("year " ++ toString year ++ " is out of range"))
  if month < 1 || 12 < month then throw (.valueError "month must be in 1..12")
  let result : Calendar.Date := ⟨year.toNat, month.toNat, dayOfMonth.toNat⟩
  if dayOfMonth < 1 || !result.isValid then throw (.valueError "day is out of range for month")
  return result

/-- A time of day with some of its parts replaced. -/
def replacedClock (time : Calendar.Clock) (arguments : List (Option Value)) :
    Heap Calendar.Clock := do
  let part (index : Nat) (old limit : Nat) (label : String) : Heap Nat := do
    match (arguments[index]?).getD none with
    | none => return old
    | some value =>
        let number ← requirePart value
        if number < 0 || Int.ofNat limit < number then
          throw (.valueError (label ++ " must be in 0.." ++ toString limit))
        else return number.toNat
  let hour ← part 0 time.hour 23 "hour"
  let minute ← part 1 time.minute 59 "minute"
  let second ← part 2 time.second 59 "second"
  let microsecond ← part 3 time.microsecond 999999 "microsecond"
  return ⟨hour, minute, second, microsecond⟩

/-- A time of day as precise as is asked for. -/
def clockFormat (time : Calendar.Clock) (precision : String) : Heap String := do
  let two := Calendar.padded 2
  let minutes := two time.hour ++ ":" ++ two time.minute
  let seconds := minutes ++ ":" ++ two time.second
  match precision with
  | "auto" => return time.text
  | "hours" => return two time.hour
  | "minutes" => return minutes
  | "seconds" => return seconds
  | "milliseconds" => return seconds ++ "." ++ Calendar.padded 3 (time.microsecond / 1000)
  | "microseconds" => return seconds ++ "." ++ Calendar.padded 6 time.microsecond
  | _ => throw (.valueError "Unknown timespec value")

/-- Calls a method of a day, or of the day of a moment. -/
def dateMethod (at_ : Calendar.Moment) (name : String) (arguments : List (Option Value)) :
    Heap Value := do
  let day := at_.date
  match name with
  | "weekday" => return int (Int.ofNat day.weekday)
  | "isoweekday" => return int (Int.ofNat (day.weekday + 1))
  | "toordinal" => return int (Int.ofNat day.ordinal)
  | "ctime" => return text (at_.format "%a %b %e %H:%M:%S %Y")
  | "isocalendar" =>
      let (year, week) := day.isoWeek
      return tuple [int (Int.ofNat year), int (Int.ofNat week), int (Int.ofNat (day.weekday + 1))]
  | "strftime" =>
      match (arguments.head?.getD none).getD null with
      | text pattern => return text (at_.format pattern)
      | other => throw (.typeError
          ("strftime() argument 1 must be str, not " ++ other.argumentTypeName))
  | _ => return null

/-- Calls a method of a moment. -/
def momentMethod (at_ : Calendar.Moment) (name : String) (arguments : List (Option Value)) :
    Heap Value := do
  let argument (index : Nat) : Option Value := (arguments[index]?).getD none
  match name with
  | "date" => return date at_.date
  | "time" | "timetz" => return clock at_.clock
  | "isoformat" =>
      let separator ← match argument 0 with
        | none => pure "T"
        | some (text content) =>
            if content.length = 1 then pure content
            else throw (.typeError "isoformat() argument 1 must be a unicode character, not str")
        | some other => throw (.typeError
            ("isoformat() argument 1 must be a unicode character, not " ++ other.typeName))
      let precision ← namedText "isoformat" "timespec" (argument 1) "auto"
      return text (at_.date.text ++ separator ++ (← clockFormat at_.clock precision))
  | "replace" =>
      return moment ⟨← replacedDate at_.date arguments,
        ← replacedClock at_.clock (arguments.drop 3)⟩
  | "timestamp" =>
      let epoch := (Calendar.Moment.mk ⟨1970, 1, 1⟩ Calendar.Clock.midnight).count
      intArithmetic .divide (at_.count - epoch) 1000000
  | _ => dateMethod at_ name arguments

/-- Calls a method with arguments in their places. -/
def otherMethod (receiver : Value) (name : String) (arguments : List (Option Value)) :
    Heap Value := do
  let first := (arguments.head?.getD none).getD null
  match receiver with
  | tuple content =>
      if name = "count" then return int (Int.ofNat (← countEqual first content))
      else
        let argument (index : Nat) : Option Value := (arguments[index]?).getD none
        let (start, stop) ← readStrictBounds (argument 1) (argument 2) content.length
        match ← positionOf first start stop content with
        | some index => return int (Int.ofNat index)
        | none => throw (.valueError "tuple.index(x): x not in tuple")
  | range start stop step =>
      let content := rangeItems start stop step
      if name = "count" then return int (Int.ofNat (← countEqual first content))
      else
        match ← positionOf first 0 content.length content with
        | some index => return int (Int.ofNat index)
        | none =>
            match first with
            | int number => throw (.valueError (toString number ++ " is not in range"))
            | _ => throw (.valueError "sequence.index(x): x not in sequence")
  | int number => intMethod number name arguments
  | bool truth => intMethod (if truth then 1 else 0) name arguments
  | float number => floatMethod number name
  | bytes content => bytesMethod content name arguments
  | date day =>
      match name with
      | "isoformat" => return text day.text
      | "replace" => return date (← replacedDate day arguments)
      | _ => dateMethod ⟨day, Calendar.Clock.midnight⟩ name arguments
  | moment at_ => momentMethod at_ name arguments
  | clock time =>
      match name with
      | "isoformat" =>
          let precision ← namedText "isoformat" "timespec" (arguments.head?.getD none) "auto"
          return text (← clockFormat time precision)
      | "strftime" => dateMethod ⟨⟨1900, 1, 1⟩, time⟩ name arguments
      | _ => return null
  | duration length => intArithmetic .divide length.microseconds 1000000
  | view .. =>
      let others ← first.items
      let members ← receiver.items
      return bool (← members.allM fun member => do return !(← isMember member others))
  | element node =>
      match first with
      | text name =>
          match node.attribute? (Xml.Tag.ofText name) with
          | some value => return text value
          | none => return ((arguments[1]?).getD none).getD null
      | other => throw (.typeError ("Argument must be bytes or unicode, got '" ++
          other.shortTypeName ++ "'"))
  | _ => throw (.error .attribute
      ("'" ++ receiver.typeName ++ "' object has no attribute '" ++ name ++ "'"))

/-- How a method takes its arguments. -/
def methodArity (receiver : Value) (name : String) : Option Arity :=
  match receiver with
  | text _ | unpaired _ => textArity name
  | list _ => listArity name
  | dict _ => dictArity name
  | function (.builtin .dict) => if name = "fromkeys" then dictArity name else none
  | other => otherArity other name

/-- Calls a method of a value, except those that fill in braces. -/
def callMethod (receiver : Value) (name : String) (arguments : Arguments) : Heap Value := do
  match methodArity receiver name with
  | none => throw (.error .attribute
      ("'" ++ receiver.typeName ++ "' object has no attribute '" ++ name ++ "'"))
  | some arity =>
      match receiver, name with
      | list cell, "sort" => sortList plainKey cell arguments
      | dict cell, "update" =>
          Heap.setEntries cell (← updateEntries "update" arguments (← Heap.entries cell))
          return null
      | _, _ =>
          let places ← arity.check receiver.shortTypeName name arguments
          match receiver with
          | text content => textMethod content name places
          | unpaired codes => throw (.unpaired codes)
          | list cell => listMethod cell name places
          | dict cell => dictMethod cell name places
          | function _ => dictMethod 0 name places
          | other => otherMethod other name places

end Imprint.Value
