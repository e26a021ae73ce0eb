import Imprint.Value.Method

set_option autoImplicit false

/-!
# Attributes, items and pieces of values

`attribute?` reads what is reached by a name, `item?` what is reached by a position or a key, and
`slice` a piece of a sequence.  The first two tell by `none` that there is no such thing; reading a
field that fails ends in its fault.
-/

namespace Imprint.Value

def textMembers : List String := ["capitalize", "casefold", "center", "count", "encode", "endswith",
    "expandtabs", "find", "format", "format_map", "index", "isalnum", "isalpha", "isascii",
    "isdecimal", "isdigit", "isidentifier", "islower", "isnumeric", "isprintable", "isspace",
    "istitle", "isupper", "join", "ljust", "lower", "lstrip", "maketrans", "partition",
    "removeprefix", "removesuffix", "replace", "rfind", "rindex", "rjust", "rpartition", "rsplit",
    "rstrip", "split", "splitlines", "startswith", "strip", "swapcase", "title", "translate",
    "upper", "zfill"]

def bytesMembers : List String := ["capitalize", "center", "count", "decode", "endswith",
    "expandtabs", "find", "fromhex", "hex", "index", "isalnum", "isalpha", "isascii", "isdigit",
    "islower", "isspace", "istitle", "isupper", "join", "ljust", "lower", "lstrip", "maketrans",
    "partition", "removeprefix", "removesuffix", "replace", "rfind", "rindex", "rjust",
    "rpartition", "rsplit", "rstrip", "split", "splitlines", "startswith", "strip", "swapcase",
    "title", "translate", "upper", "zfill"]

def listMembers : List String :=
  ["append", "clear", "copy", "count", "extend", "index", "insert", "pop", "remove", "reverse",
   "sort"]

def dictMembers : List String :=
  ["clear", "copy", "fromkeys", "get", "items", "keys", "pop", "popitem", "setdefault", "update",
   "values"]

def intMembers : List String := ["as_integer_ratio", "bit_count", "bit_length", "conjugate",
    "denominator", "from_bytes", "imag", "numerator", "real", "to_bytes"]

def floatMembers : List String :=
  ["as_integer_ratio", "conjugate", "fromhex", "hex", "imag", "is_integer", "real"]

def dateMembers : List String := ["ctime", "day", "fromisocalendar", "fromisoformat", "fromordinal",
    "fromtimestamp", "isocalendar", "isoformat", "isoweekday", "max", "min", "month", "replace",
    "resolution", "strftime", "timetuple", "today", "toordinal", "weekday", "year"]

def momentMembers : List String := ["astimezone", "combine", "ctime", "date", "day", "dst", "fold",
    "fromisocalendar", "fromisoformat", "fromordinal", "fromtimestamp", "hour", "isocalendar",
    "isoformat", "isoweekday", "max", "microsecond", "min", "minute", "month", "now", "replace",
    "resolution", "second", "strftime", "strptime", "time", "timestamp", "timetuple", "timetz",
    "today", "toordinal", "tzinfo", "tzname", "utcfromtimestamp", "utcnow", "utcoffset",
    "utctimetuple", "weekday", "year"]

def clockMembers : List String := ["dst", "fold", "fromisoformat", "hour", "isoformat", "max",
    "microsecond", "min", "minute", "replace", "resolution", "second", "strftime", "tzinfo",
    "tzname", "utcoffset"]

def elementMembers : List String := ["addnext", "addprevious", "append", "attrib", "base", "clear",
    "cssselect", "extend", "find", "findall", "findtext", "get", "getchildren", "getiterator",
    "getnext", "getparent", "getprevious", "getroottree", "index", "insert", "items", "iter",
    "iterancestors", "iterchildren", "iterdescendants", "iterfind", "itersiblings", "itertext",
    "keys", "makeelement", "nsmap", "prefix", "remove", "replace", "set", "sourceline", "tag",
    "tail", "text", "values", "xpath"]

def streamMembers : List String := ["close", "gi_code", "gi_frame", "gi_running", "gi_suspended",
    "gi_yieldfrom", "send", "throw"]

/-- The public names that can be read from a value, in alphabetical order for built-in types. -/
def publicMembers : Value → List String
  | text _ | unpaired _ => textMembers
  | bytes _ => bytesMembers
  | list _ => listMembers
  | dict _ => dictMembers
  | function (.builtin builtin) => if builtin = .dict then dictMembers else []
  | tuple _ => ["count", "index"]
  | range .. => ["count", "index", "start", "step", "stop"]
  | int _ | bool _ => intMembers
  | float _ => floatMembers
  | date _ => dateMembers
  | moment _ => momentMembers
  | clock _ => clockMembers
  | duration _ => ["days", "max", "microseconds", "min", "resolution", "seconds", "total_seconds"]
  | money .. => ["cents"]
  | record _ _ fields failing => fields.map (·.1) ++ failing.map (·.1)
  | element _ => elementMembers
  | stream typeName _ _ => if typeName = "generator" then streamMembers else []
  | view .values _ => ["mapping"]
  | view .. => ["isdisjoint", "mapping"]
  | foreign "complex" _ => ["conjugate", "imag", "real"]
  | _ => []

/-- Names with underscores that every value has. -/
def commonHidden : List String := ["__class__", "__delattr__", "__dir__", "__doc__", "__eq__",
    "__format__", "__ge__", "__getattribute__", "__getstate__", "__gt__", "__hash__", "__init__",
    "__init_subclass__", "__le__", "__lt__", "__ne__", "__new__", "__reduce__", "__reduce_ex__",
    "__repr__", "__setattr__", "__sizeof__", "__str__", "__subclasshook__"]

def numberHidden : List String :=
  ["__abs__", "__add__", "__bool__", "__ceil__", "__divmod__", "__float__", "__floor__",
    "__floordiv__", "__getnewargs__", "__int__", "__mod__", "__mul__", "__neg__", "__pos__",
    "__pow__", "__radd__", "__rdivmod__", "__rfloordiv__", "__rmod__", "__rmul__", "__round__",
    "__rpow__", "__rsub__", "__rtruediv__", "__sub__", "__truediv__", "__trunc__"]

/-- Further names with underscores of the types. -/
def hiddenMembers : Value → List String
  | text _ | unpaired _ => ["__add__", "__contains__", "__getitem__", "__getnewargs__", "__iter__",
      "__len__", "__mod__", "__mul__", "__rmod__", "__rmul__"]
  | bytes _ => ["__add__", "__bytes__", "__contains__", "__getitem__", "__getnewargs__", "__iter__",
      "__len__", "__mod__", "__mul__", "__rmod__", "__rmul__"]
  | list _ => ["__add__", "__class_getitem__", "__contains__", "__delitem__", "__getitem__",
      "__iadd__", "__imul__", "__iter__", "__len__", "__mul__", "__reversed__", "__rmul__",
      "__setitem__"]
  | dict _ => ["__class_getitem__", "__contains__", "__delitem__", "__getitem__", "__ior__",
      "__iter__", "__len__", "__or__", "__reversed__", "__ror__", "__setitem__"]
  | tuple _ => ["__add__", "__class_getitem__", "__contains__", "__getitem__", "__getnewargs__",
      "__iter__", "__len__", "__mul__", "__rmul__"]
  | range .. => ["__bool__", "__contains__", "__getitem__", "__iter__", "__len__", "__reversed__"]
  | int _ | bool _ => numberHidden ++ ["__and__", "__index__", "__invert__", "__lshift__", "__or__",
      "__rand__", "__rlshift__", "__ror__", "__rrshift__", "__rshift__", "__rxor__", "__xor__"]
  | float _ => numberHidden ++ ["__getformat__"]
  | null => ["__bool__"]
  | date _ | moment _ => ["__add__", "__radd__", "__rsub__", "__sub__"]
  | duration _ => ["__abs__", "__add__", "__bool__", "__divmod__", "__floordiv__", "__mod__",
      "__mul__", "__neg__", "__pos__", "__radd__", "__rdivmod__", "__rfloordiv__", "__rmod__",
      "__rmul__", "__rsub__", "__rtruediv__", "__sub__", "__truediv__"]
  | money .. => ["__dict__", "__module__", "__weakref__"]
  | record .. => ["__dict__", "__module__", "__weakref__"]
  | function (.given ..) | function (.builtin .range) | function (.builtin .lipsum) =>
      ["__annotations__", "__builtins__", "__call__", "__closure__", "__code__", "__defaults__",
       "__dict__", "__get__", "__globals__", "__kwdefaults__", "__module__", "__name__",
       "__qualname__"]
  | function (.builtin _) => ["__base__", "__bases__", "__basicsize__", "__call__", "__dict__",
      "__module__", "__mro__", "__name__", "__qualname__", "__subclasses__", "mro"]
  | function (.method ..) => ["__call__", "__module__", "__name__", "__qualname__", "__self__",
      "__text_signature__"]
  | function (.directive ..) => ["__call__", "__func__", "__self__", "__name__", "__module__"]
  | stream typeName _ _ =>
      if typeName = "generator" then ["__del__", "__iter__", "__name__", "__next__", "__qualname__"]
      else ["__iter__", "__length_hint__", "__next__", "__setstate__"]
  | view .. => ["__iter__", "__len__", "__reversed__", "__contains__"]
  | element _ => ["__bool__", "__contains__", "__copy__", "__deepcopy__", "__getitem__", "__iter__",
      "__len__"]
  | undefined .. => ["_fail_with_undefined_error", "_undefined_exception", "_undefined_hint",
      "_undefined_message", "_undefined_name", "_undefined_obj", "__add__", "__bool__", "__call__",
      "__contains__", "__dict__", "__getattr__", "__getitem__", "__iter__", "__len__", "__module__",
      "__slots__"]
  | _ => []

/-- Whether a name is kept from expressions. -/
def isForbidden (value : Value) (name : String) : Bool :=
  "_".isPrefixOf name ||
    match value with
    | function (.builtin builtin) => isClass builtin && name == "mro"
    | stream typeName _ _ => typeName == "generator" && (name == "gi_frame" || name == "gi_code")
    | _ => false

/-- Whether a name starts and ends with two underscores. -/
def isSpecialName (name : String) : Bool :=
  "__".isPrefixOf name && "__".toList.isSuffixOf name.toList

/-- The data attributes of the built-in types. -/
def dataAttribute? (value : Value) (name : String) : Heap (Option Value) := do
  let ofNat (number : Nat) : Option Value := some (int (Int.ofNat number))
  match value, name with
  | int _, "real" | int _, "numerator" => return some value
  | int _, "imag" => return some (int 0)
  | int _, "denominator" => return some (int 1)
  | bool truth, "real" | bool truth, "numerator" => return some (int (if truth then 1 else 0))
  | bool _, "imag" => return some (int 0)
  | bool _, "denominator" => return some (int 1)
  | float _, "real" => return some value
  | float _, "imag" => return some (float 0.0)
  | range start _ _, "start" => return some (int start)
  | range _ stop _, "stop" => return some (int stop)
  | range _ _ step, "step" => return some (int step)
  | date day, "year" => return ofNat day.year
  | date day, "month" => return ofNat day.month
  | date day, "day" => return ofNat day.day
  | date _, "min" => return some (date ⟨1, 1, 1⟩)
  | date _, "max" => return some (date ⟨9999, 12, 31⟩)
  | date _, "resolution" => return some (duration ⟨Int.ofNat Calendar.dayLength⟩)
  | moment at_, "year" => return ofNat at_.date.year
  | moment at_, "month" => return ofNat at_.date.month
  | moment at_, "day" => return ofNat at_.date.day
  | moment at_, "hour" => return ofNat at_.clock.hour
  | moment at_, "minute" => return ofNat at_.clock.minute
  | moment at_, "second" => return ofNat at_.clock.second
  | moment at_, "microsecond" => return ofNat at_.clock.microsecond
  | moment _, "fold" => return ofNat 0
  | moment _, "tzinfo" => return some null
  | moment _, "min" => return some (moment ⟨⟨1, 1, 1⟩, ⟨0, 0, 0, 0⟩⟩)
  | moment _, "max" => return some (moment ⟨⟨9999, 12, 31⟩, ⟨23, 59, 59, 999999⟩⟩)
  | moment _, "resolution" => return some (duration ⟨1⟩)
  | clock time, "hour" => return ofNat time.hour
  | clock time, "minute" => return ofNat time.minute
  | clock time, "second" => return ofNat time.second
  | clock time, "microsecond" => return ofNat time.microsecond
  | clock _, "fold" => return ofNat 0
  | clock _, "tzinfo" => return some null
  | clock _, "min" => return some (clock ⟨0, 0, 0, 0⟩)
  | clock _, "max" => return some (clock ⟨23, 59, 59, 999999⟩)
  | clock _, "resolution" => return some (duration ⟨1⟩)
  | duration length, "days" => return some (int length.days)
  | duration length, "seconds" => return ofNat length.seconds
  | duration length, "microseconds" => return ofNat length.fraction
  | duration _, "min" => return some (duration ⟨-999999999 * Int.ofNat Calendar.dayLength⟩)
  | duration _, "max" => return some (duration ⟨longestDuration⟩)
  | duration _, "resolution" => return some (duration ⟨1⟩)
  | money _ _ cents, "cents" => return some (int cents)
  | view _ cell, "mapping" => return some (dict cell)
  | stream "generator" .., "gi_running" | stream "generator" .., "gi_suspended" =>
      return some (bool false)
  | stream "generator" .., "gi_yieldfrom" => return some null
  | element node, "tag" =>
      match node.tag? with
      | some tag => return some (text tag.fullText)
      | none => return none
  | element node, "text" => return some (if node.lead = "" then null else text node.lead)
  | element node, "tail" => return some (if node.tail = "" then null else text node.tail)
  | element node, "prefix" =>
      match node.tag? with
      | some ⟨.word, _⟩ => return some (text "w")
      | _ => return some null
  | element node, "attrib" =>
      match node.label with
      | .element _ attributes => return some (← Heap.newDict
          (attributes.map fun entry => (text entry.1.fullText, text entry.2)))
      | _ => return none
  | _, _ => return none

/-- The value reached by a name. -/
def attribute? (value : Value) (name : String) : Heap (Option Value) := do
  match value with
  | record _ _ fields failing =>
      match failing.lookup name with
      | some (.error .attribute _) => return none
      | some fault => throw fault
      | none =>
          match fields.lookup name with
          | some found => return some found
          | none =>
              if commonHidden.contains name || (hiddenMembers value).contains name then
                return some (foreign "method-wrapper" "")
              else return none
  | undefined _ missing =>
      if commonHidden.contains name || (hiddenMembers value).contains name then
        return some (foreign "method-wrapper" "")
      else if isSpecialName name then return none
      else throw (.undefined missing)
  | _ =>
      match ← dataAttribute? value name with
      | some found => return some found
      | none =>
          if (publicMembers value).contains name then return some (function (.method value name))
          else if commonHidden.contains name || (hiddenMembers value).contains name then
            return some (foreign "method-wrapper" "")
          else return none

/-- A position in a sequence of a length, counted from the end if it is negative. -/
def indexIn (length : Nat) (position : Int) : Option Nat :=
  let position := if position < 0 then position + Int.ofNat length else position
  if 0 ≤ position && position < Int.ofNat length then some position.toNat else none

/-- The value reached by a position or a key. -/
def item? (value key : Value) : Heap (Option Value) := do
  let at_ (length : Nat) (get : Nat → Option Value) : Heap (Option Value) := do
    match key.asInt? with
    | some position => return (indexIn length position).bind get
    | none => return none
  match value with
  | text content =>
      let letters := content.toList
      at_ letters.length fun index => letters[index]?.map fun letter => ofText [letter]
  | unpaired codes => at_ codes.length fun index => codes[index]?.map fun code => ofCodes [code]
  | bytes content =>
      at_ content.length fun index => content[index]?.map fun byte => int (Int.ofNat byte.toNat)
  | list cell =>
      let content ← Heap.items cell
      at_ content.length fun index => content[index]?
  | tuple content => at_ content.length fun index => content[index]?
  | range start stop step =>
      at_ (rangeLength start stop step) fun index => some (int (start + step * Int.ofNat index))
  | dict cell =>
      match key with
      | list _ | dict _ | record .. => return none
      | _ =>
          try lookup key (← Heap.entries cell)
          catch fault =>
            match fault with
            | .error .type _ => return none
            | other => throw other
  | element node => at_ node.children.length fun index => node.children[index]?.map element
  | undefined _ missing => throw (.undefined missing)
  | _ => return none

/-- A piece of a sequence. -/
def slice (value start stop step : Value) : Heap Value := do
  match value with
  | text content =>
      let letters := content.toList
      return ofText ((← pieceOf letters.length start stop step).take letters)
  | unpaired codes => return ofCodes ((← pieceOf codes.length start stop step).take codes)
  | bytes content => return bytes ((← pieceOf content.length start stop step).take content)
  | list cell =>
      let content ← Heap.items cell
      Heap.newList ((← pieceOf content.length start stop step).take content)
  | tuple content => return tuple ((← pieceOf content.length start stop step).take content)
  | range begin_ end_ stride =>
      let piece ← pieceOf (rangeLength begin_ end_ stride) start stop step
      return range (begin_ + stride * piece.first) (begin_ + stride * piece.last)
        (stride * piece.stride)
  | element node =>
      let piece ← pieceOf node.children.length start stop step
      Heap.newList ((piece.take node.children).map element)
  | dict _ => throw (.typeError "unhashable type: 'slice'")
  | undefined _ missing => throw (.undefined missing)
  | other => throw (.typeError ("'" ++ other.typeName ++ "' object is not subscriptable"))

end Imprint.Value
