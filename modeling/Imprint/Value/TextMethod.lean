import Imprint.Text.CaseMapping
import Imprint.Value.Arguments

set_option autoImplicit false

/-!
# Methods of texts

What can be asked of a text and made of it: searching, cutting, joining, padding, changing case and
testing what its characters are.  Filling in braces is not among them; it needs to look into values.
-/

namespace Imprint.Value

/-- How a method of texts takes its arguments. -/
def textArity : String → Option Arity
  | "center" | "ljust" | "rjust" => some (.between 1 2)
  | "count" | "endswith" | "find" | "index" | "rfind" | "rindex" | "startswith" =>
      some (.counted 1 3)
  | "encode" => some (.optional ["encoding", "errors"])
  | "expandtabs" => some (.optional ["tabsize"])
  | "join" | "partition" | "rpartition" | "removeprefix" | "removesuffix" | "translate" | "zfill" =>
      some .one
  | "replace" => some (.between 2 3)
  | "lstrip" | "rstrip" | "strip" => some (.between 0 1)
  | "maketrans" => some (.between 1 3)
  | "split" | "rsplit" => some (.optional ["sep", "maxsplit"])
  | "splitlines" => some (.optional ["keepends"])
  | "capitalize" | "casefold" | "isalnum" | "isalpha" | "isascii" | "isdecimal" | "isdigit"
  | "isidentifier" | "islower" | "isnumeric" | "isprintable" | "isspace" | "istitle" | "isupper"
  | "lower" | "swapcase" | "title" | "upper" => some .none
  | _ => none

/-- A new list of texts. -/
def newTexts (parts : List (List Char)) : Heap Value :=
  Heap.newList (parts.map ofText)

/-- Whether every character of a text that is not empty passes a test. -/
def everyLetter (test : Char → Bool) (letters : List Char) : Bool :=
  !letters.isEmpty && letters.all test

/-- A limit on the number of cuts; none if it is negative. -/
def cutLimit (limit : Int) (letters : List Char) : Nat :=
  if limit < 0 then letters.length + 1 else limit.toNat

/-- The fill character of a padded text. -/
def fillArgument (fill : Option Value) : Heap Char := do
  match fill with
  | none => return ' '
  | some (text content) =>
      match content.toList with
      | [letter] => return letter
      | _ => throw (.typeError "The fill character must be exactly one character long")
  | some other => throw (.typeError
      ("The fill character must be a unicode character, not " ++ other.typeName))

/-- A text in the middle of a width. -/
def centered (letters : List Char) (width : Int) (fill : Char) : List Char :=
  let missing := width.toNat - letters.length
  -- an odd rest goes to the left if the width is odd too
  let left := missing / 2 + (if missing % 2 = 1 && width.toNat % 2 = 1 then 1 else 0)
  List.replicate left fill ++ letters ++ List.replicate (missing - left) fill

/-- A number with zeros behind its sign. -/
def zeroPadded (letters : List Char) (width : Int) : List Char :=
  let zeros := List.replicate (width.toNat - letters.length) '0'
  match letters with
  | '-' :: rest => '-' :: zeros ++ rest
  | '+' :: rest => '+' :: zeros ++ rest
  | _ => zeros ++ letters

/-- Tabs replaced by spaces up to the next multiple of a width; the column is counted along. -/
def expandTabs (size : Nat) : Nat → List Char → List Char
  | _, [] => []
  | column, '\t' :: rest =>
      if size = 0 then expandTabs size column rest
      else
        let count := size - column % size
        List.replicate count ' ' ++ expandTabs size (column + count) rest
  | column, letter :: rest =>
      let column := if letter = '\n' || letter = '\r' then 0 else column + 1
      letter :: expandTabs size column rest

/-- The texts joined by a separator. -/
def joinTexts (separator : List Char) (parts : List Value) : Heap (List Char) := do
  let rec check (index : Nat) : List Value → Heap (List (List Char))
    | [] => return []
    | text content :: rest => return content.toList :: (← check (index + 1) rest)
    | other :: _ => throw (.typeError ("sequence item " ++ toString index ++
        ": expected str instance, " ++ other.typeName ++ " found"))
  return Text.joinWith separator (← check 0 parts)

/-- The characters to be stripped. -/
def stripSet (name : String) (set : Option Value) : Heap (Option (List Char)) := do
  match set with
  | none => return none
  | some null => return none
  | some (text content) => return some content.toList
  | some _ => throw (.typeError (name ++ " arg must be None or str"))

/-- Strips a text at its ends. -/
def stripped (set : Option (List Char)) (atStart atEnd : Bool) (letters : List Char) : List Char :=
  match set with
  | none =>
      let letters := if atStart then Text.trimStart letters else letters
      if atEnd then Text.trimEnd letters else letters
  | some set =>
      let letters := if atStart then Text.trimStartOf set letters else letters
      if atEnd then Text.trimEndOf set letters else letters

/-- Whether a text has a part at its start or end, between two positions. -/
def hasEdge (name : String) (atEnd : Bool) (letters : List Char) (part start stop : Option Value) :
    Heap Bool := do
  let (first, last) ← readBounds start stop letters.length
  let piece := Text.slice letters first last
  let matching (part : List Char) : Bool :=
    first ≤ last && (if atEnd then part.isSuffixOf piece else part.isPrefixOf piece)
  match part with
  | some (text content) => return matching content.toList
  | some (tuple parts) => go piece matching parts
  | some other => throw (.typeError (name ++ " first arg must be str or a tuple of str, not " ++
      other.typeName))
  | none => return false
where
  /-- Tries the parts in turn. -/
  go (piece : List Char) (matching : List Char → Bool) : List Value → Heap Bool
    | [] => return false
    | text content :: rest => do
        if matching content.toList then return true else go piece matching rest
    | other :: _ => throw (.typeError ("tuple for " ++ name ++ " must only contain str, not " ++
        other.typeName))

/-- Position of a part of a text, between two positions. -/
def findPart (fromEnd : Bool) (letters : List Char) (part start stop : Option Value) :
    Heap (Option Nat) := do
  let (first, last) ← readBounds start stop letters.length
  let needle ← requireText (part.getD null)
  if last < first then return none
  else
    let piece := Text.slice letters first last
    let found := if fromEnd then Text.findLast? needle piece else Text.find? needle piece
    return found.map (· + first)

/-- The bytes of a text. -/
def utf8Bytes (content : String) : List UInt8 :=
  content.toUTF8.toList

/-- The name of an encoding without case and separators. -/
def encodingName (name : String) : String :=
  String.ofList ((name.toList.map Char.toLower).filter fun letter =>
    letter != '-' && letter != '_' && letter != ' ')

/-- Characters that cannot be encoded: the first of them, where they are, and how many there are. -/
def unencodable (label : String) (limit index count : Nat) (letter : Char) : Fault :=
  let place := if count = 1 then
      "character '" ++ String.ofList (Text.codeEscape letter) ++ "' in position " ++ toString index
    else "characters in position " ++ toString index ++ "-" ++ toString (index + count - 1)
  .error .unicodeEncode ("'" ++ label ++ "' codec can't encode " ++ place ++
    ": ordinal not in range(" ++ toString limit ++ ")")

/-- What stands for a character that cannot be encoded, if something does. -/
def substitute? (errors : String) (letter : Char) : Option (List Char) :=
  match errors with
  | "ignore" => some []
  | "replace" => some ['?']
  | "backslashreplace" => some (Text.codeEscape letter)
  | "xmlcharrefreplace" => some ('&' :: '#' :: ((toString letter.toNat).toList ++ [';']))
  | _ => none

/-- Encodes a text with at most `limit` codes. -/
def encodeNarrow (label errors : String) (limit : Nat) : Nat → List Char → Heap (List UInt8)
  | _, [] => return []
  | index, letter :: rest => do
      if letter.toNat < limit then
        return UInt8.ofNat letter.toNat :: (← encodeNarrow label errors limit (index + 1) rest)
      else
        match substitute? errors letter with
        | some letters =>
            let encoded := letters.map fun letter => UInt8.ofNat letter.toNat
            return encoded ++ (← encodeNarrow label errors limit (index + 1) rest)
        | none =>
            if errors != "strict" then
              throw (.error .lookup ("unknown error handler name '" ++ errors ++ "'"))
            let count := ((letter :: rest).takeWhile fun letter => limit ≤ letter.toNat).length
            throw (unencodable label limit index count letter)

/-- An optional text argument that has a name. -/
def namedText (method argument : String) (value : Option Value) (default : String) :
    Heap String := do
  match value with
  | none => return default
  | some (text content) => return content
  | some (unpaired codes) => throw (.unpaired codes)
  | some other => throw (.typeError (method ++ "() argument '" ++ argument ++
      "' must be str, not " ++ other.argumentTypeName))

/-- A text in an encoding. -/
def encoded (content : String) (encoding errors : String) : Heap Value := do
  match encodingName encoding with
  | "utf8" | "u8" | "utf" => return bytes (utf8Bytes content)
  | "ascii" | "usascii" | "646" =>
      return bytes (← encodeNarrow "ascii" errors 128 0 content.toList)
  | "latin1" | "iso88591" | "l1" | "latin" | "88591" =>
      return bytes (← encodeNarrow "latin-1" errors 256 0 content.toList)
  | _ => throw (.error .lookup ("unknown encoding: " ++ encoding))

/-- What a substitution table puts in the place of a character. -/
def substitution (table : Value) (letter : Char) : Heap (List Char) := do
  let found ← match table with
    | dict cell => lookup (int (Int.ofNat letter.toNat)) (← Heap.entries cell)
    | text content => pure (content.toList[letter.toNat]?.map fun found => ofText [found])
    | list cell => pure (← Heap.items cell)[letter.toNat]?
    | tuple parts => pure parts[letter.toNat]?
    | other => throw (.typeError ("'" ++ other.typeName ++ "' object is not subscriptable"))
  match found with
  | none => return [letter]
  | some null => return []
  | some (text content) => return content.toList
  | some (int code) =>
      if 0 ≤ code && code < 0x110000 then return [Char.ofNat code.toNat]
      else throw (.valueError "character mapping must be in range(0x110000)")
  | some _ => throw (.typeError "character mapping must return integer, None or str")

/-- A substitution table. -/
def substitutionTable (first : Value) (second third : Option Value) : Heap Value := do
  let codeOf (letter : Char) : Value := int (Int.ofNat letter.toNat)
  match second with
  | none =>
      match first with
      | dict cell =>
          let entries ← (← Heap.entries cell).mapM fun entry => do
            match entry.1 with
            | int _ => return entry
            | text content =>
                match content.toList with
                | [letter] => return (codeOf letter, entry.2)
                | _ => throw (.valueError
                    "string keys in translate table must be of length 1")
            | _ => throw (.typeError
                "keys in translate table must be strings or integers")
          Heap.newDict (← insertAll entries [])
      | _ => throw (.typeError
          "if you give only one argument to maketrans it must be a dict")
  | some second =>
      let label (index : Nat) (value : Value) : Fault := .typeError ("maketrans() argument " ++
        toString index ++ " must be str, not " ++ value.argumentTypeName)
      match first, second, third with
      | text a, text b, rest =>
          if a.length != b.length then throw (.valueError
            "the first two maketrans arguments must have equal length")
          let pairs := (a.toList.zip b.toList).map fun pair => (codeOf pair.1, codeOf pair.2)
          match rest with
          | none => Heap.newDict (← insertAll pairs [])
          | some (text c) =>
              Heap.newDict (← insertAll (pairs ++ c.toList.map fun letter => (codeOf letter, null)) [])
          | some other => throw (label 3 other)
      | text _, other, _ => throw (label 2 other)
      | _, _, _ => throw (.typeError
          "first maketrans argument must be a string if there is a second argument")

/-- An argument that a method takes as a text. -/
def textArgument (method : String) (value : Value) : Heap (List Char) := do
  match value with
  | text content => return content.toList
  | other => throw (.typeError (method ++ " must be str, not " ++ other.argumentTypeName))

/-- Calls a method of a text with arguments in their places. -/
def textMethod (content : String) (name : String) (arguments : List (Option Value)) :
    Heap Value := do
  let letters := content.toList
  let argument (index : Nat) : Option Value := (arguments[index]?).getD none
  let first := (argument 0).getD null
  match name with
  | "capitalize" => return ofText (Text.capitalize letters)
  | "casefold" => return ofText (Text.fold letters)
  | "lower" => return ofText (Text.lower letters)
  | "upper" => return ofText (Text.upper letters)
  | "title" => return ofText (Text.title letters)
  | "swapcase" => return ofText (Text.swapCase letters)
  | "isalnum" => return bool (everyLetter Text.isAlphanumeric letters)
  | "isalpha" => return bool (everyLetter Text.isLetter letters)
  | "isascii" => return bool (letters.all fun letter => letter.toNat < 128)
  | "isdecimal" => return bool (everyLetter Text.isDecimal letters)
  | "isdigit" => return bool (everyLetter Text.isDigit letters)
  | "isnumeric" => return bool (everyLetter Text.isNumeric letters)
  | "isidentifier" => return bool (Text.isName letters)
  | "islower" => return bool (Text.isLowerText letters)
  | "isupper" => return bool (Text.isUpperText letters)
  | "istitle" => return bool (Text.isTitleText letters)
  | "isprintable" => return bool (letters.all Text.isPrintable)
  | "isspace" => return bool (everyLetter Text.isBlank letters)
  | "center" =>
      let width ← requireSize first
      return ofText (centered letters width (← fillArgument (argument 1)))
  | "ljust" =>
      let width ← requireSize first
      let fill ← fillArgument (argument 1)
      return ofText (letters ++ List.replicate (width.toNat - letters.length) fill)
  | "rjust" =>
      let width ← requireSize first
      let fill ← fillArgument (argument 1)
      return ofText (List.replicate (width.toNat - letters.length) fill ++ letters)
  | "zfill" => return ofText (zeroPadded letters (← requireSize first))
  | "count" =>
      let (start, stop) ← readBounds (argument 1) (argument 2) letters.length
      let needle ← requireText first
      if stop < start then return int 0
      else return int (Int.ofNat (Text.count needle (Text.slice letters start stop)))
  | "endswith" => return bool (← hasEdge name true letters (some first) (argument 1) (argument 2))
  | "startswith" => return bool (← hasEdge name false letters (some first) (argument 1) (argument 2))
  | "find" | "rfind" =>
      match ← findPart (name == "rfind") letters (some first) (argument 1) (argument 2) with
      | some position => return int (Int.ofNat position)
      | none => return int (-1)
  | "index" | "rindex" =>
      match ← findPart (name == "rindex") letters (some first) (argument 1) (argument 2) with
      | some position => return int (Int.ofNat position)
      | none => throw (.valueError "substring not found")
  | "encode" =>
      let encoding ← namedText "encode" "encoding" (argument 0) "utf-8"
      let errors ← namedText "encode" "errors" (argument 1) "strict"
      encoded content encoding errors
  | "expandtabs" =>
      let size ← match argument 0 with
        | none => pure 8
        | some value => requireSmall value
      return ofText (expandTabs size.toNat 0 letters)
  | "join" =>
      if first.isUndefined || first.isIterable then
        return ofText (← joinTexts letters (← first.items))
      else throw (.typeError "can only join an iterable")
  | "partition" | "rpartition" =>
      let separator ← requireText first
      if separator.isEmpty then throw (.valueError "empty separator")
      let fromEnd := name == "rpartition"
      let found := if fromEnd then Text.findLast? separator letters
        else Text.find? separator letters
      match found with
      | some offset => return tuple [ofText (letters.take offset), ofText separator,
          ofText (letters.drop (offset + separator.length))]
      | none =>
          if fromEnd then return tuple [text "", text "", text content]
          else return tuple [text content, text "", text ""]
  | "removeprefix" =>
      let part ← textArgument "removeprefix() argument" first
      return ofText (if part.isPrefixOf letters then letters.drop part.length else letters)
  | "removesuffix" =>
      let part ← textArgument "removesuffix() argument" first
      return ofText (if part.isSuffixOf letters then letters.take (letters.length - part.length)
        else letters)
  | "replace" =>
      let old ← textArgument "replace() argument 1" first
      let new ← textArgument "replace() argument 2" ((argument 1).getD null)
      let limit ← match argument 2 with
        | none => pure (-1)
        | some value => requireSize value
      return ofText (Text.replace old new (cutLimit limit letters) letters)
  | "strip" => return ofText (stripped (← stripSet name (argument 0)) true true letters)
  | "lstrip" => return ofText (stripped (← stripSet name (argument 0)) true false letters)
  | "rstrip" => return ofText (stripped (← stripSet name (argument 0)) false true letters)
  | "split" | "rsplit" =>
      let limit ← match argument 1 with
        | none => pure (-1)
        | some value => requireSize value
      let count := cutLimit limit letters
      let fromEnd := name == "rsplit"
      match first with
      | null =>
          if fromEnd then
            newTexts ((Text.words (letters.length + 1) count letters.reverse).reverse.map
              List.reverse)
          else newTexts (Text.words (letters.length + 1) count letters)
      | text separator =>
          if separator.isEmpty then throw (.valueError "empty separator")
          else if fromEnd then newTexts (Text.splitOnLast separator.toList count letters)
          else newTexts (Text.splitOn separator.toList count letters)
      | other => throw (.typeError ("must be str or None, not " ++ other.typeName))
  | "splitlines" =>
      let keep ← match argument 0 with
        | none => pure false
        | some value => pure ((← requireSmall value) != 0)
      newTexts (Text.lines keep [] letters)
  | "translate" =>
      let parts ← letters.mapM (substitution first)
      return ofText parts.flatten
  | "maketrans" => substitutionTable first (argument 1) (argument 2)
  | _ => throw (.error .attribute ("'str' object has no attribute '" ++ name ++ "'"))

end Imprint.Value
