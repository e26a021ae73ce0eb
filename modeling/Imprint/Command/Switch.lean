import Imprint.Text.Category
import Imprint.Text.Quoted

set_option autoImplicit false

/-!
# Words of a command line

Words that start with a dash name switches.  A switch has one or two spellings: short ones are a dash
and a letter, long ones two dashes and a name, which can be cut short as long as it fits one switch
only.  A value can follow in the same word, and short switches without a value can be written in one
word.  Words behind two lone dashes name no switches.
-/

namespace Imprint.Command

/-- The switches. -/
inductive Switch where
  | help
  | output
  | configuration
  | lenient
  | leaveEmpty
  | unresolvedDefault
  | nullDefault
  | lineBreak
  | verbose
deriving DecidableEq, Repr, Inhabited

namespace Switch

/-- All switches. -/
def all : List Switch :=
  [help, output, configuration, lenient, leaveEmpty, unresolvedDefault, nullDefault, lineBreak, verbose]

/-- How a switch is written. -/
def spellings : Switch → List String
  | help => ["-h", "--help"]
  | output => ["-o", "--output"]
  | configuration => ["--config"]
  | lenient => ["--no-fail-on-unresolved"]
  | leaveEmpty => ["--leave-empty"]
  | unresolvedDefault => ["--unresolved-default"]
  | nullDefault => ["--null-default"]
  | lineBreak => ["--line-break"]
  | verbose => ["-v", "--verbose"]

/-- Whether a value belongs to a switch. -/
def takesValue : Switch → Bool
  | output | configuration | unresolvedDefault | nullDefault | lineBreak => true
  | help | lenient | leaveEmpty | verbose => false

/-- The name of a switch in messages. -/
def title (switch : Switch) : String :=
  String.intercalate "/" switch.spellings

/-- All spellings with their switches. -/
def table : List (String × Switch) :=
  all.flatMap fun switch => switch.spellings.map fun spelling => (spelling, switch)

/-- The switch with a spelling. -/
def ofSpelling? (spelling : String) : Option Switch :=
  table.lookup spelling

/-- The spellings that start with some letters. -/
def candidates (start : List Char) : List (String × Switch) :=
  table.filter fun entry => start.isPrefixOf entry.1.toList

end Switch

/-- Why a command line asks for nothing that can be done. -/
inductive Refusal where
  | ambiguous (word : String) (candidates : List String)
  | ignoredValue (switch : Switch) (value : String)
  | missingValue (switch : Switch)
  | conflict (switch other : Switch)
  | missing (names : List String)
  | unknown (words : List String)
deriving DecidableEq, Repr, Inhabited

namespace Refusal

/-- A message about a switch. -/
def about (switch : Switch) (text : String) : String :=
  "argument " ++ switch.title ++ ": " ++ text

/-- The text that is shown. -/
def message : Refusal → String
  | ambiguous word candidates =>
      "ambiguous option: " ++ word ++ " could match " ++ String.intercalate ", " candidates
  | ignoredValue switch value => about switch ("ignored explicit argument " ++ Text.quote value)
  | missingValue switch => about switch "expected one argument"
  | conflict switch other => about switch ("not allowed with argument " ++ other.title)
  | missing names => "the following arguments are required: " ++ String.intercalate ", " names
  | unknown words => "unrecognized arguments: " ++ String.intercalate " " words

end Refusal

/-- A word of a command line. -/
inductive Word where
  | plain (text : String)
  /-- Two lone dashes. -/
  | separator
  /-- A switch and what follows it in the word. -/
  | switch (switch : Switch) (attached : List Char)
  | unknown (text : String)
deriving DecidableEq, Repr, Inhabited

namespace Word

/-- Whether letters are digits. -/
def areDigits (letters : List Char) : Bool :=
  letters.all fun letter => (Text.decimalValue? letter).isSome

/-- Whether letters are a number behind its sign: digits, or digits with one point among them that
another digit follows. -/
def isNumber (letters : List Char) : Bool :=
  let whole := letters.takeWhile (· != '.')
  match letters.drop whole.length with
  | [] => areDigits whole && !whole.isEmpty
  | _ :: fraction => areDigits whole && areDigits fraction && !fraction.isEmpty

/-- Whether a word that starts with a dash is none of the switches and stands for itself: it is a
negative number, or it holds a space. -/
def standsForItself (letters : List Char) : Bool :=
  let digits := if letters.getLast? == some '\n' then letters.dropLast else letters
  isNumber (digits.drop 1) || letters.contains ' '

/-- The word that letters are if they are no spelling of a switch. -/
def ofUnmatched (letters : List Char) : Word :=
  if standsForItself letters then plain (String.ofList letters) else unknown (String.ofList letters)

/-- Reads a word with two dashes at its start. -/
def ofLong (letters : List Char) : Except Refusal Word :=
  let start := letters.takeWhile (· != '=')
  match Switch.candidates start with
  | [] => .ok (ofUnmatched letters)
  | [(_, found)] => .ok (switch found (letters.drop start.length))
  | candidates => .error (.ambiguous (String.ofList letters) (candidates.map (·.1)))

/-- Reads a word with one dash at its start. -/
def ofShort (letters : List Char) : Word :=
  match Switch.ofSpelling? (String.ofList (letters.take 2)) with
  | some found => switch found (letters.drop 2)
  | none => ofUnmatched letters

/-- Reads a word in front of a separator. -/
def ofText (text : String) : Except Refusal Word :=
  let letters := text.toList
  let start := letters.takeWhile (· != '=')
  match Switch.ofSpelling? (String.ofList start) with
  | some found => .ok (switch found (letters.drop start.length))
  | none =>
      match letters with
      | '-' :: '-' :: _ => ofLong letters
      | '-' :: _ :: _ => .ok (ofShort letters)
      | _ => .ok (plain text)

/-- Reads the words of a command line. -/
def readAll : List String → Except Refusal (List Word)
  | [] => .ok []
  | "--" :: rest => .ok (separator :: rest.map plain)
  | text :: rest => do
      let word ← ofText text
      return word :: (← readAll rest)

end Word

end Imprint.Command
