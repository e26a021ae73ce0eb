import Imprint.Text.Category

set_option autoImplicit false

/-!
# Searching and cutting texts

Texts are lists of characters here, and every offset counts characters.  The central operation is
`find?`, the first place at which one text occurs in another; replacing, splitting and counting are
stated through it.
-/

namespace Imprint.Text

/-- Offset of the first occurrence of a text in another.  The empty text occurs at once. -/
def find? (needle : List Char) : List Char → Option Nat
  | [] => if needle.isEmpty then some 0 else none
  | letter :: rest =>
      if needle.isPrefixOf (letter :: rest) then some 0
      else (find? needle rest).map (· + 1)

/-- Whether a text occurs in another. -/
def occursIn (needle text : List Char) : Bool :=
  (find? needle text).isSome

/-- Offset of the last occurrence of a text in another. -/
def findLast? (needle text : List Char) : Option Nat :=
  (find? needle.reverse text.reverse).map fun offset => text.length - needle.length - offset

/-- The text without the blank characters at its start. -/
def trimStart (text : List Char) : List Char :=
  text.dropWhile isBlank

/-- The text without the blank characters at its end. -/
def trimEnd (text : List Char) : List Char :=
  (text.reverse.dropWhile isBlank).reverse

/-- The text without the blank characters at both ends. -/
def trim (text : List Char) : List Char :=
  trimEnd (trimStart text)

/-- The text without the characters of a set at its start. -/
def trimStartOf (set text : List Char) : List Char :=
  text.dropWhile set.contains

/-- The text without the characters of a set at its end. -/
def trimEndOf (set text : List Char) : List Char :=
  (text.reverse.dropWhile set.contains).reverse

/-- Cuts a text at the occurrences of a separator, at most `limit` times, from the start.  The
separator is not empty. -/
def splitOn (separator : List Char) : Nat → List Char → List (List Char)
  | 0, text => [text]
  | limit + 1, text =>
      match find? separator text with
      | none => [text]
      | some offset =>
          text.take offset :: splitOn separator limit (text.drop (offset + separator.length))

/-- Cuts a text at the occurrences of a separator, at most `limit` times, from the end. -/
def splitOnLast (separator : List Char) (limit : Nat) (text : List Char) : List (List Char) :=
  ((splitOn separator.reverse limit text.reverse).map List.reverse).reverse

/-- The words of a text, separated by blank characters, at most `limit` of them cut off from the
start; what is left is one more word, without blanks at its start. -/
def words : Nat → Nat → List Char → List (List Char)
  | 0, _, _ => []
  | fuel + 1, limit, text =>
      match trimStart text with
      | [] => []
      | start =>
          match limit with
          | 0 => [start]
          | limit + 1 =>
              let word := start.takeWhile fun letter => !isBlank letter
              word :: words fuel limit (start.dropWhile fun letter => !isBlank letter)

/-- Puts a separator between texts. -/
def joinWith (separator : List Char) : List (List Char) → List Char
  | [] => []
  | [text] => text
  | text :: rest => text ++ separator ++ joinWith separator rest

/-- Puts a text between all characters of another, before the first and after the last, at most
`limit` times. -/
def interleave (between : List Char) : Nat → List Char → List Char
  | 0, text => text
  | _ + 1, [] => between
  | limit + 1, letter :: rest => between ++ letter :: interleave between limit rest

/-- Replaces the occurrences of a text, at most `limit` of them, from the start.  The empty text is
replaced between all characters. -/
def replace (old new : List Char) (limit : Nat) (text : List Char) : List Char :=
  if old.isEmpty then interleave new limit text
  else joinWith new (splitOn old limit text)

/-- Number of occurrences of a text that do not overlap. -/
def count (needle text : List Char) : Nat :=
  if needle.isEmpty then text.length + 1
  else (splitOn needle text.length text).length - 1

/-- The lines of a text.  A carriage return followed by a line feed is one line end, and the ends
are kept on request. -/
def lines (keepEnds : Bool) : List Char → List Char → List (List Char)
  | [], [] => []
  | open_, [] => [open_.reverse]
  | open_, '\r' :: '\n' :: rest =>
      (if keepEnds then ('\n' :: '\r' :: open_).reverse else open_.reverse) :: lines keepEnds [] rest
  | open_, letter :: rest =>
      if isLineEnd letter then
        (if keepEnds then (letter :: open_).reverse else open_.reverse) :: lines keepEnds [] rest
      else lines keepEnds (letter :: open_) rest

/-- The piece of a text between two offsets. -/
def slice (text : List Char) (start stop : Nat) : List Char :=
  (text.take stop).drop start

end Imprint.Text
