import Imprint.Document.Run

set_option autoImplicit false

/-!
# Paragraphs as text

The text of a paragraph is the text of its direct runs, one behind the other; what stands between
them counts for nothing.  A reading notes which part of the text each run has.  Replacing a piece of
the text changes the runs that have a part in it and no other child of the paragraph.
-/

namespace Imprint.Document

open Xml

/-- Whether a child of a paragraph is a run. -/
def isRun (child : Node) : Bool :=
  child.hasTag Tag.run

/-- The direct runs of a paragraph. -/
def runs (paragraph : Node) : List Node :=
  paragraph.children.filter isRun

/-- The text of a paragraph. -/
def paragraphText (paragraph : Node) : List Char :=
  (runs paragraph).flatMap runText

/-- The run properties that belong to the mark of a paragraph. -/
def markProperties (paragraph : Node) : Option Node :=
  (paragraph.child? Tag.paragraphProperties).bind (Node.child? Tag.runProperties)

/-- A part of a text, without its end. -/
structure Span where
  start : Nat
  stop : Nat
deriving DecidableEq, Repr, Inhabited

/-- Whether a span overlaps a part of the text.  The part may begin in front of the text. -/
def Span.covers (span : Span) (start stop : Int) : Bool :=
  (span.stop : Int) > start && (span.start : Int) < stop

/-- The spans of texts that stand one behind the other. -/
def spansFrom : Nat → List (List Char) → List Span
  | _, [] => []
  | start, letters :: rest =>
      ⟨start, start + letters.length⟩ :: spansFrom (start + letters.length) rest

/-- The text of a paragraph, and the span of each of its runs in order. -/
structure Reading where
  spans : List Span
  text : List Char
deriving DecidableEq, Repr, Inhabited

namespace Reading

/-- Reads a paragraph. -/
def ofParagraph (paragraph : Node) : Reading :=
  ⟨spansFrom 0 ((runs paragraph).map runText), paragraphText paragraph⟩

/-- The runs that have a part in a stretch of the text, by their place among the runs. -/
def affected (reading : Reading) (start stop : Int) : List (Nat × Span) :=
  (reading.spans.zipIdx.filter fun entry => entry.1.covers start stop).map fun (span, index) =>
    (index, span)

end Reading

/-- Replaces each run of some nodes by what a function makes of it and its place among the runs. -/
def replaceRuns (change : Nat → Node → List Node) : Nat → List Node → List Node
  | _, [] => []
  | index, node :: rest =>
      if isRun node then change index node ++ replaceRuns change (index + 1) rest
      else node :: replaceRuns change index rest

/-- What becomes of a run that has the whole match: the replacement stands between what is left of the
run in front of the match and behind it.  A rest behind the match gets a run of its own if there is
one in front of it. -/
def splitRun (replacement : List Node) (start stop : Nat) (run : Node) : List Node :=
  let letters := runText run
  let before := letters.take start
  let after := letters.drop stop
  match before.isEmpty, after.isEmpty with
  | true, true => replacement
  | true, false => replacement ++ [setRunText run after]
  | false, true => setRunText run before :: replacement
  | false, false =>
      setRunText run before :: (replacement ++ [createRun after (runProperties run)])

/-- What becomes of the first of several runs of a match. -/
def cutFirst (replacement : List Node) (start : Nat) (run : Node) : List Node :=
  let before := (runText run).take start
  if before.isEmpty then replacement else setRunText run before :: replacement

/-- What becomes of the last of several runs of a match. -/
def cutLast (stop : Nat) (run : Node) : List Node :=
  let after := (runText run).drop stop
  if after.isEmpty then [] else [setRunText run after]

/-- What becomes of a run when the stretch of text from `start` to `stop` is replaced; `affected` are
the runs that have a part in it. -/
def cutRun (affected : List (Nat × Span)) (replacement : List Node) (start stop index : Nat)
    (run : Node) : List Node :=
  match affected with
  | [(only, span)] =>
      if index = only then splitRun replacement (start - span.start) (stop - span.start) run
      else [run]
  | (first, firstSpan) :: others =>
      match others.getLast? with
      | some (last, lastSpan) =>
          if index = first then cutFirst replacement (start - firstSpan.start) run
          else if index = last then cutLast (stop - lastSpan.start) run
          else if others.any fun entry => entry.1 == index then []
          else [run]
      | none => [run]
  | [] => [run]

/-- The paragraph with a run, or nothing, in place of the first occurrence of a text in its reading.
There is no result if the text does not occur. -/
def replaceText? (paragraph : Node) (reading : Reading) (wanted : List Char)
    (replacement : Option Node) : Option Node :=
  if wanted.isEmpty then none
  else
    match Text.find? wanted reading.text with
    | none => none
    | some start =>
        let stop := start + wanted.length
        match reading.affected start stop with
        | [] => none
        | affected =>
            some (paragraph.withChildren
              (replaceRuns (cutRun affected replacement.toList start stop) 0 paragraph.children))

/-- A paragraph in which texts are replaced one after the other, with what has been read of it. -/
structure View where
  paragraph : Node
  reading : Reading
deriving Inhabited

namespace View

/-- A paragraph that has just been read. -/
def ofParagraph (paragraph : Node) : View := ⟨paragraph, .ofParagraph paragraph⟩

/-- Replaces the first occurrence of a text, and whether there was one.  The paragraph is read again if it has
been changed. -/
def replace (view : View) (wanted : List Char) (replacement : Option Node) : Bool × View :=
  match replaceText? view.paragraph view.reading wanted replacement with
  | some changed => (true, .ofParagraph changed)
  | none => (false, view)

end View

/-- The run properties at the start of the first occurrence of a text. -/
def propertiesAt (paragraph : Node) (wanted : List Char) : Option Node :=
  let reading := Reading.ofParagraph paragraph
  match Text.find? wanted reading.text with
  | none => none
  | some start =>
      match reading.affected start (start + wanted.length) with
      | [] => none
      | (index, _) :: _ => (runs paragraph)[index]?.bind runProperties

end Imprint.Document
