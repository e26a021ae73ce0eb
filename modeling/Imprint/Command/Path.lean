import Imprint.Text.Search

set_option autoImplicit false

/-!
# Paths

A path says where it starts and which steps follow.  Steps that stay where they are do not count, so
that paths that differ only in them are the same; steps that lead back are kept.
-/

namespace Imprint.Command

/-- A path: the slashes it starts with, and its steps. -/
structure Path where
  root : String
  steps : List String
deriving DecidableEq, Repr, Inhabited

namespace Path

/-- The slashes that a path starts with.  Two of them are kept; more than two count as one. -/
def rootOf : List Char → String
  | '/' :: '/' :: '/' :: _ => "/"
  | '/' :: '/' :: _ => "//"
  | '/' :: _ => "/"
  | _ => ""

/-- The parts of a text between slashes. -/
def parts (text : String) : List String :=
  let letters := text.toList
  (Text.splitOn ['/'] letters.length letters).map String.ofList

/-- Whether a part leads somewhere else. -/
def isStep (part : String) : Bool :=
  part != "" && part != "."

/-- The path that a text describes. -/
def ofText (text : String) : Path :=
  ⟨rootOf text.toList, (parts text).filter isStep⟩

/-- The path as a text. -/
def text (path : Path) : String :=
  if path.root = "" && path.steps.isEmpty then "."
  else path.root ++ String.intercalate "/" path.steps

/-- The last step; it is empty if there is none. -/
def name (path : Path) : String :=
  path.steps.getLast?.getD ""

/-- The path to where the last step starts. -/
def parent (path : Path) : Path :=
  { path with steps := path.steps.dropLast }

/-- The path with another last step. -/
def withName (path : Path) (name : String) : Path :=
  { path with steps := path.steps.dropLast ++ [name] }

/-- A name without its ending.  The ending starts at the last point, which has letters on both
sides. -/
def stemOf (name : List Char) : List Char :=
  match name.reverse with
  | '.' :: _ => name
  | letters =>
      match letters.dropWhile (· != '.') with
      | _ :: letter :: front => (letter :: front).reverse
      | _ => name

/-- The last step without its ending. -/
def stem (path : Path) : String :=
  String.ofList (stemOf path.name.toList)

/-- The proper beginnings of a path. -/
def beginnings (path : Path) : List Path :=
  (List.range path.steps.length).map fun count => { path with steps := path.steps.take count }

end Path

/-- Whether a text asks for a folder: it ends with a slash, or with a step that stays there. -/
def asksForFolder (text : String) : Bool :=
  ((Path.parts text).getLast?.map Path.isStep) == some false

end Imprint.Command
